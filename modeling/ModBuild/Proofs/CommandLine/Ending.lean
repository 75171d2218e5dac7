import ModBuild.Proofs.CommandLine.Opening
import ModBuild.Proofs.CommandLine.Pointing
import ModBuild.Proofs.Declaration.Failing

/-!
# How commands that run once end

A command that runs once ends with nought, or with one after a message in red,
unless it cannot begin, a failure that is not expected of projects comes up, or what
it says at the end cannot be shown. Each of those has its cause in what the command
was given.
-/

set_option autoImplicit false

namespace ModBuild.CommandLine

open ModBuild.Action

/-- A command has ended: with nought, or with one after a message in red. -/
inductive Ended : EStateM.Result Failure Workspace Nat → Prop
  | done {v : Workspace} : Ended (.ok 0 v)
  | reported {v : Workspace} {before : List Text} {message : Text}
      (h : v.printed = before ++ ["[red]".toList ++ message]) : Ended (.ok 1 v)

theorem Ended.answers {a : Action Nat} {w : Workspace} (h : Ended (a w)) : a.result? w ≠ none := by
  unfold result?
  cases h' : a w with
  | ok code v => simp
  | error e v =>
    rw [h'] at h
    cases h

def runnerOf (host : Host) (layout : Layout) (words : List Text) : ProcessRunner :=
  ⟨words, some layout.root, host.scratch, host.run⟩

/-- Why a command that runs once hands on a failure after it has begun: the project
cannot be configured, the words of the runner are not to be read, or its work fails
for a cause that it was given. -/
inductive Escape (host : Host) (layout : Layout) (w : Workspace) : Mode → Failure → Prop
  | unconfigured {mode : Mode} {e : Failure} (h : Project.Unconfigured layout w e) :
      Escape host layout w mode e
  | runner {mode : Mode} {unfinished : ShellWords.Unfinished}
      (h : ProcessRunner.words? none host.runnerVariable = .error unfinished) :
      Escape host layout w mode (.command unfinished)
  | build {info : Manifest} {config : Config} {words : List Text} {e : Failure}
      (hinfo : Project.loadManifest layout.manifest w = .ok info w)
      (hconfig : Project.configure layout (some info) w = .ok config w)
      (hwords : ProcessRunner.words? none host.runnerVariable = .ok words)
      (h : Build.Cause layout config host.clock (runnerOf host layout words) w e) :
      Escape host layout w .build e
  | declarations {info : Manifest} {config : Config} {words : List Text} {e : Failure}
      (hinfo : Project.loadManifest layout.manifest w = .ok info w)
      (hconfig : Project.configure layout (some info) w = .ok config w)
      (hwords : ProcessRunner.words? none host.runnerVariable = .ok words)
      (h : Declaration.Cause layout config info host.clock.year (runnerOf host layout words) e) :
      Escape host layout w .declarations e

/-- The lines that a task closes with: what is wrong with the manifest, how its work
failed, or what it came to. -/
inductive Closes (host : Host) (layout : Layout) (w : Workspace) (task : Task) :
    List Text → Prop
  | defect {defect : ManifestDefect}
      (h : Project.loadManifest layout.manifest w = .error (.manifest defect) w) :
      Closes host layout w task [red defect.message]
  | failed {info : Manifest} {v v' : Workspace} {e : Failure}
      (hinfo : Project.loadManifest layout.manifest w = .ok info w)
      (hprepare : layout.prepare w = .ok () v)
      (h : task.carry host layout info v = .error e v') (he : e.expected = true) :
      Closes host layout w task [red (task.failed ++ ":".toList) ++ ' ' :: e.message]
  | done {info : Manifest} {v v' : Workspace} {lines : List Text}
      (hinfo : Project.loadManifest layout.manifest w = .ok info w)
      (hprepare : layout.prepare w = .ok () v)
      (h : task.carry host layout info v = .ok lines v') : Closes host layout w task lines

/-- A command that closes with some lines ends if they are legible, and otherwise hands
on that one of them is not. -/
structure Told (Legible : Text → Prop) (lines : List Text)
    (r : EStateM.Result Failure Workspace Nat) : Prop where
  ends : (∀ line ∈ lines, Legible line) → Ended r
  illegible : (∃ line ∈ lines, ¬ Legible line) → ∃ complaint v, r = .error (.markup complaint) v

section

variable {host : Host} {layout : Layout} {w v v' : Workspace} {info : Manifest} {task : Task}
  {Legible : Text → Prop}

theorem toolchainOf_ok {words : List Text}
    (h : ProcessRunner.words? none host.runnerVariable = .ok words) (v : Workspace) :
    host.toolchainOf layout v = .ok (runnerOf host layout words).toolchain v := by
  rw [Host.toolchainOf, h]
  rfl

theorem toolchainOf_error {unfinished : ShellWords.Unfinished}
    (h : ProcessRunner.words? none host.runnerVariable = .error unfinished) (v : Workspace) :
    host.toolchainOf layout v = .error (.command unfinished) v := by
  rw [Host.toolchainOf, h]
  rfl

theorem lines_told (hprints : host.Prints Legible) (lines : List Text) (v : Workspace) :
    Told Legible lines ((do lines.forM host.print; return 0 : Action Nat) v) := by
  induction lines generalizing v with
  | nil => exact ⟨fun _ => .done, fun ⟨_, h, _⟩ => absurd h (by simp)⟩
  | cons line lines ih =>
    have hcons : (line :: lines).forM host.print =
        host.print line >>= fun _ => lines.forM host.print := rfl
    rw [hcons, bind_assoc]
    by_cases hline : Legible line
    · rw [bind_of_ok (hprints.shows line hline v)]
      obtain ⟨hends, hillegible⟩ := ih { v with printed := v.printed ++ [line] }
      refine ⟨fun h => hends (List.forall_mem_cons.mp h).2, fun h => hillegible ?_⟩
      simpa [hline] using h
    · obtain ⟨complaint, hprint⟩ := hprints.refuses line hline v
      rw [bind_of_error hprint]
      exact ⟨fun h => absurd (h line (by simp)) hline, fun _ => ⟨complaint, v, rfl⟩⟩

theorem refuse_told (hprints : host.Prints Legible) (message : Text) (v : Workspace) :
    Told Legible ["[red]".toList ++ message] (host.refuse ("[red]".toList ++ message) v) := by
  constructor
  · intro h
    rw [hprints.refuse (h _ (by simp))]
    exact .reported rfl
  · rintro ⟨line, hline, hno⟩
    obtain rfl := List.mem_singleton.mp hline
    obtain ⟨complaint, h⟩ := hprints.refuse_illegible hno v
    exact ⟨complaint, v, h⟩

theorem carry_failed {mode : Mode}
    (hsame : Alike v w (Project.configure layout (some info)))
    (hwork : ∀ config words e v', Project.configure layout (some info) w = .ok config w →
      ProcessRunner.words? none host.runnerVariable = .ok words →
      task.work info config (runnerOf host layout words).toolchain v = .error e v' →
      e.expected = true ∨ Escape host layout w mode e) {e : Failure}
    (h : task.carry host layout info v = .error e v') :
    e.expected = true ∨ Escape host layout w mode e := by
  rcases bind_error h with hunread | ⟨config, v₁, hread, hrest⟩
  · exact (Project.configure_failed (hsame.of_error hunread).2).imp_right .unconfigured
  obtain ⟨hv, hconfig⟩ := hsame.of_ok hread
  rw [hv] at hrest
  cases hwords : ProcessRunner.words? none host.runnerVariable with
  | error unfinished =>
    rw [bind_of_error (toolchainOf_error hwords v)] at hrest
    cases hrest
    exact .inr (.runner hwords)
  | ok words =>
    rw [bind_of_ok (toolchainOf_ok hwords v)] at hrest
    exact hwork config words e v' hconfig hwords hrest

theorem task_failed {mode : Mode} (htask : taskOf host layout mode = some task)
    (hinfo : Project.loadManifest layout.manifest w = .ok info w) (hs : w.Stands layout.root)
    (hprepare : layout.prepare w = .ok () v) (hprepares : layout.Prepares w v) {e : Failure}
    (h : task.carry host layout info v = .error e v') :
    e.expected = true ∨ Escape host layout w mode e := by
  refine carry_failed (Project.configure_alike (Layout.settings_leads hs hprepares.leads))
    (fun config words e v' hconfig hwords hwork => ?_) h
  cases mode with
  | watch => cases htask
  | build =>
    obtain rfl := Option.some.inj htask
    rcases bind_error hwork with hrun | ⟨run, v₁, -, hpure⟩
    · exact (Build.run_failed hs ⟨_, Build.prepare_laid hs hprepare⟩ hrun).imp_right fun hcause =>
        .build hinfo hconfig hwords hcause
    · cases hpure
  | declarations =>
    obtain rfl := Option.some.inj htask
    rcases bind_error hwork with hcompile | ⟨out?, v₁, -, hpure⟩
    · exact (Declaration.compile_failed hcompile).imp_right fun hcause =>
        .declarations hinfo hconfig hwords hcause
    · cases hpure

theorem finish_ends (hprints : host.Prints Legible) {mode : Mode}
    (htask : taskOf host layout mode = some task)
    (hinfo : Project.loadManifest layout.manifest w = .ok info w) (hs : w.Stands layout.root)
    (hprepare : layout.prepare w = .ok () v) (hprepares : layout.Prepares w v) :
    (∃ lines, Closes host layout w task lines ∧
        Told Legible lines (task.finish host layout info v)) ∨
      ∃ e v', e.expected = false ∧ Escape host layout w mode e ∧
        task.finish host layout info v = .error e v' := by
  rw [Task.finish]
  cases h : task.carry host layout info v with
  | ok lines v₁ =>
    rw [bind_of_ok (attempt_of_ok h)]
    exact .inl ⟨lines, .done hinfo hprepare h, lines_told hprints lines v₁⟩
  | error e v₁ =>
    rw [bind_of_ok (attempt_of_error h)]
    dsimp only
    rw [reportExpected]
    cases he : e.expected with
    | true => exact .inl ⟨_, .failed hinfo hprepare h he, refuse_told hprints _ v₁⟩
    | false =>
      have hcause := task_failed htask hinfo hs hprepare hprepares h
      exact .inr ⟨e, v₁, he, hcause.resolve_left (by simp [he]), rfl⟩

/-- A command that runs once fails where it cannot begin. Otherwise it closes with its
lines, and ends if they are legible, with nought or with one after a message in red; or
it hands on a failure that is not expected, for a cause that it was given. -/
theorem perform_ends (host : Host) (hprints : host.Prints Legible) (mode : Mode)
    (layout : Layout) (htask : taskOf host layout mode = some task) (w : Workspace) :
    (Unready layout w → ∃ e v, perform host mode layout w = .error e v) ∧
      (¬ Unready layout w →
        (∃ lines, Closes host layout w task lines ∧
          ((∀ line ∈ lines, Legible line) → Ended (perform host mode layout w)) ∧
          ((∃ line ∈ lines, ¬ Legible line) → ∃ complaint v,
            perform host mode layout w = .error (.markup complaint) v)) ∨
        ∃ e v, e.expected = false ∧ Escape host layout w mode e ∧
          perform host mode layout w = .error e v) := by
  rw [perform_eq]
  rcases opened_cases host layout (remainder host layout mode) w with
    ⟨defect, hload, hready, h⟩ | ⟨hunready, e, v, -, h⟩ |
    ⟨info, v, hinfo, hs, hready, hprepare, hprepares, h⟩
  · refine ⟨fun hno => absurd hno hready, fun _ => .inl ⟨_, .defect hload, ?_⟩⟩
    rw [h]
    obtain ⟨hends, hillegible⟩ := refuse_told hprints (defect.message ++ "[/red]".toList) w
    exact ⟨hends, hillegible⟩
  · exact ⟨fun _ => ⟨e, v, h⟩, fun hready => absurd hunready hready⟩
  · refine ⟨fun hno => absurd hno hready, fun _ => ?_⟩
    rw [h, remainder_of_task htask]
    refine (finish_ends hprints htask hinfo hs hprepare hprepares).imp_left ?_
    rintro ⟨lines, hcloses, hends, hillegible⟩
    exact ⟨lines, hcloses, hends, hillegible⟩

end

/-! A project whose manifest is a directory, one whose id closes a tag that is not open,
and a host that refuses such a line. -/

def sampleHere : Layout := Layout.choose none none

def sampleThere : Layout := Layout.choose (some "mod".toList) none

def sampleUnread : Workspace where
  tree := ((Tree.empty.makeDirectory [Layout.manifestName]).toOption).getD .empty

def sampleTagged : Workspace where
  tree := ((Tree.empty.writeFile [Layout.manifestName] (Text.encode
    "name=Note\nid=[/x]\nposter=p\ndescription=d\n".toList)).toOption).getD .empty

def sampleStrict : Host where
  scratch := "/scratch".toList
  run _ := pure {}
  print line := if Text.occurs "[/x]".toList line then
    throw (.markup "closing tag [/x] doesn't match any open tag".toList) else note line
  clock := Build.sampleClock

theorem sampleStrict_prints :
    sampleStrict.Prints fun line => Text.occurs "[/x]".toList line = false where
  shows line h w := by
    change (if Text.occurs "[/x]".toList line = true then _ else _ : Action Unit) w = _
    rw [h]
    rfl
  refuses line h w := by
    refine ⟨"closing tag [/x] doesn't match any open tag".toList, ?_⟩
    change (if Text.occurs "[/x]".toList line = true then _ else _ : Action Unit) w = _
    rw [if_pos (Bool.not_eq_false _ ▸ h)]
    rfl

theorem sample_ends :
    (sampleStrict.Prints fun line => Text.occurs "[/x]".toList line = false) ∧
      taskOf sampleStrict sampleThere .build = some (Task.build sampleStrict sampleThere) ∧
      (∃ e v, perform sampleStrict .declarations sampleHere sampleUnread = .error e v) ∧
      Ended (perform sampleStrict .build sampleThere sampleMod) := by
  obtain ⟨hfails, hends⟩ :=
    perform_ends sampleStrict sampleStrict_prints .build sampleThere rfl sampleMod
  have hanswer : (perform sampleStrict .build sampleThere).result? sampleMod ≠ none := by
    decide +kernel
  have hno (e : Failure) (v : Workspace) :
      perform sampleStrict .build sampleThere sampleMod ≠ .error e v :=
    fun h => hanswer (by rw [result?, h])
  refine ⟨sampleStrict_prints, rfl, ?_, ?_⟩
  · apply (perform_ends sampleStrict sampleStrict_prints .declarations sampleHere rfl
      sampleUnread).1
    exact .unread (e := .fault .isADirectory) (by decide +kernel) (by decide)
  · have hready : ¬ Unready sampleThere sampleMod := by
      intro hunready
      obtain ⟨e, v, h⟩ := hfails hunready
      exact hno e v h
    rcases hends hready with ⟨lines, -, hlegible, hillegible⟩ | ⟨e, v, -, -, h⟩
    · refine hlegible fun line hline => by_contra fun hrefused => ?_
      obtain ⟨complaint, v, h⟩ := hillegible ⟨line, hline, hrefused⟩
      exact hno _ v h
    · exact absurd h (hno e v)

/-- A manifest that is a directory is not reported, and neither is that a mod was built
whose id is no markup. -/
theorem sample_unreported :
    ¬ Ended (perform sampleHost .build sampleHere sampleUnread) ∧
      ¬ Ended (perform sampleHost .declarations sampleHere sampleUnread) ∧
      ¬ Ended (perform sampleStrict .build sampleHere sampleTagged) :=
  ⟨fun h => h.answers (by decide +kernel), fun h => h.answers (by decide +kernel),
    fun h => h.answers (by decide +kernel)⟩

end ModBuild.CommandLine
