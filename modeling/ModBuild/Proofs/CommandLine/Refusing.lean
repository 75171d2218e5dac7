import ModBuild.Proofs.CommandLine.Ending

/-!
# How commands refuse a project

A manifest that is no use is reported before anything is touched. The package is
read after the directories of the output are made, so a project with a package that
is no use is left as it was exactly if they were all there.
-/

set_option autoImplicit false

namespace ModBuild.CommandLine

open ModBuild.Action
open Asset (along)

/-- What a command says of a defect of the package: when it has a task, that this failed. -/
def complaint (host : Host) (layout : Layout) (mode : Mode) (defect : ManifestDefect) : Text :=
  match taskOf host layout mode with
  | some task => red (task.failed ++ ":".toList) ++ ' ' :: defect.message
  | none => red defect.message

/-- The manifest or the package of a project is no use, and what a command says of it. -/
inductive Defective (host : Host) (layout : Layout) (mode : Mode) (w : Workspace)
    (defect : ManifestDefect) : Text → Prop
  | manifest (h : Project.loadManifest layout.manifest w = .error (.manifest defect) w) :
      Defective host layout mode w defect (red defect.message)
  | package {info : Manifest} (hinfo : Project.loadManifest layout.manifest w = .ok info w)
      (h : Project.configure layout (some info) w = .error (.manifest defect) w) :
      Defective host layout mode w defect (complaint host layout mode defect)

def Tells (line : Text) (defect : ManifestDefect) : Prop :=
  "[red]".toList <+: line ∧ defect.message <:+: line

def Reported (defect : ManifestDefect) (w : Workspace)
    (r : EStateM.Result Failure Workspace Nat) : Prop :=
  ∃ line v, Tells line defect ∧ v.printed = w.printed ++ [line] ∧ r = .ok 1 v

/-- A command has told of a defect and ended with one, and done nothing else. -/
def Refused (defect : ManifestDefect) (w : Workspace)
    (r : EStateM.Result Failure Workspace Nat) : Prop :=
  ∃ line, Tells line defect ∧ r = .ok 1 { w with printed := w.printed ++ [line] }

def Runnable (host : Host) (mode : Mode) : Prop :=
  mode = .watch → ∃ words, ProcessRunner.words? none host.runnerVariable = .ok words

section

variable {host : Host} {mode : Mode} {layout : Layout} {w v : Workspace} {info : Manifest}
  {defect : ManifestDefect} {line : Text} {Legible : Text → Prop}

theorem prefix_red (s : Text) : "[red]".toList <+: red s :=
  (List.prefix_append _ s).trans (List.prefix_append _ _)

theorem tells_red (defect : ManifestDefect) : Tells (red defect.message) defect :=
  ⟨prefix_red _, List.infix_append _ _ _⟩

theorem tells_expected (what : Text) (defect : ManifestDefect) :
    Tells (red what ++ ' ' :: defect.message) defect :=
  ⟨(prefix_red what).trans (List.prefix_append _ _), red what ++ [' '], [], by simp⟩

theorem tells_complaint (host : Host) (layout : Layout) (mode : Mode) (defect : ManifestDefect) :
    Tells (complaint host layout mode defect) defect := by
  cases mode with
  | build => exact tells_expected _ defect
  | declarations => exact tells_expected _ defect
  | watch => exact tells_red defect

theorem refuse_keeps (hprints : host.Prints Legible) (line : Text) (v : Workspace) :
    ((host.refuse line).final v).commands = v.commands ∧
      v.Leads (OnWays (layout.root.location w.current) Layout.outputWays) []
        ((host.refuse line).final v) := by
  by_cases hline : Legible line
  · rw [final_of_ok (hprints.refuse hline v)]
    exact ⟨rfl, .of_tree rfl rfl⟩
  · obtain ⟨complaint, h⟩ := hprints.refuse_illegible hline v
    rw [final_of_error h]
    exact ⟨rfl, .refl _ _⟩

theorem remainder_refuses (host : Host) (mode : Mode)
    (hload : Project.loadManifest layout.manifest v = .ok info v)
    (h : Project.configure layout (some info) v = .error (.manifest defect) v) :
    (Runnable host mode ∧ remainder host layout mode info v =
        host.refuse (complaint host layout mode defect) v) ∨
      ¬ Runnable host mode ∧ ∃ e, remainder host layout mode info v = .error e v := by
  have hcarry (task : Task) : task.carry host layout info v = .error (.manifest defect) v :=
    bind_of_error h
  cases mode with
  | build => exact .inl ⟨nofun, bind_of_ok (attempt_of_error (hcarry _))⟩
  | declarations => exact .inl ⟨nofun, bind_of_ok (attempt_of_error (hcarry _))⟩
  | watch =>
    cases hwords : ProcessRunner.words? none host.runnerVariable with
    | error unfinished =>
      refine .inr ⟨fun hrun => ?_, .command unfinished,
        bind_of_error (toolchainOf_error hwords v)⟩
      obtain ⟨words, hread⟩ := hrun rfl
      cases hwords.symm.trans hread
    | ok words =>
      refine .inl ⟨fun _ => ⟨words, hwords⟩, ?_⟩
      have hread : Project.load layout v = .error (.manifest defect) v := by
        rw [Project.load, bind_of_ok hload, bind_of_error h]
      have hcreate (toolchain : Toolchain) :
          Watch.Responder.create (stepsOf host layout toolchain) layout v =
            .error (.manifest defect) v := bind_of_error (bind_of_error hread)
      exact (bind_of_ok (toolchainOf_ok hwords v)).trans
        (bind_of_ok (attempt_of_error (hcreate _)))

theorem manifest_refused (host : Host) (mode : Mode)
    (h : Project.loadManifest layout.manifest w = .error (.manifest defect) w) :
    perform host mode layout w = host.refuse (red defect.message) w := by
  rw [perform_eq, opened, bind_of_ok (attempt_of_error h)]
  rfl

theorem package_again (hs : w.Stands layout.root) (hprepares : layout.Prepares w v)
    (hinfo : Project.loadManifest layout.manifest w = .ok info w)
    (h : Project.configure layout (some info) w = .error (.manifest defect) w) :
    Project.loadManifest layout.manifest v = .ok info v ∧
      Project.configure layout (some info) v = .error (.manifest defect) v := by
  obtain ⟨s, hread⟩ := Project.text_of_loadManifest hinfo
  have hsame : v.readText layout.manifest = w.readText layout.manifest := by
    rw [hread]
    exact Workspace.readText_kept hprepares.leads.current hprepares.leads.kept
      (hprepares.leads.file_untouched (by simp)) hread
  exact ⟨((Project.loadManifest_alike hsame).symm.of_ok hinfo).2,
    ((Project.configure_alike (Layout.settings_leads hs hprepares.leads)).symm.of_error h).2⟩

theorem prepare_same (hs : w.Stands layout.root) (h : layout.prepare w = .ok () v) :
    v = w ↔ ∀ way ∈ Layout.outputWays, w.Stands (along layout.root way) := by
  rw [Layout.prepare_eq] at h
  constructor
  · rintro rfl
    exact makeAll_stands hs h
  · intro hstand
    cases h.symm.trans (makeAll_standing hstand)
    rfl

theorem package_refused (host : Host) (mode : Mode)
    (hinfo : Project.loadManifest layout.manifest w = .ok info w)
    (h : Project.configure layout (some info) w = .error (.manifest defect) w) :
    ∃ v, layout.Prepares w v ∧
      (((∀ way ∈ Layout.outputWays, w.Makeable layout.root way) ∧ Runnable host mode ∧
          (v = w ↔ ∀ way ∈ Layout.outputWays, w.Stands (along layout.root way)) ∧
          perform host mode layout w = host.refuse (complaint host layout mode defect) v) ∨
        ¬ ((∀ way ∈ Layout.outputWays, w.Makeable layout.root way) ∧ Runnable host mode) ∧
          ∃ e, perform host mode layout w = .error e v) := by
  rw [perform_eq]
  rcases opened_cases host layout (remainder host layout mode) w with
    ⟨_, hload, -, -⟩ | ⟨hunready, e, v, hprepares, hopened⟩ |
    ⟨info', v, hinfo', hs, hready, hprepare, hprepares, hopened⟩
  · cases hload.symm.trans hinfo
  · exact ⟨v, hprepares, .inr ⟨fun h => (unready_iff hinfo).mp hunready h.1, e, hopened⟩⟩
  · cases hinfo.symm.trans hinfo'
    have hmake : ∀ way ∈ Layout.outputWays, w.Makeable layout.root way :=
      by_contra fun hno => hready ((unready_iff hinfo).mpr hno)
    obtain ⟨hload, hconfig⟩ := package_again hs hprepares hinfo h
    refine ⟨v, hprepares, ?_⟩
    rw [hopened]
    rcases remainder_refuses host mode hload hconfig with ⟨hrun, hline⟩ | ⟨hno, hfail⟩
    · exact .inl ⟨hmake, hrun, prepare_same hs hprepare, hline⟩
    · exact .inr ⟨fun h => hno h.2, hfail⟩

theorem not_reported {e : Failure} {r : EStateM.Result Failure Workspace Nat}
    (h : r = .error e v) : ¬ Reported defect w r := by
  rintro ⟨_, _, -, -, hr⟩
  cases h.symm.trans hr

theorem Refused.reported {r : EStateM.Result Failure Workspace Nat} (h : Refused defect w r) :
    Reported defect w r := by
  obtain ⟨line, htells, hr⟩ := h
  exact ⟨line, _, htells, rfl, hr⟩

theorem refuse_reported (hprints : host.Prints Legible) (htells : Tells line defect)
    (hv : v = { w with tree := v.tree }) :
    Reported defect w (host.refuse line v) ↔ Legible line := by
  constructor
  · intro h
    by_contra hno
    obtain ⟨complaint, hr⟩ := hprints.refuse_illegible hno v
    exact not_reported hr h
  · intro hline
    exact ⟨line, _, htells, by rw [hv], hprints.refuse hline v⟩

theorem refuse_refused (hprints : host.Prints Legible) (htells : Tells line defect)
    (hv : v = { w with tree := v.tree }) :
    Refused defect w (host.refuse line v) ↔ Legible line ∧ v = w := by
  constructor
  · intro h
    have hline := (refuse_reported hprints htells hv).mp h.reported
    obtain ⟨_, -, hr⟩ := h
    rw [hprints.refuse hline] at hr
    have htree : v.tree = w.tree := (Workspace.mk.inj (EStateM.Result.ok.inj hr).2).1
    rw [htree] at hv
    exact ⟨hline, hv⟩
  · rintro ⟨hline, rfl⟩
    exact ⟨line, htells, hprints.refuse hline v⟩

/-- A project with a defect is never handed to the toolchain, and nothing of it
differs but directories of the output that are new. The defect is reported unless
its message cannot be shown, or the package has it and, before that is read, a
directory of the output cannot be made or, to follow the project, its runner cannot be
read. The project is then as it was unless the package has the defect and a directory
of the output was missing. -/
theorem perform_refuses (host : Host) (hprints : host.Prints Legible) (mode : Mode)
    (layout : Layout) (w : Workspace) (h : Defective host layout mode w defect line) :
    (Reported defect w (perform host mode layout w) ↔ Legible line ∧
        (Project.loadManifest layout.manifest w = .error (.manifest defect) w ∨
          (∀ way ∈ Layout.outputWays, w.Makeable layout.root way) ∧ Runnable host mode)) ∧
      (Refused defect w (perform host mode layout w) ↔ Legible line ∧
        (Project.loadManifest layout.manifest w = .error (.manifest defect) w ∨
          (∀ way ∈ Layout.outputWays, w.Stands (along layout.root way)) ∧ Runnable host mode)) ∧
      ((perform host mode layout).final w).commands = w.commands ∧
      w.Leads (OnWays (layout.root.location w.current) Layout.outputWays) []
        ((perform host mode layout).final w) := by
  have hfinal {line : Text} {v : Workspace}
      (hr : perform host mode layout w = host.refuse line v) :
      (perform host mode layout).final w = (host.refuse line).final v := by
    rw [final, final, hr]
  rcases h with hload | ⟨hinfo, hconfig⟩
  · have hr := manifest_refused host mode hload
    rw [hfinal hr, hr, refuse_reported hprints (tells_red defect) rfl,
      refuse_refused hprints (tells_red defect) rfl]
    refine ⟨(and_iff_left (.inl hload)).symm, ?_, refuse_keeps hprints _ w⟩
    rw [and_iff_left rfl, and_iff_left (.inl hload)]
  · have hno : ¬ Project.loadManifest layout.manifest w = .error (.manifest defect) w := by
      intro hload
      cases hinfo.symm.trans hload
    rw [or_iff_right hno, or_iff_right hno]
    have htells := tells_complaint host layout mode defect
    obtain ⟨v, ⟨hleads, htree⟩, ⟨hmake, hrun, hsame, hr⟩ | ⟨hnot, e, hr⟩⟩ :=
      package_refused host mode hinfo hconfig
    · rw [hfinal hr, hr, refuse_reported hprints htells htree, refuse_refused hprints htells htree]
      obtain ⟨hcommands, hkept⟩ := refuse_keeps hprints (complaint host layout mode defect) v
      refine ⟨(and_iff_left ⟨hmake, hrun⟩).symm, ?_, hcommands.trans (by rw [htree]),
        hleads.trans hkept⟩
      rw [hsame, and_iff_left hrun]
    · have hnever : ¬ Reported defect w _ := not_reported hr
      refine ⟨iff_of_false hnever fun h => hnot h.2,
        iff_of_false (fun h => hnever h.reported) ?_, ?_⟩
      · rintro ⟨-, hstand, hrun⟩
        exact hnot ⟨fun way hway => makeable_of_stands (hstand way hway), hrun⟩
      · rw [final_of_error hr]
        exact ⟨by rw [htree], hleads⟩

end

/-! A project whose package is no JSON. -/

def samplePackaged : Workspace where
  tree := (Except.toOption do
    let t ← Tree.empty.writeFile [Layout.manifestName]
      (Text.encode "name=Note\nid=note\nposter=p\ndescription=d\n".toList)
    t.writeFile [Layout.packageName] (Text.encode "\x7b not json".toList)).getD .empty

def sampleDefect : ManifestDefect :=
  .malformedPackage "package.json".toList
    "Expecting property name enclosed in double quotes: line 1 column 3 (char 2)".toList

theorem sample_defective (host : Host) (mode : Mode) : Defective host sampleHere mode
    samplePackaged sampleDefect (complaint host sampleHere mode sampleDefect) := by
  have hload : ((attempt (Project.loadManifest sampleHere.manifest)).result? samplePackaged).map
      Prod.fst = some (.ok ⟨"note".toList, "Note".toList, "p".toList, "d".toList, []⟩) := by
    decide +kernel
  have hconfigure : ((attempt (Project.configure sampleHere
      (some ⟨"note".toList, "Note".toList, "p".toList, "d".toList, []⟩))).result?
        samplePackaged).map Prod.fst = some (.error (.manifest sampleDefect)) := by
    decide +kernel
  exact .package ((Project.loadManifest_alike rfl).answers hload)
    ((Project.configure_alike fun _ _ => rfl).answers hconfigure)

theorem sample_refuses :
    (sampleStrict.Prints fun line => Text.occurs "[/x]".toList line = false) ∧
      Defective sampleStrict sampleHere .build samplePackaged sampleDefect
        (complaint sampleStrict sampleHere .build sampleDefect) ∧
      Reported sampleDefect samplePackaged (perform sampleStrict .build sampleHere samplePackaged) ∧
      ¬ Refused sampleDefect samplePackaged
        (perform sampleStrict .build sampleHere samplePackaged) ∧
      ((perform sampleStrict .build sampleHere).final samplePackaged).commands = [] := by
  obtain ⟨hreported, hrefused, hcommands, -⟩ := perform_refuses sampleStrict sampleStrict_prints
    .build sampleHere samplePackaged (sample_defective sampleStrict .build)
  have hloaded : (Project.loadManifest sampleHere.manifest).result? samplePackaged ≠ none := by
    decide +kernel
  have hmake : ∀ way ∈ Layout.outputWays, samplePackaged.Makeable sampleHere.root way := by
    have hprepared : (sampleHere.prepare.result? samplePackaged).isSome = true := by
      decide +kernel
    obtain ⟨⟨_, v⟩, hv⟩ := Option.isSome_iff_exists.mp hprepared
    rw [result_eq_some, Layout.prepare_eq] at hv
    exact (makeAll_iff (by decide +kernel) _).mp ⟨v, hv⟩
  refine ⟨sampleStrict_prints, sample_defective _ _,
    hreported.mpr ⟨by decide +kernel, .inr ⟨hmake, nofun⟩⟩, fun h => ?_, hcommands⟩
  rcases (hrefused.mp h).2 with hload | ⟨hstand, -⟩
  · exact hloaded (by rw [result?, hload])
  · exact absurd (hstand [Layout.distName] (by decide)) (by decide +kernel)

theorem sample_refused_late :
    Defective sampleHost sampleHere .build samplePackaged sampleDefect
        (complaint sampleHost sampleHere .build sampleDefect) ∧
      samplePackaged.tree.get? [Layout.distName] = none ∧
      ∀ mode, ((perform sampleHost mode sampleHere).final samplePackaged).tree.get?
        [Layout.distName] = some .directory :=
  ⟨sample_defective _ _, by decide +kernel, fun mode => by cases mode <;> decide +kernel⟩

end ModBuild.CommandLine
