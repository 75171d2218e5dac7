import ModBuild.Proofs.Build.Placeholders
import ModBuild.Proofs.Build.Preparing
import ModBuild.Proofs.Workspace.Failing
import ModBuild.Toolchain.Process

/-!
# How builds fail

The file system may hinder a build at any step. Where nothing of that kind does,
a build fails for what it was given: a copied module or an emitted file that is no
text, a version that cannot be read, an owner that cannot be written, a name that
makes no path, or what the transpiler or the clock came to.
-/

set_option autoImplicit false

namespace ModBuild

def ProcessOutcome.Garbled (o : ProcessOutcome) : Prop :=
  Text.decode? o.stdout = none ∨ Text.decode? o.stderr = none

namespace ProcessRunner

open ModBuild.Action

def command (r : ProcessRunner) (tool : Text) (arguments : List Text) : Command :=
  ⟨r.words ++ tool :: arguments, r.directory.map Path.print⟩

def transpiling (r : ProcessRunner) (config : Path) : Command :=
  r.command "tstl".toList ["-p".toList, config.print, "--outDir".toList, r.scratch]

theorem runTool_ok {r : ProcessRunner} {tool : Text} {arguments : List Text}
    {outcome : ProcessOutcome} {w w' : Workspace}
    (h : r.runTool tool arguments w = .ok outcome w') : ∃ v u,
      r.run (r.command tool arguments) v = .ok outcome u ∧ w'.tree = u.tree ∧
        w'.current = u.current := by
  obtain ⟨_, v, -, h⟩ := bind_eq_ok.mp h
  obtain ⟨result, u, hrun, h⟩ := bind_eq_ok.mp h
  obtain ⟨_, u', hrecord, h⟩ := bind_eq_ok.mp h
  cases hrecord
  obtain ⟨_, _, hout, h⟩ := bind_eq_ok.mp h
  obtain ⟨_, _, herr, h⟩ := bind_eq_ok.mp h
  obtain ⟨-, rfl⟩ := ask_eq_ok.mp hout
  obtain ⟨-, rfl⟩ := ask_eq_ok.mp herr
  split at h
  · obtain ⟨rfl, rfl⟩ := pure_eq_ok.mp h
    exact ⟨v, u, hrun, rfl, rfl⟩
  · exact absurd h throw_ne_ok

theorem readOutput_error {b : ByteArray} {e : Failure} (h : readOutput b = .error e) :
    e = .notText ∧ Text.decode? b = none := by
  unfold readOutput at h
  split at h
  · cases h
  · next hb =>
    cases h
    exact ⟨rfl, hb⟩

theorem runTool_safe (r : ProcessRunner) (tool : Text) (arguments : List Text)
    {C : Failure → Prop}
    (hprocess : ∀ v e v', r.run (r.command tool arguments) v = .error e v' → C e)
    (houtput : ∀ v outcome v', r.run (r.command tool arguments) v = .ok outcome v' →
      outcome.Garbled → C .notText) :
    SafeAnywhere C (r.runTool tool arguments) := by
  refine safe_seq (log_safe _ _ _) fun _ => ?_
  refine safe_bind (Q := fun outcome => outcome.Garbled → C .notText)
    (safe_of (fun v _ outcome v' h => ⟨trivial, houtput v outcome v' h⟩) fun v _ e v' h =>
      .inr (hprocess v e v' h)) fun outcome hgarbled => ?_
  have hread (b : ByteArray) (hb : Text.decode? b = none → outcome.Garbled) :
      SafeAnywhere C (Action.ofExcept (readOutput b)) := by
    refine safe_ask (fun _ _ _ _ => trivial) fun _ _ e h => ?_
    obtain ⟨rfl, hnone⟩ := readOutput_error h
    exact .inr (hgarbled (hb hnone))
  refine safe_seq (fun _ _ => ⟨trivial, trivial⟩) fun _ => ?_
  refine safe_seq (hread _ .inl) fun _ => safe_seq (hread _ .inr) fun _ => ?_
  split
  · exact safe_pure trivial
  · exact safe_throw (.inl rfl)

def files (es : Entries) : List (Location × ByteArray) :=
  es.filterMap fun x => (Entry.bytes? (some x.2)).map (x.1, ·)

def emission? (x : Location × ByteArray) : Option Emission :=
  (Text.decode? x.2).map fun s => ⟨emittedPath x.1, Text.unifyBreaks s,
    Text.endsWith Emission.declarationExtension (emittedPath x.1)⟩

theorem mem_files_iff (es : Entries) (way : Location) (b : ByteArray) :
    (way, b) ∈ files es ↔ (way, .file b) ∈ es := by
  rw [files, List.mem_filterMap]
  constructor
  · rintro ⟨⟨way', e⟩, hmem, he⟩
    obtain ⟨b', hb', heq⟩ := Option.map_eq_some_iff.mp he
    cases heq
    cases e with
    | directory => cases hb'
    | file => cases hb'; exact hmem
  · exact fun h => ⟨(way, .file b), h, rfl⟩

theorem emissions_cases (es : Entries) :
    ((∀ x ∈ files es, Text.decode? x.2 ≠ none) ∧
      emissions es = ⟨(files es).filterMap emission?, none⟩) ∨
    ∃ front x back, files es = front ++ x :: back ∧
      (∀ y ∈ front, Text.decode? y.2 ≠ none) ∧ Text.decode? x.2 = none ∧
      emissions es = ⟨front.filterMap emission?, some .notText⟩ := by
  induction es with
  | nil => exact .inl ⟨by simp [files], rfl⟩
  | cons entry es ih =>
    obtain ⟨way, entry⟩ := entry
    cases entry with
    | directory => exact ih
    | file b =>
      have hfiles : files ((way, .file b) :: es) = (way, b) :: files es := rfl
      cases hb : Text.decode? b with
      | none =>
        exact .inr ⟨[], (way, b), files es, hfiles, by simp, hb, by simp [emissions, hb]⟩
      | some s =>
        have hkept : Text.decode? b ≠ none := by simp [hb]
        rcases ih with ⟨hall, hes⟩ | ⟨front, x, back, hsplit, hfront, hx, hes⟩
        · refine .inl ⟨?_, ?_⟩
          · rw [hfiles]
            exact List.forall_mem_cons.mpr ⟨hkept, hall⟩
          · simp [emissions, hb, hes, hfiles, emission?]
        · refine .inr ⟨(way, b) :: front, x, back, by rw [hfiles, hsplit]; rfl, ?_, hx, ?_⟩
          · exact List.forall_mem_cons.mpr ⟨hkept, hfront⟩
          · simp [emissions, hb, hes, emission?]

theorem mem_emissions {es : Entries} {e : Emission} (h : e ∈ (emissions es).emissions) :
    ∃ way b, (way, .file b) ∈ es ∧ e.path = emittedPath way := by
  have hfile : ∃ x ∈ files es, emission? x = some e := by
    rcases emissions_cases es with ⟨-, hes⟩ | ⟨front, x, back, hsplit, -, -, hes⟩
    · rw [hes] at h
      exact List.mem_filterMap.mp h
    · rw [hes] at h
      obtain ⟨y, hy, he⟩ := List.mem_filterMap.mp h
      exact ⟨y, by simp [hsplit, hy], he⟩
  obtain ⟨⟨way, b⟩, hmem, he⟩ := hfile
  obtain ⟨s, -, rfl⟩ := Option.map_eq_some_iff.mp he
  exact ⟨way, b, (mem_files_iff es way b).mp hmem, rfl⟩

theorem emissions_failed {es : Entries} {f : Failure} (h : (emissions es).failure = some f) :
    f = .notText ∧ ∃ way b, (way, .file b) ∈ es ∧ Text.decode? b = none := by
  rcases emissions_cases es with ⟨-, hes⟩ | ⟨front, ⟨way, b⟩, back, hsplit, -, hb, hes⟩
  · rw [hes] at h
    cases h
  · rw [hes] at h
    cases h
    exact ⟨rfl, way, b, (mem_files_iff es way b).mp (by simp [hsplit]), hb⟩

end ProcessRunner

namespace Build

open ModBuild.Action
open Asset (along)

inductive Copies (layout : Layout) (w : Workspace) : Path → Path → Prop
  | asset {s : Scope} {way : Location} (hs : s ∈ Scope.directories)
      (hway : way ∈ assetWays layout w s) :
      Copies layout w (along (layout.sourceDirectory s) way)
        (along (layout.outputDirectory s) way)
  | library {library : Text} {source : Path} (hl : library ∈ Library.names)
      (h : Library.source? layout w library = some source) :
      Copies layout w source (layout.outputDirectory .shared / Library.fileName library)
  | runtime : Copies layout w (runtimeSource layout)
      (layout.outputDirectory .shared / Emission.runtimeFile)

/-- Why a copy fails that the file system does not hinder: its source takes banners
and holds no text, or one of its paths has a null character in it. -/
inductive Uncopied (w : Workspace) (source destination : Path) : Failure → Prop
  | garbled (banner : Banner.applies destination = true) (h : w.Garbled source) :
      Uncopied w source destination .notText
  | cut {e : Failure} (h : source.Cut e ∨ destination.Cut e) : Uncopied w source destination e

inductive Cause (layout : Layout) (config : Config) (clock : Clock) (runner : ProcessRunner)
    (w : Workspace) : Failure → Prop
  | copy {source destination : Path} {e : Failure} (copies : Copies layout w source destination)
      (h : Uncopied w source destination e) : Cause layout config clock runner w e
  | version {library : Text} {refusal : Version.Refusal} (hl : library ∈ Library.names)
      (h : Version.latest? (Library.versions
        (w.tree.below ((layout.typings / library).location w.current)) library) =
          .error refusal) : Cause layout config clock runner w (.version refusal)
  | owner (h : Banner.Tokens.ofConfig? config clock.year = none) :
      Cause layout config clock runner w .notEncodable
  | process {v v' : Workspace} {e : Failure}
      (h : runner.run (runner.transpiling layout.tsconfig) v = .error e v') :
      Cause layout config clock runner w e
  | output {v v' : Workspace} {outcome : ProcessOutcome}
      (h : runner.run (runner.transpiling layout.tsconfig) v = .ok outcome v')
      (garbled : outcome.Garbled) : Cause layout config clock runner w .notText
  | emitted {v v' : Workspace} {outcome : ProcessOutcome} {way : Location} {b : ByteArray}
      (h : runner.run (runner.transpiling layout.tsconfig) v = .ok outcome v')
      (file : (way, .file b) ∈ outcome.scratch.entries) (garbled : Text.decode? b = none) :
      Cause layout config clock runner w .notText
  | module {v v' : Workspace} {outcome : ProcessOutcome} {way : Location} {b : ByteArray}
      {e : Failure} (h : runner.run (runner.transpiling layout.tsconfig) v = .ok outcome v')
      (file : (way, .file b) ∈ outcome.scratch.entries)
      (cut : (layout.output / Emission.outputPath (ProcessRunner.emittedPath way)).Cut e) :
      Cause layout config clock runner w e
  | clock {e : ClockError} (h : clock.measure = .error e) :
      Cause layout config clock runner w (.clock e)

def Onward (layout : Layout) (w v : Workspace) : Prop := ∃ c, Laid layout w c v

section

variable {layout : Layout} {config : Config} {clock : Clock} {runner : ProcessRunner}
  {w v : Workspace} {C : Failure → Prop}

theorem Onward.step (h : Onward layout w v) {v' : Workspace} {c : Changes}
    (hlaid : Laid layout v c v') : Onward layout w v' := by
  obtain ⟨before, hbefore⟩ := h
  exact ⟨before ++ c, hbefore.trans hlaid⟩

theorem Onward.stands (h : Onward layout w v) (hs : w.Stands layout.root) :
    v.Stands layout.root := by
  obtain ⟨c, hlaid⟩ := h
  exact hlaid.stands hs

theorem Onward.spares (h : Onward layout w v) : layout.Spares w v := by
  obtain ⟨c, hlaid⟩ := h
  exact hlaid.spares

theorem safe_onward {α : Type} {a : Action α} (hs : w.Stands layout.root)
    (hlaid : ∀ v x v', v.Stands layout.root → a v = .ok x v' → ∃ c, Laid layout v c v')
    (hsafe : SafeAnywhere C a) : Safe (Onward layout w) C a :=
  safe_of (fun v hv x v' ha =>
    have ⟨_, hc⟩ := hlaid v x v' (hv.stands hs) ha
    ⟨hv.step hc, trivial⟩) fun _ _ _ _ ha => hsafe.error trivial ha

theorem Garbled.before {p : Path} (h : v.Garbled p) (hv : Onward layout w v)
    (hp : ¬ layout.Inside w.current (p.location w.current)) : w.Garbled p := by
  obtain ⟨b, hb, hdecode⟩ := h
  rw [hv.spares.current, hv.spares.file _ hp] at hb
  exact ⟨b, hb, hdecode⟩

theorem copy_safe (hs : w.Stands layout.root) {source : Path} {way : Location}
    (hsource : ¬ layout.Inside w.current (source.location w.current))
    (hcopies : Copies layout w source (along layout.output way)) :
    Safe (Onward layout w) (Cause layout config clock runner w)
      (Asset.copy source (along layout.output way) config clock.year) := by
  unfold Asset.copy
  refine safe_seq (safe_onward hs (fun v _ v' _ h => ⟨_, log_laid layout h⟩)
    (log_safe _ _ _)) fun _ => ?_
  refine safe_seq (safe_onward hs (fun v _ v' hv h => ⟨_, makeParent_laid hv way h⟩)
    ((makeDirectories_safe _).mono fun e he => .copy hcopies (.cut (.inr he.of_parent))))
    fun _ => ?_
  split
  · next banner =>
    refine safe_seq (safe_ask (fun _ _ _ _ => trivial) fun v hv e h => ?_) fun s => ?_
    · rcases Workspace.readText_error h with he | hcut | ⟨rfl, hgarbled⟩
      · exact .inl (Failure.expected_of_fault he)
      · exact .inr (.copy hcopies (.cut (.inl hcut)))
      · exact .inr (.copy hcopies (.garbled banner (Garbled.before hgarbled hv hsource)))
    · refine safe_onward hs (fun v _ v' _ h => ⟨_, (writeText_laid h).2⟩)
        (writeText_safe _ _ (fun e he => .copy hcopies (.cut (.inr he))) fun hnone => ?_)
      exact .owner (Option.map_eq_none_iff.mp hnone)
  · refine safe_seq (safe_ask (fun _ _ _ _ => trivial) fun v hv e h => ?_) fun b => ?_
    · exact (Workspace.readBytes_error h).imp Failure.expected_of_fault fun hcut =>
        .copy hcopies (.cut (.inl hcut))
    · exact safe_onward hs (fun v _ v' _ h => ⟨_, writeBytes_laid h⟩)
        ((writeBytes_safe _ b).mono fun e he => .copy hcopies (.cut (.inr he)))

theorem not_cut_along (hs : w.Stands layout.root) {way : Location}
    (hway : ∀ n ∈ way, '\x00' ∉ n.text) {e : Failure} : ¬ (along layout.root way).Cut e := by
  rintro ⟨hnull⟩
  exact Asset.null_along (Workspace.resolve_ok hs.resolve).1 hway hnull

theorem prepare_safe (hs : w.Stands layout.root) : SafeAnywhere C layout.prepare := by
  have hnames : ∀ way ∈ Layout.outputWays, ∀ n ∈ way, '\x00' ∉ n.text := by decide
  rw [Layout.prepare_eq]
  exact safe_forM fun way hway => (makeDirectories_safe _).mono fun e he =>
    absurd he (not_cut_along hs (hnames way hway))

theorem copyTree_safe (hs : w.Stands layout.root) {s : Scope} (hscope : s ∈ Scope.directories) :
    Safe (Onward layout w) (Cause layout config clock runner w)
      (Asset.copyTree (layout.sourceDirectory s) (layout.outputDirectory s) config clock.year) := by
  refine safe_bind (Q := fun ways =>
    (ways.filter fun way => !way.any Asset.transpiled) = assetWays layout w s)
    (safe_ask (fun v hv ways h => ?_) fun v _ e h => .inl (Workspace.filesBelow_error h))
    fun ways hways => ?_
  · rw [assetWays_found (hv.stands hs) h, assetWays_eq hv.spares]
  · rw [hways]
    refine safe_seq (safe_forM fun way hway => ?_) fun _ => safe_pure trivial
    have hcopies := Copies.asset hscope hway
    rw [Layout.outputDirectory_eq, Asset.along_along] at hcopies ⊢
    exact copy_safe hs (source_outside layout _ s way) hcopies

theorem latest_safe (hs : w.Stands layout.root) {library : Text} (hl : library ∈ Library.names) :
    Safe (Onward layout w) (Cause layout config clock runner w)
      (Library.latest? layout.typings library) fun r => r = Library.source? layout w library := by
  refine safe_bind (Q := fun listing =>
    listing = w.tree.below ((layout.typings / library).location w.current))
    (safe_ask (fun v hv listing h => ?_) fun v _ e h => .inl (Workspace.below_error h))
    fun listing hlisting => ?_
  · rw [listing_found (hv.stands hs) hl h, listing_kept hv.spares hl]
  · rw [hlisting]
    split
    · next refusal h => exact safe_throw (.inr (.version hl h))
    · next version h =>
      refine safe_pure ?_
      rw [Library.source?, h]

theorem copyLatest_safe (hs : w.Stands layout.root) {library : Text}
    (hl : library ∈ Library.names) :
    Safe (Onward layout w) (Cause layout config clock runner w)
      (Library.copyLatest layout config clock.year library) := by
  refine safe_bind (latest_safe hs hl) fun r hr => ?_
  obtain ⟨-, f, hf⟩ := Library.names_valid hl
  split
  · exact safe_seq (safe_onward hs (fun v _ v' _ h => ⟨_, log_laid layout h⟩)
      (log_safe _ _ _)) fun _ => safe_pure trivial
  · have hcopies := Copies.library hl hr.symm
    rw [← hf, shared_along] at hcopies ⊢
    exact safe_seq (copy_safe hs (typings_outside hl hr.symm _) hcopies) fun _ => safe_pure trivial

theorem copyRuntime_safe (hs : w.Stands layout.root) :
    Safe (Onward layout w) (Cause layout config clock runner w)
      (Library.copyRuntime layout config clock.year) := by
  refine safe_seq (safe_ask (fun _ _ _ _ => trivial) fun v _ e h =>
    .inl (Workspace.isFile_error h)) fun b => ?_
  cases b with
  | false => exact safe_pure trivial
  | true =>
    have hcopies : Copies layout w (runtimeSource layout) _ := .runtime
    have hdest := shared_along layout ⟨Emission.runtimeFile, by decide⟩
    change layout.outputDirectory .shared / Emission.runtimeFile = _ at hdest
    rw [hdest] at hcopies
    refine safe_seq ?_ fun _ => safe_pure trivial
    rw [hdest]
    exact copy_safe hs (runtime_outside layout _) hcopies

theorem lay_safe (hs : w.Stands layout.root) :
    Safe (Onward layout w) (Cause layout config clock runner w)
      (lay layout config clock.year) := by
  refine safe_seq (safe_onward hs (fun v _ v' hv h => ⟨_, prepare_laid hv h⟩) (prepare_safe hs))
    fun _ => ?_
  refine safe_seq (safe_forM fun s hscope => safe_seq (copyTree_safe hs hscope) fun _ =>
    safe_pure trivial) fun _ => ?_
  refine safe_seq (safe_seq (safe_mapM fun library hl => copyLatest_safe hs hl) fun _ =>
    safe_seq (copyRuntime_safe hs) fun _ => safe_pure trivial) fun _ => safe_pure trivial

theorem process_safe (path text : Text) {year : Nat} :
    Safe (fun _ => True) C (process path text config year)
      fun p => p = Emission.process path text config year :=
  safe_seq (safe_forM fun _ _ => log_safe _ _ _) fun _ =>
    safe_seq (safe_forM fun _ _ => log_safe _ _ _) fun _ => safe_pure rfl

theorem process_text (path text : Text) {year : Nat}
    (h : (Emission.process path text config year).text = none) :
    Banner.Tokens.ofConfig? config year = none := by
  rw [Emission.process] at h
  split at h
  · cases h
  · exact Option.map_eq_none_iff.mp h

theorem write_safe {year : Nat} {e : Emission}
    (hcut : ∀ f, (layout.output / Emission.outputPath e.path).Cut f → C f)
    (howner : Banner.Tokens.ofConfig? config year = none → C .notEncodable) (run : Run) :
    SafeAnywhere C (write layout config year run e) := by
  unfold write
  split
  · exact safe_pure trivial
  · next path hpath =>
    obtain rfl := Emission.module_eq hpath
    refine safe_seq ((makeDirectories_safe _).mono fun f hf => hcut f hf.of_parent) fun _ => ?_
    refine safe_bind (process_safe _ _) fun p hp => ?_
    refine safe_seq (writeText_safe _ _ hcut fun hnone => howner ?_) fun _ => safe_pure trivial
    rw [hp] at hnone
    exact process_text _ _ hnone

theorem transpile_safe :
    SafeAnywhere (Cause layout config clock runner w)
      (transpile layout config clock.year runner.toolchain) := by
  refine safe_bind (Q := fun t : Transpilation => ∃ v outcome v',
      runner.run (runner.transpiling layout.tsconfig) v = .ok outcome v' ∧
        t = ProcessRunner.emissions outcome.scratch.entries) (safe_of (fun w _ t w' h => ?_) ?_)
    fun t ht => ?_
  · obtain ⟨outcome, _, htool, h⟩ := bind_eq_ok.mp h
    obtain ⟨rfl, -⟩ := pure_eq_ok.mp h
    obtain ⟨v, u, hrun, -⟩ := ProcessRunner.runTool_ok htool
    exact ⟨trivial, v, outcome, u, hrun, rfl⟩
  · have htool : SafeAnywhere (Cause layout config clock runner w)
        (runner.toolchain.transpile layout.tsconfig) :=
      safe_seq (runner.runTool_safe _ _ (fun v e v' h => .process h)
        fun v outcome v' h => .output h) fun _ => safe_pure trivial
    exact fun v _ e v' h => htool.error trivial h
  · obtain ⟨v, outcome, v', hrun, rfl⟩ := ht
    refine safe_seq (safe_foldlM (fun e he run => ?_) _) fun _ => ?_
    · obtain ⟨way, b, hfile, hpath⟩ := ProcessRunner.mem_emissions he
      refine write_safe (fun f hf => ?_) .owner run
      rw [hpath] at hf
      exact .module hrun hfile hf
    · split
      · next f hf =>
        obtain ⟨rfl, way, b, hfile, hgarbled⟩ := ProcessRunner.emissions_failed hf
        exact safe_throw (.inr (.emitted hrun hfile hgarbled))
      · exact safe_pure trivial

theorem placeholder_not_cut (hs : w.Stands layout.root) (s : Scope) {e : Failure} :
    ¬ (placeholder layout s).Cut e := by
  rw [placeholder_root]
  exact not_cut_along hs (by cases s <;> decide)

theorem hold_safe (hs : w.Stands layout.root) (s : Scope) : SafeAnywhere C (hold layout s) := by
  have hcut {e : Failure} : ¬ (placeholder layout s).Cut e := placeholder_not_cut hs s
  refine safe_seq (safe_ask (fun _ _ _ _ => trivial) fun v _ e h =>
    .inl (Workspace.occupied_error h)) fun b => ?_
  split
  · exact safe_pure trivial
  · refine safe_seq ((makeDirectories_safe _).mono fun e he => absurd he.of_parent hcut)
      fun _ => ?_
    exact safe_seq ((writeBytes_safe _ _).mono fun e he => absurd he hcut) fun _ =>
      safe_pure trivial

theorem holdAll_safe (hs : w.Stands layout.root) (scopes : List Scope) :
    Safe (fun _ => True) C (holdAll layout scopes) fun r =>
      ∀ e, r.2 = .error e → e.expected = true ∨ C e := by
  induction scopes with
  | nil => exact safe_pure (by simp)
  | cons s scopes ih =>
    rw [holdAll]
    refine safe_bind (safe_attempt (hold_safe (C := C) hs s)) fun r hr => ?_
    cases r with
    | error e =>
      refine safe_pure fun e' he => ?_
      cases he
      exact hr e rfl
    | ok new => exact safe_bind ih fun _ hheld => safe_pure hheld

theorem withPlaceholders_safe {α : Type} (hs : w.Stands layout.root) {action : Action α}
    (h : SafeAnywhere C action) (scopes : List Scope) :
    SafeAnywhere C (withPlaceholders layout action scopes) := by
  refine safe_bind (holdAll_safe hs scopes) fun r hheld => andThen_safe ?_ (safe_forM fun s _ => ?_)
  · exact safe_seq (safe_ask (fun _ _ _ _ => trivial) fun _ _ e he => hheld e he) fun _ => h
  · exact (removeFileIfAny_safe _).mono fun e he => absurd he (placeholder_not_cut hs s)

theorem measure_safe (h : ∀ e, clock.measure = .error e → C (.clock e)) :
    SafeAnywhere C (Action.ofExcept (clock.measure.mapError .clock)) := by
  refine safe_ask (fun _ _ _ _ => trivial) fun _ _ e he => ?_
  cases hc : clock.measure with
  | ok elapsed => rw [hc] at he; cases he
  | error f =>
    rw [hc] at he
    cases he
    exact .inr (h f hc)

theorem run_failed (hs : w.Stands layout.root) (hv : Onward layout w v) {e : Failure}
    {v' : Workspace} (h : run layout config clock runner.toolchain v = .error e v') :
    e.expected = true ∨ Cause layout config clock runner w e := by
  rcases bind_error h with h | ⟨_, v₁, hlog, h⟩
  · exact (log_safe _ _ _).error trivial h
  rcases bind_error h with h | ⟨_, v₂, -, h⟩
  · exact (lay_safe hs).error (hv.step (log_laid layout hlog)) h
  -- from here on, nothing is read of the project
  refine Safe.error (I := fun _ => True) (Q := fun _ => True) ?_ trivial h
  refine safe_seq (withPlaceholders_safe hs transpile_safe _) fun _ => ?_
  exact safe_seq (measure_safe fun e he => .clock he) fun _ => safe_seq (log_safe _ _ _) fun _ =>
    safe_pure trivial

end

end Build

end ModBuild
