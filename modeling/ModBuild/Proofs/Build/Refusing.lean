import ModBuild.Proofs.Build.Failing
import ModBuild.Proofs.Refusal

/-!
# Versions that stop a build

A build asks for the versions of one library after the other, after it has mirrored the assets and
copied the libraries before. It is stopped there exactly if a directory of the library's file has a
name that is no version, and nothing else that it does is stopped by a version.
-/

set_option autoImplicit false

namespace ModBuild

namespace Failure

def Versionless (e : Failure) : Prop := ∀ r, e ≠ .version r

theorem versionless_of_cut {p : Path} {e : Failure} (h : p.Cut e) : e.Versionless := by
  obtain ⟨-⟩ := h
  exact fun _ => nofun

theorem versionless_of_expected {e : Failure} (h : e.expected = true) : e.Versionless := by
  rintro r rfl
  cases h

end Failure

theorem Action.SafeAnywhere.not_version {α : Type} {a : Action α}
    (h : SafeAnywhere Failure.Versionless a) (w : Workspace) (r : Version.Refusal) :
    ¬ Fails a w (.version r) :=
  h.not_fails trivial rfl fun hversionless => hversionless r rfl

structure Toolchain.Versionless (toolchain : Toolchain) (tsconfig : Path) : Prop where
  fails : ∀ v e v', toolchain.transpile tsconfig v = .error e v' → e.Versionless
  ends : ∀ v t v', toolchain.transpile tsconfig v = .ok t v' →
    ∀ e, t.failure = some e → e.Versionless

theorem ProcessRunner.toolchain_versionless {runner : ProcessRunner} (tsconfig : Path)
    (h : ∀ c v e v', runner.run c v = .error e v' → e.Versionless) :
    runner.toolchain.Versionless tsconfig where
  fails v e v' ht := by
    have hsafe : Action.SafeAnywhere Failure.Versionless (runner.toolchain.transpile tsconfig) :=
      Action.safe_seq (runner.runTool_safe _ _ (h _) fun _ _ _ _ _ => fun _ => nofun) fun _ =>
        Action.safe_pure trivial
    exact (hsafe.error trivial ht).elim Failure.versionless_of_expected id
  ends v t v' ht e he := by
    obtain ⟨outcome, _, -, ht⟩ := Action.bind_eq_ok.mp ht
    obtain ⟨rfl, -⟩ := Action.pure_eq_ok.mp ht
    obtain ⟨rfl, -⟩ := emissions_failed he
    exact fun _ => nofun

namespace Library

variable {typings : Path} {w : Workspace} {library n : Name} {r : Version.Refusal}

def Holds (typings : Path) (w : Workspace) (library n : Name) : Prop :=
  (w.tree.get? ((typings / library.text).location w.current ++ [n, file library])).isSome

instance : Decidable (Holds typings w library n) := inferInstanceAs (Decidable (Option.isSome _))

def listed (typings : Path) (w : Workspace) (library : Text) : List Text :=
  versions (w.tree.below ((typings / library).location w.current)) library

theorem mem_listed_iff : n.text ∈ listed typings w library.text ↔ Holds typings w library n := by
  rw [listed, versions_eq, List.mem_map_of_injective fun _ _ => Name.text_injective]
  exact mem_held_iff

theorem refused_of_listed (h : Version.latest? (listed typings w library.text) = .error r) :
    ∃ n, Holds typings w library n ∧ Version.read n.text = .error r := by
  obtain ⟨t, ht, hread⟩ := Version.refused_of_latest h
  obtain ⟨n, rfl⟩ := version_valid ht
  exact ⟨n, mem_listed_iff.mp ht, hread⟩

theorem listed_refused_iff : (∃ r, Version.latest? (listed typings w library.text) = .error r) ↔
    ∃ n, Holds typings w library n ∧ ¬ Version.Readable n.text := by
  constructor
  · rintro ⟨r, h⟩
    obtain ⟨n, hn, hr⟩ := refused_of_listed h
    refine ⟨n, hn, ?_⟩
    rintro ⟨version, hread⟩
    rw [hr] at hread
    cases hread
  · rintro ⟨n, hn, hunread⟩
    cases h : Version.latest? (listed typings w library.text) with
    | error r => exact ⟨r, rfl⟩
    | ok v => exact absurd (Version.latest_ok_iff.mp ⟨v, h⟩ _ (mem_listed_iff.mpr hn)) hunread

end Library

namespace Build

open ModBuild.Action ModBuild.Failure

variable {layout : Layout} {config : Config} {clock : Clock} {toolchain : Toolchain} {year : Nat}
  {w v : Workspace} {r : Version.Refusal}

/-! ## What is not stopped by a version -/

theorem copy_versionless (source destination : Path) (config : Config) (year : Nat) :
    SafeAnywhere Versionless (Asset.copy source destination config year) := by
  have hcut {p : Path} (e : Failure) (h : p.Cut e) : e.Versionless := versionless_of_cut h
  have hgarbled : Failure.notText.Versionless := fun _ => nofun
  have howner : Failure.notEncodable.Versionless := fun _ => nofun
  unfold Asset.copy
  refine safe_seq (log_safe _ _ _) fun _ => ?_
  refine safe_seq ((makeDirectories_safe _).mono hcut) fun _ => ?_
  split
  · refine safe_seq (safe_ask (fun _ _ _ _ => trivial) fun _ _ e h => ?_) fun _ =>
      writeText_safe _ _ hcut fun _ => howner
    rcases Workspace.readText_error h with he | he | ⟨rfl, -⟩
    · exact .inl (expected_of_fault he)
    · exact .inr (hcut e he)
    · exact .inr hgarbled
  · refine safe_seq (safe_ask (fun _ _ _ _ => trivial) fun _ _ e h => ?_) fun b =>
      (writeBytes_safe _ b).mono hcut
    exact (Workspace.readBytes_error h).imp expected_of_fault (hcut e)

theorem mirror_versionless (hs : w.Stands layout.root) :
    SafeAnywhere Versionless (mirror layout config year) := by
  refine safe_seq (prepare_safe hs) fun _ => safe_forM fun s _ => ?_
  refine safe_seq ?_ fun _ => safe_pure trivial
  refine safe_seq (safe_ask (fun _ _ _ _ => trivial) fun _ _ _ h =>
    .inl (Workspace.filesBelow_error h)) fun _ => ?_
  exact safe_seq (safe_forM fun _ _ => copy_versionless _ _ _ _) fun _ => safe_pure trivial

theorem copyRuntime_versionless :
    SafeAnywhere Versionless (Library.copyRuntime layout config year) := by
  refine safe_seq (safe_ask (fun _ _ _ _ => trivial) fun _ _ _ h =>
    .inl (Workspace.isFile_error h)) fun b => ?_
  cases b with
  | false => exact safe_pure trivial
  | true => exact safe_seq (copy_versionless _ _ _ _) fun _ => safe_pure trivial

theorem transpile_versionless (h : toolchain.Versionless layout.tsconfig) :
    SafeAnywhere Versionless (transpile layout config year toolchain) := by
  refine safe_bind (Q := fun t : Transpilation => ∀ e, t.failure = some e → e.Versionless)
    (safe_of (fun v _ t v' ht => ⟨trivial, h.ends v t v' ht⟩) fun v _ e v' ht =>
      .inr (h.fails v e v' ht)) fun t ht => ?_
  refine safe_seq (safe_foldlM (fun e _ run => ?_) _) fun _ => ?_
  · exact write_safe (fun _ he => versionless_of_cut he) (fun _ _ => nofun) run
  · split
    · next e he => exact safe_throw (.inr (ht e he))
    · exact safe_pure trivial

def emit (layout : Layout) (config : Config) (clock : Clock) (toolchain : Toolchain) :
    Action Run := do
  let written ← withPlaceholders layout (transpile layout config clock.year toolchain)
    Scope.directories
  let elapsed ← Action.ofExcept (clock.measure.mapError .clock)
  Action.log .info ("Compilation complete. Took ".toList ++ secondsText (some elapsed) ++
    " second(s).".toList)
  return { written with elapsed := some elapsed }

theorem emit_versionless (hs : w.Stands layout.root) (h : toolchain.Versionless layout.tsconfig) :
    SafeAnywhere Versionless (emit layout config clock toolchain) := by
  refine safe_seq (withPlaceholders_safe hs (transpile_versionless h) _) fun _ => ?_
  exact safe_seq (measure_safe fun _ _ _ => nofun) fun _ => safe_seq (log_safe _ _ _) fun _ =>
    safe_pure trivial

/-! ## Where a version stops a build -/

/-- What a build does before it looks for a library: it mirrors the assets and copies the libraries
that come before. -/
def layUntil (layout : Layout) (config : Config) (year : Nat) (before : List Text) :
    Action Unit := do
  Action.log .info "Compiling project..".toList
  mirror layout config year
  let _ ← before.mapM (Library.copyLatest layout config year)

theorem layUntil_ok {before : List Text} : layUntil layout config year before w = .ok () v ↔
    ∃ v₀ v₁ paths, Action.log .info "Compiling project..".toList none w = .ok () v₀ ∧
      mirror layout config year v₀ = .ok () v₁ ∧
      before.mapM (Library.copyLatest layout config year) v₁ = .ok paths v := by
  unfold layUntil
  constructor
  · intro h
    obtain ⟨_, v₀, hlog, h⟩ := bind_eq_ok.mp h
    obtain ⟨_, v₁, hmirror, h⟩ := bind_eq_ok.mp h
    obtain ⟨paths, v₂, hcopies, h⟩ := bind_eq_ok.mp h
    obtain ⟨-, rfl⟩ := pure_eq_ok.mp h
    exact ⟨v₀, v₁, paths, hlog, hmirror, hcopies⟩
  · rintro ⟨v₀, v₁, paths, hlog, hmirror, hcopies⟩
    rw [bind_of_ok hlog, bind_of_ok hmirror, bind_of_ok hcopies]
    rfl

theorem copies_onward (hs : w.Stands layout.root) (hv : Onward layout w v) {before : List Text}
    (hbefore : ∀ library ∈ before, library ∈ Library.names) {paths : List (Option Path)}
    {v' : Workspace} (h : before.mapM (Library.copyLatest layout config year) v = .ok paths v') :
    Onward layout w v' := by
  induction before generalizing v paths with
  | nil =>
    obtain ⟨-, rfl⟩ := pure_eq_ok.mp h
    exact hv
  | cons library before ih =>
    obtain ⟨hl, hbefore⟩ := List.forall_mem_cons.mp hbefore
    rw [List.mapM_cons] at h
    obtain ⟨path, v₁, hcopy, h⟩ := bind_eq_ok.mp h
    obtain ⟨rest, v₂, hcopies, h⟩ := bind_eq_ok.mp h
    obtain ⟨-, rfl⟩ := pure_eq_ok.mp h
    exact ih (hv.step (copyLatest_laid (hv.stands hs) hl hcopy)) hbefore hcopies

theorem layUntil_onward (hs : w.Stands layout.root) {before : List Text}
    (hbefore : ∀ library ∈ before, library ∈ Library.names)
    (h : layUntil layout config year before w = .ok () v) : Onward layout w v := by
  obtain ⟨v₀, v₁, paths, hlog, hmirror, hcopies⟩ := layUntil_ok.mp h
  have hlogged : Onward layout w v₀ := ⟨_, log_laid layout hlog⟩
  exact copies_onward hs (hlogged.step (mirror_laid (hlogged.stands hs) hmirror)) hbefore hcopies

theorem copyLatest_fails {library : Text} :
    Fails (Library.copyLatest layout config year library) v (.version r) ↔
      Fails (Library.latest? layout.typings library) v (.version r) := by
  refine fails_bind_left fun source v => SafeAnywhere.not_version ?_ v r
  split
  · exact safe_seq (log_safe _ _ _) fun _ => safe_pure trivial
  · exact safe_seq (copy_versionless _ _ _ _) fun _ => safe_pure trivial

theorem copyAll_fails : Fails (Library.copyAll layout config year) v (.version r) ↔
    Fails (Library.names.mapM (Library.copyLatest layout config year)) v (.version r) :=
  fails_bind_left fun _ v => SafeAnywhere.not_version
    (safe_seq copyRuntime_versionless fun _ => safe_pure trivial) v r

theorem lay_fails (hs : w.Stands layout.root) : Fails (lay layout config year) v (.version r) ↔
    ∃ v₁, mirror layout config year v = .ok () v₁ ∧
      Fails (Library.names.mapM (Library.copyLatest layout config year)) v₁ (.version r) := by
  rw [lay_eq, fails_bind_right ((mirror_versionless hs).not_version _ _)]
  simp only [fails_bind_left fun _ _ => not_fails_pure, copyAll_fails]
  exact ⟨fun ⟨_, h⟩ => h, fun h => ⟨(), h⟩⟩

theorem run_fails (hs : w.Stands layout.root) (h : toolchain.Versionless layout.tsconfig) :
    Fails (run layout config clock toolchain) w (.version r) ↔ ∃ before library after v,
      Library.names = before ++ library :: after ∧
      layUntil layout config clock.year before w = .ok () v ∧
      Fails (Library.latest? layout.typings library) v (.version r) := by
  have hemit (v : Workspace) : ¬ Fails (emit layout config clock toolchain) v (.version r) :=
    (emit_versionless hs h).not_version v r
  have hlog : ¬ Fails (Action.log .info "Compiling project..".toList) w (.version r) :=
    SafeAnywhere.not_version (log_safe _ _ _) w r
  change Fails (Action.log .info "Compiling project..".toList >>= fun _ =>
    lay layout config clock.year >>= fun _ => emit layout config clock toolchain) w _ ↔ _
  rw [fails_bind_right hlog]
  simp only [fails_bind_left fun _ => hemit, lay_fails hs, fails_mapM, copyLatest_fails,
    layUntil_ok]
  constructor
  · rintro ⟨_, v₀, hlogged, v₁, hmirror, before, library, after, paths, v, hsplit, hcopies, hr⟩
    exact ⟨before, library, after, v, hsplit, ⟨v₀, v₁, paths, hlogged, hmirror, hcopies⟩, hr⟩
  · rintro ⟨before, library, after, v, hsplit, ⟨v₀, v₁, paths, hlogged, hmirror, hcopies⟩, hr⟩
    exact ⟨_, v₀, hlogged, v₁, hmirror, before, library, after, paths, v, hsplit, hcopies, hr⟩

theorem latest_fails {typings : Path} {library : Text} :
    Fails (Library.latest? typings library) v (.version r) ↔ ∃ listing,
      v.below (typings / library) = .ok listing ∧
        Version.latest? (Library.versions listing library) = .error r := by
  have hask : SafeAnywhere Versionless (ask (·.below (typings / library))) :=
    safe_ask (fun _ _ _ _ => trivial) fun _ _ _ h => .inl (Workspace.below_error h)
  unfold Library.latest?
  rw [fails_bind_right (hask.not_version v r)]
  constructor
  · rintro ⟨listing, v', hlisting, w', h⟩
    obtain ⟨hbelow, rfl⟩ := ask_eq_ok.mp hlisting
    refine ⟨listing, hbelow, ?_⟩
    cases hlatest : Version.latest? (Library.versions listing library) with
    | error refusal =>
      rw [hlatest] at h
      cases h
      rfl
    | ok version =>
      rw [hlatest] at h
      cases h
  · rintro ⟨listing, hbelow, hlatest⟩
    refine ⟨listing, v, ask_eq_ok.mpr ⟨hbelow, rfl⟩, v, ?_⟩
    rw [hlatest]
    rfl

theorem latest_fails_onward (hs : w.Stands layout.root) (hv : Onward layout w v) {library : Text}
    (hl : library ∈ Library.names) :
    Fails (Library.latest? layout.typings library) v (.version r) ↔
      (layout.typings / library).Fits ∧
        Version.latest? (Library.listed layout.typings w library) = .error r := by
  have hfound {listing : Entries} (h : v.below (layout.typings / library) = .ok listing) :
      listing = w.tree.below ((layout.typings / library).location w.current) := by
    rw [listing_found (hv.stands hs) hl h, listing_kept hv.spares hl]
  have hshort : ∀ t ∈ Library.names, Tree.byteLength t ≤ Tree.nameLimit := by decide
  have htypings : Layout.typingsName.Fits := by decide
  rw [latest_fails]
  constructor
  · rintro ⟨listing, hbelow, hlatest⟩
    rw [hfound hbelow] at hlatest
    refine ⟨?_, hlatest⟩
    obtain ⟨n, rfl, hn, hnull⟩ := library_along layout hl
    obtain ⟨e, he⟩ := Workspace.entry_of_below hbelow
    rw [hn] at he ⊢
    refine Workspace.fits_of_entry (hv.stands hs) ?_ he
    simpa using ⟨htypings, hnull, hshort _ hl⟩
  · rintro ⟨hfits, hlatest⟩
    obtain ⟨listing, hbelow⟩ := Workspace.below_of_fits (w := v) hfits
    exact ⟨listing, hbelow, by rwa [hfound hbelow]⟩

/-- A version stops a build exactly at a library whose names, as they were when it began, are
refused for it. -/
theorem run_fails_iff (hs : w.Stands layout.root) (h : toolchain.Versionless layout.tsconfig) :
    Fails (run layout config clock toolchain) w (.version r) ↔
      ∃ (before : List Text) (library : Name) (after : List Text) (v : Workspace),
        Library.names = before ++ library.text :: after ∧
        layUntil layout config clock.year before w = .ok () v ∧
        (layout.typings / library.text).Fits ∧
        Version.latest? (Library.listed layout.typings w library.text) = .error r := by
  have hmem {before after : List Text} {library : Text}
      (hsplit : Library.names = before ++ library :: after) :
      (∀ l ∈ before, l ∈ Library.names) ∧ library ∈ Library.names := by
    rw [hsplit]
    exact ⟨fun l hl => by simp [hl], by simp⟩
  rw [run_fails hs h]
  constructor
  · rintro ⟨before, library, after, v, hsplit, hlay, hfails⟩
    obtain ⟨hbefore, hl⟩ := hmem hsplit
    obtain ⟨⟨n, rfl, -⟩, -⟩ := Library.names_valid hl
    have hv := layUntil_onward hs hbefore hlay
    exact ⟨before, n, after, v, hsplit, hlay, (latest_fails_onward hs hv hl).mp hfails⟩
  · rintro ⟨before, library, after, v, hsplit, hlay, hrefused⟩
    obtain ⟨hbefore, hl⟩ := hmem hsplit
    have hv := layUntil_onward hs hbefore hlay
    exact ⟨before, library.text, after, v, hsplit, hlay,
      (latest_fails_onward hs hv hl).mpr hrefused⟩

theorem run_reaches (hs : w.Stands layout.root) {result : Run} {w' : Workspace}
    (h : run layout config clock toolchain w = .ok result w') {library : Text}
    (hl : library ∈ Library.names) : ∃ v file v', Onward layout w v ∧
      Library.latest? layout.typings library v = .ok file v' := by
  obtain ⟨before, after, hsplit⟩ := List.append_of_mem hl
  unfold run at h
  obtain ⟨_, v₀, hlog, h⟩ := bind_eq_ok.mp h
  obtain ⟨_, v₁, hlay, -⟩ := bind_eq_ok.mp h
  rw [lay_eq] at hlay
  obtain ⟨_, v₂, hmirror, hlay⟩ := bind_eq_ok.mp hlay
  obtain ⟨_, v₃, hall, -⟩ := bind_eq_ok.mp hlay
  unfold Library.copyAll at hall
  obtain ⟨paths, v₄, hcopies, -⟩ := bind_eq_ok.mp hall
  rw [hsplit, List.mapM_append] at hcopies
  obtain ⟨front, v, hfront, hcopies⟩ := bind_eq_ok.mp hcopies
  rw [List.mapM_cons] at hcopies
  obtain ⟨back, v₅, hback, -⟩ := bind_eq_ok.mp hcopies
  obtain ⟨path, v₆, hcopy, -⟩ := bind_eq_ok.mp hback
  obtain ⟨file, v', hlatest, -⟩ := bind_eq_ok.mp hcopy
  refine ⟨v, file, v', layUntil_onward hs (fun l hmem => ?_)
    (layUntil_ok.mpr ⟨v₀, v₂, front, hlog, hmirror, hfront⟩), hlatest⟩
  rw [hsplit]
  simp [hmem]

theorem readable_of_run (hs : w.Stands layout.root) {result : Run} {w' : Workspace}
    (h : run layout config clock toolchain w = .ok result w') {library n : Name}
    (hl : library.text ∈ Library.names) (hn : Library.Holds layout.typings w library n) :
    Version.Readable n.text := by
  obtain ⟨v, file, v', hv, hlatest⟩ := run_reaches hs h hl
  obtain ⟨listing, v₁, hask, hlatest⟩ := bind_eq_ok.mp hlatest
  obtain ⟨hbelow, rfl⟩ := ask_eq_ok.mp hask
  have hlisted : Library.versions listing library.text =
      Library.listed layout.typings w library.text := by
    rw [listing_found (hv.stands hs) hl hbelow, listing_kept hv.spares hl]
    rfl
  cases hversion : Version.latest? (Library.versions listing library.text) with
  | error refusal =>
    rw [hversion] at hlatest
    exact absurd hlatest throw_ne_ok
  | ok version =>
    rw [hlisted] at hversion
    exact Version.latest_ok_iff.mp ⟨_, hversion⟩ _ (Library.mem_listed_iff.mpr hn)

/-- Names are read as versions part by part, and in the name of a directory the first part that
consists of digits that are not all decimal is refused, and no other. What is read has a key, and
the order of the versions is the linear one of the keys, so that something comes out of directories
with readable names in whatever order they are listed. A build is stopped by a version exactly if it
comes to a library one of whose directories has no readable name; it says which name it was, and it
never ends well where there is such a directory. -/
theorem refusals_exact (layout : Layout) (config : Config) (clock : Clock) (toolchain : Toolchain)
    (w : Workspace) (hs : w.Stands layout.root)
    (htoolchain : toolchain.Versionless layout.tsconfig) :
    (∀ name : Text, Tree.byteLength name ≤ Tree.nameLimit →
      Version.read name = (((Text.splitOn '.' name).find? fun part => Version.Undecimal part).elim
        (.ok ((Text.splitOn '.' name).map Version.partOf)) fun part => .error (.notDecimal part)) ∧
      (Version.Readable name ↔ ∀ part ∈ Text.splitOn '.' name, ¬ Version.Undecimal part)) ∧
    (Function.Injective Version.key ∧ ∀ a b : List Version.Part,
      (Version.le a b = true ↔ Version.key a ≤ Version.key b) ∧
      (Version.le a b = true ∨ Version.le b a = true)) ∧
    (∀ (typings : Path) (library : Name) (order : List Name),
      (∃ file, Library.latestAmong? typings library order = .ok file) ↔
        ∀ n ∈ order, Version.Readable n.text) ∧
    ((∃ r, Fails (run layout config clock toolchain) w (.version r)) ↔
      ∃ (before : List Text) (library : Name) (after : List Text) (v : Workspace),
        Library.names = before ++ library.text :: after ∧
        layUntil layout config clock.year before w = .ok () v ∧
        (layout.typings / library.text).Fits ∧
        ∃ n, Library.Holds layout.typings w library n ∧ ¬ Version.Readable n.text) ∧
    (∀ r, Fails (run layout config clock toolchain) w (.version r) →
      ∃ library n, library.text ∈ Library.names ∧ Library.Holds layout.typings w library n ∧
        Version.read n.text = .error r) ∧
    ∀ library n, library.text ∈ Library.names → Library.Holds layout.typings w library n →
      ¬ Version.Readable n.text →
        ∀ result w', run layout config clock toolchain w ≠ .ok result w' := by
  refine ⟨fun name h => ⟨Version.read_eq h, Version.readable_iff h⟩,
    ⟨Version.key_injective, fun a b => ⟨Version.le_iff_key_le a b, Version.le_total a b⟩⟩,
    Library.latestAmong_ok_iff, ?_, fun r h => ?_, fun library n hl hn hunread result w' h => ?_⟩
  · simp only [run_fails_iff hs htoolchain, ← Library.listed_refused_iff]
    constructor
    · rintro ⟨r, before, library, after, v, hsplit, hlay, hfits, h⟩
      exact ⟨before, library, after, v, hsplit, hlay, hfits, r, h⟩
    · rintro ⟨before, library, after, v, hsplit, hlay, hfits, r, h⟩
      exact ⟨r, before, library, after, v, hsplit, hlay, hfits, h⟩
  · obtain ⟨before, library, after, v, hsplit, -, -, hrefused⟩ :=
      (run_fails_iff hs htoolchain).mp h
    obtain ⟨n, hn, hread⟩ := Library.refused_of_listed hrefused
    exact ⟨library, n, by simp [hsplit], hn, hread⟩
  · exact hunread (readable_of_run hs h hl hn)

/-! A project with one directory of a library, and a transpiler that emits nothing. -/

def sampleHome : Layout := Layout.choose none none

def sampleRunner : ProcessRunner := ⟨["npx".toList], none, "/scratch".toList, fun _ => pure {}⟩

def superscriptVersion : Name := ⟨"²".toList, by decide⟩

def plainTwoVersion : Name := ⟨"2".toList, by decide⟩

def sampleLibraryIn (n : Name) : Workspace where
  tree := (Except.toOption do
    let t ← Tree.empty.makeDirectory [Layout.typingsName]
    let t ← t.makeDirectory [Layout.typingsName, Library.sampleLibrary]
    let t ← t.makeDirectory [Layout.typingsName, Library.sampleLibrary, n]
    t.writeFile [Layout.typingsName, Library.sampleLibrary, n, Library.file Library.sampleLibrary]
      (Text.encode "return 2".toList)).getD .empty

theorem sample_superscript_stops :
    (sampleLibraryIn superscriptVersion).Stands sampleHome.root ∧
    sampleRunner.toolchain.Versionless sampleHome.tsconfig ∧
    ∃ r, Fails (run sampleHome {} sampleClock sampleRunner.toolchain)
      (sampleLibraryIn superscriptVersion) (.version r) := by
  have hs : (sampleLibraryIn superscriptVersion).Stands sampleHome.root := by decide +kernel
  have htoolchain : sampleRunner.toolchain.Versionless sampleHome.tsconfig :=
    ProcessRunner.toolchain_versionless _ fun c v e v' h => by cases h
  refine ⟨hs, htoolchain, ?_⟩
  obtain ⟨hread, -, -, hstopped, -⟩ :=
    refusals_exact sampleHome {} sampleClock sampleRunner.toolchain _ hs htoolchain
  have hunread : ¬ Version.Readable superscriptVersion.text := fun h =>
    (hread _ (by decide)).2.mp h superscriptVersion.text (by decide) (by decide)
  have hlaid : ((layUntil sampleHome {} sampleClock.year []).result?
      (sampleLibraryIn superscriptVersion)).isSome = true := by
    decide +kernel
  obtain ⟨⟨_, v⟩, hresult⟩ := Option.isSome_iff_exists.mp hlaid
  exact hstopped.mpr ⟨[], Library.sampleLibrary, _, v, rfl, result_eq_some.mp hresult, by decide,
    superscriptVersion, by decide +kernel, hunread⟩

theorem sample_superscript_unread :
    (¬ ∀ name : Text, Tree.byteLength name ≤ Tree.nameLimit → Version.Readable name) ∧
    ((run sampleHome {} sampleClock sampleRunner.toolchain).result?
      (sampleLibraryIn plainTwoVersion)).isSome = true ∧
    ((run sampleHome {} sampleClock sampleRunner.toolchain).result?
      (sampleLibraryIn superscriptVersion)).isNone = true := by
  refine ⟨fun h => ?_, by decide +kernel, by decide +kernel⟩
  obtain ⟨version, hread⟩ := h superscriptVersion.text (by decide)
  have hrefused : Version.read superscriptVersion.text =
      .error (.notDecimal superscriptVersion.text) := by decide
  rw [hrefused] at hread
  cases hread

end Build

end ModBuild
