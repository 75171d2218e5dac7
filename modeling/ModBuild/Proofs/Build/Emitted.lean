import ModBuild.Proofs.Build.Layers

/-!
# Which emissions a build keeps

An emitted path has the same names before and after it is normalised, unless the
text ends like the file of the runtime library. Then the emission is taken for
that library, whatever its own name is. So different files stay different files,
except for those that are misdirected: each of them goes to the place of the
runtime library, and the last one is what is left there.
-/

set_option autoImplicit false

namespace ModBuild

namespace Emission

def names (path : Text) : Location := Path.names (slashed path)

def misdirected (path : Text) : Bool := Text.endsWith runtimeFile (slashed path)

def runtimeName : Name := ⟨runtimeFile, by decide⟩

def runtimePlace : Location := [Scope.shared.name, runtimeName]

/-- A module with a text, at a file of its own that is not the runtime library. -/
structure Ordinary (e : Emission) : Prop where
  level : ¬ Upward e.path
  filled : e.text ≠ []
  code : e.isDeclaration = false
  path : Text.endsWith declarationExtension (slashed e.path) = false
  name : (names e.path).getLast? ≠ some runtimeName

theorem names_cons_none {t s : Text} (h : '/' ∉ t) (ht : Name.ofText? t = none) :
    Path.names (t ++ '/' :: s) = Path.names s := by
  rw [Path.names, Text.splitOn_append_cons h, List.filterMap_cons_none ht, Path.names]

theorem names_dropDots (s : Text) : Path.names (dropDots s) = Path.names s := by
  fun_induction dropDots s with
  | case1 rest ih => exact ih.trans (names_cons_none (t := ['.']) (by decide) (by decide)).symm
  | case2 s => rfl

theorem names_dropSlashes (s : Text) : Path.names (s.dropWhile (· = '/')) = Path.names s := by
  induction s with
  | nil => rfl
  | cons c s ih =>
    by_cases hc : c = '/'
    · subst hc
      rw [List.dropWhile_cons_of_pos (by simp), ih]
      exact (names_cons_none (t := []) (by decide) (by decide)).symm
    · rw [List.dropWhile_cons_of_neg (by simpa using hc)]

theorem suffix_dropDots {pat : Text} (hdot : pat.head? ≠ some '.') (hslash : '/' ∉ pat) (s : Text) :
    pat <:+ dropDots s ↔ pat <:+ s := by
  refine ⟨fun h => h.trans (dropDots_suffix s), fun h => ?_⟩
  fun_induction dropDots s with
  | case1 rest ih =>
    rcases List.suffix_cons_iff.mp h with rfl | h
    · exact absurd rfl hdot
    · rcases List.suffix_cons_iff.mp h with rfl | h
      · exact absurd List.mem_cons_self hslash
      · exact ih h
  | case2 s => exact h

theorem outputPath_eq (path : Text) : outputPath path =
    if misdirected path then Scope.shared.text ++ '/' :: runtimeFile
    else (dropDots (slashed path)).dropWhile (· = '/') := by
  have hends : Text.endsWith runtimeFile (dropDots (slashed path)) = misdirected path := by
    rw [misdirected, Bool.eq_iff_iff, Text.endsWith_iff, Text.endsWith_iff,
      suffix_dropDots (by decide) (by decide)]
  rw [← hends]
  rfl

def place (path : Text) : Location := if misdirected path then runtimePlace else names path

theorem names_outputPath (path : Text) : Path.names (outputPath path) = place path := by
  rw [outputPath_eq, place]
  split
  · decide
  · rw [names_dropSlashes, names_dropDots, names]

theorem Ordinary.module {e : Emission} (h : Ordinary e) : e.module? = some (outputPath e.path) := by
  refine module?_eq_some_iff.mpr ⟨h.filled, h.code, ?_, rfl⟩
  rw [outputPath_eq]
  split
  · decide
  · intro hends
    have hwhole := (hends.trans (List.dropWhile_suffix _)).trans (dropDots_suffix _)
    rw [← Text.endsWith_iff, h.path] at hwhole
    cases hwhole

theorem Ordinary.names_ne {e : Emission} (h : Ordinary e) : names e.path ≠ runtimePlace :=
  fun heq => h.name (by rw [heq]; rfl)

end Emission

theorem Layout.output_div_place (layout : Layout) {path : Text} (h : ¬ Emission.Upward path) :
    layout.output / Emission.outputPath path =
      Asset.along layout.output (Emission.place path) := by
  rw [layout.output_div_names h, Emission.names_outputPath]

namespace Build

open Emission (Ordinary misdirected names place runtimePlace outputPath)

variable {layout : Layout} {config : Config} {year : Nat} {current : Location}

def emitted (layout : Layout) (config : Config) (year : Nat) (current : Location) (e : Emission) :
    Location × Option ByteArray :=
  ((Asset.along layout.output (place e.path)).location current,
    (Emission.process (outputPath e.path) e.text config year).text.map Text.encode)

theorem modules_ordinary {es : List Emission} (hes : ∀ e ∈ es, Ordinary e) :
    modules layout config year current es = es.map (emitted layout config year current) := by
  rw [modules, ← List.filterMap_eq_map]
  apply List.filterMap_congr
  intro e he
  rw [(hes e he).module, Option.map_some, layout.output_div_place (hes e he).level]
  rfl

section

variable {es : List Emission} (hes : ∀ e ∈ es, Ordinary e)
  (hdistinct : (es.map fun e => names e.path).Nodup) {e : Emission} (he : e ∈ es)
  (files : Location → Option ByteArray)
include hes hdistinct he

/-- What goes to the place that an emission names is the emission itself, if it is not misdirected,
and nothing otherwise. -/
theorem place_eq_names {x : Emission} (hx : x ∈ es) :
    place x.path = names e.path ↔ x = e ∧ misdirected e.path = false := by
  constructor
  · intro h
    rw [place] at h
    split at h
    · exact absurd h.symm (hes e he).names_ne
    · next hown =>
      obtain rfl := List.inj_on_of_nodup_map hdistinct hx he h
      exact ⟨rfl, Bool.eq_false_iff.mpr hown⟩
  · rintro ⟨rfl, hown⟩
    rw [place, hown]
    rfl

theorem overlay_kept (hown : misdirected e.path = false) :
    overlay (es.map (emitted layout config year current)) files
        ((Asset.along layout.output (names e.path)).location current) =
      (Emission.process (outputPath e.path) e.text config year).text.map Text.encode := by
  have hplace := (place_eq_names hes hdistinct he he).mpr ⟨rfl, hown⟩
  obtain ⟨x, hx, hat, hvalue⟩ := overlay_at (es.map (emitted layout config year current)) files
    ((Asset.along layout.output (names e.path)).location current)
    ⟨_, List.mem_map_of_mem he, by rw [emitted, hplace]⟩
  obtain ⟨y, hy, rfl⟩ := List.mem_map.mp hx
  obtain ⟨rfl, -⟩ := (place_eq_names hes hdistinct he hy).mp (Asset.way_of_location hat)
  exact hvalue

theorem overlay_missed (hmissed : misdirected e.path = true) :
    overlay (es.map (emitted layout config year current)) files
        ((Asset.along layout.output (names e.path)).location current) =
      files ((Asset.along layout.output (names e.path)).location current) := by
  apply overlay_untouched
  rintro x hx hat
  obtain ⟨y, hy, rfl⟩ := List.mem_map.mp hx
  have hown := ((place_eq_names hes hdistinct he hy).mp (Asset.way_of_location hat)).2
  rw [hmissed] at hown
  cases hown

end

theorem overlay_runtime {front back : List Emission} {e : Emission}
    (hback : ∀ b ∈ back, Ordinary b ∧ misdirected b.path = false)
    (he : misdirected e.path = true) (files : Location → Option ByteArray) :
    overlay ((front ++ e :: back).map (emitted layout config year current)) files
        ((Asset.along layout.output runtimePlace).location current) =
      some (Text.encode e.text) := by
  have hplace : place e.path = runtimePlace := by rw [place, he]; rfl
  have hverbatim : Emission.verbatim.any (fun name => Text.endsWith name (outputPath e.path)) =
      true := by
    rw [Emission.outputPath_eq, he, if_pos rfl]
    decide
  rw [List.map_append, overlay_append, List.map_cons, overlay, overlay_untouched, if_pos]
  · rw [emitted, Emission.process, hverbatim]
    rfl
  · rw [emitted, hplace]
  · rintro x hx hat
    obtain ⟨b, hb, rfl⟩ := List.mem_map.mp hx
    obtain ⟨hordinary, hown⟩ := hback b hb
    have hnames := Asset.way_of_location hat
    rw [place, hown] at hnames
    exact hordinary.names_ne hnames

/-- After a build that succeeds, every ordinary emission has a file of its own with its processed
text at the path that it was emitted with, unless the path ends like the runtime library. The place
of one that does is as it would be without emissions, and the last of them is found in the place of
the runtime library. -/
theorem run_keeps_modules (layout : Layout) (config : Config) (clock : Clock)
    (toolchain : Toolchain) (es : List Emission) (w w' : Workspace) (r : Run)
    (hroot : w.Stands layout.root) (hquiet : toolchain.Quiet layout.tsconfig)
    (hemits : ∀ v es', toolchain.Emits layout.tsconfig v es' → es' = es)
    (hes : ∀ e ∈ es, Ordinary e) (hdistinct : (es.map fun e => names e.path).Nodup)
    (h : run layout config clock toolchain w = .ok r w') :
    (∀ e ∈ es, misdirected e.path = false →
      (w'.tree.file? ((Asset.along layout.output (names e.path)).location w.current)).isSome ∧
      w'.tree.file? ((Asset.along layout.output (names e.path)).location w.current) =
        (Emission.process (outputPath e.path) e.text config clock.year).text.map Text.encode) ∧
    (∀ e ∈ es, misdirected e.path = true →
      w'.tree.file? ((Asset.along layout.output (names e.path)).location w.current) =
        overlay (plan layout config clock.year w []) w.tree.file?
          ((Asset.along layout.output (names e.path)).location w.current)) ∧
    ∀ front e back, es = front ++ e :: back → misdirected e.path = true →
      (∀ b ∈ back, misdirected b.path = false) →
      w'.tree.file? ((Asset.along layout.output runtimePlace).location w.current) =
        some (Text.encode e.text) := by
  obtain ⟨-, hlaid⟩ := run_laid_emitting hroot hquiet hemits (fun e he => (hes e he).level) h
  have hfiles (l : Location) : w'.tree.file? l =
      overlay (es.map (emitted layout config clock.year w.current))
        (overlay (plan layout config clock.year w []) w.tree.file?) l := by
    have hnone : plan layout config clock.year w [] =
        assets layout config clock.year w ++ libraries layout config clock.year w :=
      List.append_nil _
    rw [hlaid.leads.files, hnone, ← overlay_append, ← modules_ordinary hes, plan]
  refine ⟨fun e he hown => ?_, fun e he hmissed => ?_, ?_⟩
  · have hkept := (hfiles _).trans (overlay_kept hes hdistinct he _ hown)
    have hplan : emitted layout config clock.year w.current e ∈
        plan layout config clock.year w es := by
      rw [plan, modules_ordinary hes]
      exact List.mem_append_right _ (List.mem_map_of_mem he)
    exact ⟨by rw [hkept]; exact hlaid.filled _ hplan, hkept⟩
  · rw [hfiles, overlay_missed hes hdistinct he _ hmissed]
  · rintro front e back rfl he hback
    rw [hfiles]
    exact overlay_runtime (fun b hb => ⟨hes b (by simp [hb]), hback b hb⟩) he _

/-! A transpiler that emits a module and another one whose name ends like the runtime library. -/

def sampleModules : List Emission :=
  [⟨".\\client\\note.lua".toList, "return 1\n".toList, false⟩,
    ⟨"client/my_lualib_bundle.lua".toList, "return 2\n".toList, false⟩]

def sampleEmitter : Toolchain where
  transpile _ := return ⟨sampleModules, none⟩
  declare _ _ := pure ()

theorem sample_ordinary : ∀ e ∈ sampleModules, Ordinary e := by
  have hnote : Ordinary ⟨".\\client\\note.lua".toList, "return 1\n".toList, false⟩ :=
    ⟨by decide, by decide, rfl, by decide, by decide⟩
  have hlibrary : Ordinary ⟨"client/my_lualib_bundle.lua".toList, "return 2\n".toList, false⟩ :=
    ⟨by decide, by decide, rfl, by decide, by decide⟩
  intro e he
  rcases List.mem_pair.mp he with rfl | rfl
  · exact hnote
  · exact hlibrary

theorem sample_distinct : (sampleModules.map fun e => names e.path).Nodup := by decide

theorem sample_quiet (tsconfig : Path) : sampleEmitter.Quiet tsconfig :=
  fun v e v' hv => by obtain ⟨-, rfl⟩ := Action.pure_eq_ok.mp hv; simp

theorem sample_emits (tsconfig : Path) (v : Workspace) (es : List Emission)
    (h : sampleEmitter.Emits tsconfig v es) : es = sampleModules := by
  obtain ⟨v', hv⟩ := h
  cases hv
  rfl

theorem sample_emitting : ∃ r w', run (Layout.choose none none) {} sampleClock sampleEmitter
    { tree := .empty } = .ok r w' := by
  have hsuccess : ((run (Layout.choose none none) {} sampleClock sampleEmitter).result?
      { tree := .empty }).isSome = true := by
    decide +kernel
  obtain ⟨⟨r, w'⟩, hresult⟩ := Option.isSome_iff_exists.mp hsuccess
  exact ⟨r, w', Action.result_eq_some.mp hresult⟩

theorem sample_modules_kept : ∃ r w', run (Layout.choose none none) {} sampleClock sampleEmitter
    { tree := .empty } = .ok r w' ∧
      w'.tree.file? ((Asset.along (Layout.choose none none).output
        (names "client/note.lua".toList)).location []) = some (Text.encode "return 1\n".toList) ∧
      w'.tree.file? ((Asset.along (Layout.choose none none).output
        (names "client/my_lualib_bundle.lua".toList)).location []) = none ∧
      w'.tree.file? ((Asset.along (Layout.choose none none).output runtimePlace).location []) =
        some (Text.encode "return 2\n".toList) := by
  obtain ⟨r, w', h⟩ := sample_emitting
  obtain ⟨hkept, hmissed, hruntime⟩ := run_keeps_modules _ _ _ _ sampleModules _ _ _
    (by decide +kernel) (sample_quiet _) (sample_emits _) sample_ordinary sample_distinct h
  refine ⟨r, w', h, ?_, ?_, ?_⟩
  · exact (hkept _ (List.mem_cons_self ..) (by decide)).2.trans (by decide +kernel)
  · exact (hmissed _ (List.mem_cons_of_mem _ List.mem_cons_self) (by decide)).trans
      (by decide +kernel)
  · exact hruntime [_] _ [] rfl (by decide) (by simp)

theorem sample_module_lost : ¬ ∀ (layout : Layout) (config : Config) (clock : Clock)
    (toolchain : Toolchain) (es : List Emission) (w w' : Workspace) (r : Run),
    w.Stands layout.root → toolchain.Quiet layout.tsconfig →
    (∀ v es', toolchain.Emits layout.tsconfig v es' → es' = es) →
    (∀ e ∈ es, Ordinary e) → (es.map fun e => names e.path).Nodup →
    run layout config clock toolchain w = .ok r w' →
    ∀ e ∈ es,
      (w'.tree.file? ((Asset.along layout.output (names e.path)).location w.current)).isSome := by
  intro hall
  obtain ⟨r, w', h⟩ := sample_emitting
  have hlost := hall _ _ _ _ sampleModules _ _ _ (by decide +kernel) (sample_quiet _)
    (sample_emits _) sample_ordinary sample_distinct h _ (List.mem_cons_of_mem _ List.mem_cons_self)
  have hnone : ((run (Layout.choose none none) {} sampleClock sampleEmitter).result?
      { tree := .empty }).map (fun x => x.2.tree.file?
        ((Asset.along (Layout.choose none none).output
          (names "client/my_lualib_bundle.lua".toList)).location [])) = some none := by
    decide +kernel
  rw [Action.result_eq_some.mpr h, Option.map_some, Option.some.injEq] at hnone
  dsimp only at hnone hlost
  rw [hnone] at hlost
  cases hlost

end Build

end ModBuild
