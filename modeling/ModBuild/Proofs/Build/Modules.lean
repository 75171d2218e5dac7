import ModBuild.Build
import ModBuild.Proofs.Build.Assets

/-!
# The layer of the modules

Emissions are written in their order, and the run that is returned keeps step
with what is written. A path that never goes up leads below the output, however
it is normalised.
-/

set_option autoImplicit false

namespace ModBuild

namespace Emission

def slashed (path : Text) : Text := path.map fun c => if c = '\\' then '/' else c

def Upward (path : Text) : Prop := ['.', '.'] ∈ Text.splitOn '/' (slashed path)

instance (path : Text) : Decidable (Upward path) :=
  inferInstanceAs (Decidable (['.', '.'] ∈ Text.splitOn '/' (slashed path)))

theorem splitOn_dropDots {s p : Text} (h : p ∈ Text.splitOn '/' (dropDots s)) :
    p ∈ Text.splitOn '/' s := by
  fun_induction dropDots s with
  | case1 rest ih =>
    have hsplit : Text.splitOn '/' ('.' :: '/' :: rest) = ['.'] :: Text.splitOn '/' rest :=
      Text.splitOn_append_cons (p := ['.']) (by decide)
    rw [hsplit]
    exact List.mem_cons_of_mem _ (ih h)
  | case2 s => exact h

theorem dropDots_suffix (s : Text) : dropDots s <:+ s := by
  fun_induction dropDots s with
  | case1 rest ih => exact ih.trans ⟨['.', '/'], rfl⟩
  | case2 s => exact List.suffix_refl s

theorem splitOn_dropSlashes {s p : Text} (h : p ∈ Text.splitOn '/' (s.dropWhile (· = '/'))) :
    p ∈ Text.splitOn '/' s := by
  induction s with
  | nil => exact h
  | cons c s ih =>
    by_cases hc : c = '/'
    · subst hc
      rw [List.dropWhile_cons_of_pos (by simp)] at h
      rw [Text.splitOn, if_pos rfl]
      exact List.mem_cons_of_mem _ (ih h)
    · rwa [List.dropWhile_cons_of_neg (by simpa using hc)] at h

theorem outputPath_not_up {path : Text} (h : ¬ Upward path) :
    ['.', '.'] ∉ Text.splitOn '/' (outputPath path) := by
  rw [outputPath]
  split
  · decide
  · intro hup
    exact h (splitOn_dropDots (splitOn_dropSlashes hup))

theorem outputPath_relative (path : Text) : ∀ rest, outputPath path ≠ '/' :: rest := by
  intro rest
  rw [outputPath]
  split
  · have hhead : (Scope.shared.text ++ '/' :: runtimeFile).head? = some 's' := by decide
    intro he
    rw [he] at hhead
    cases hhead
  · intro he
    have hhead := List.head?_dropWhile_not (· = '/') (dropDots (slashed path))
    change List.dropWhile (· = '/') (dropDots (slashed path)) = _ at he
    rw [he] at hhead
    simp at hhead

end Emission

def Name.ofText? (t : Text) : Option Name := if h : Name.Valid t then some ⟨t, h⟩ else none

def Path.names (t : Text) : Location := (Text.splitOn '/' t).filterMap Name.ofText?

theorem Path.parse_names {t : Text} (hrel : ∀ rest, t ≠ '/' :: rest)
    (hup : ['.', '.'] ∉ Text.splitOn '/' t) : Path.parse t = ⟨.relative, (names t).map .name⟩ := by
  have hanchor : Anchor.ofText t = .relative := by
    unfold Anchor.ofText
    split
    · exact absurd rfl (hrel _)
    · exact absurd rfl (hrel _)
    · exact absurd rfl (hrel _)
    · rfl
  rw [Path.parse, hanchor, names, List.map_filterMap]
  congr 1
  apply List.filterMap_congr
  intro p hp
  have hne : p ≠ ['.', '.'] := by
    rintro rfl
    exact hup hp
  rw [Segment.ofText?, if_neg hne, Name.ofText?]
  split <;> rfl

theorem Layout.output_div_names (layout : Layout) {path : Text} (h : ¬ Emission.Upward path) :
    layout.output / Emission.outputPath path =
      Asset.along layout.output (Path.names (Emission.outputPath path)) := by
  show layout.output.append (Path.parse (Emission.outputPath path)) = _
  rw [Path.parse_names (Emission.outputPath_relative path) (Emission.outputPath_not_up h)]
  rfl

theorem Layout.output_div (layout : Layout) {path : Text} (h : ¬ Emission.Upward path) :
    ∃ way, layout.output / Emission.outputPath path = Asset.along layout.output way :=
  ⟨_, layout.output_div_names h⟩

theorem Emission.module_eq {e : Emission} {path : Text} (h : e.module? = some path) :
    path = outputPath e.path :=
  (module?_eq_some_iff.mp h).2.2.2

/-- The violations that a build notes of an emission: those of its calls, if
they are resolved at all. -/
def Emission.violations (e : Emission) : List Violation :=
  match e.module? with
  | none => []
  | some path =>
    if verbatim.any fun name => Text.endsWith name path then []
    else (Require.resolveAll (Scope.ofPath path) e.text).violations

namespace Build

variable {layout : Layout} {config : Config} {year : Nat} {w w' : Workspace}

def modules (layout : Layout) (config : Config) (year : Nat) (current : Location)
    (es : List Emission) : Changes :=
  es.filterMap fun e => e.module?.map fun path =>
    ((layout.output / path).location current,
      (Emission.process path e.text config year).text.map Text.encode)

theorem modules_cons (e : Emission) (es : List Emission) (current : Location) :
    modules layout config year current (e :: es) =
      modules layout config year current [e] ++ modules layout config year current es := by
  rw [modules, modules, modules, ← List.filterMap_append]
  rfl

theorem process_ok (layout : Layout) {path text : Text} {p : Emission.Processed}
    (h : process path text config year w = .ok p w') :
    p = Emission.process path text config year ∧ Laid layout w [] w' := by
  unfold process at h
  obtain ⟨_, v, hviolations, h⟩ := Action.bind_eq_ok.mp h
  obtain ⟨_, v', hnotice, h⟩ := Action.bind_eq_ok.mp h
  obtain ⟨rfl, rfl⟩ := Action.pure_eq_ok.mp h
  have h₁ := forM_laid (c := fun _ => []) _ (Laid.refl layout w)
    (fun _ _ _ _ _ _ _ hlog => log_laid layout hlog) hviolations
  have h₂ := forM_laid (c := fun _ => []) _ h₁
    (fun _ _ _ _ _ _ _ hlog => log_laid layout hlog) hnotice
  have hnil {α : Type} (xs : List α) : (xs.flatMap fun _ => ([] : Changes)) = [] := by
    rw [List.flatMap_eq_nil_iff]
    exact fun _ _ => rfl
  rw [hnil, hnil] at h₂
  exact ⟨rfl, h₂⟩

theorem process_violations (path text : Text) :
    (Emission.process path text config year).violations =
      if Emission.verbatim.any fun name => Text.endsWith name path then []
      else (Require.resolveAll (Scope.ofPath path) text).violations := by
  rw [Emission.process]
  split <;> rfl

def noted (run : Run) (e : Emission) : Run :=
  { run with
    modules := run.modules ++ e.module?.toList
    violations := run.violations ++ e.violations }

theorem write_laid (hs : w.Stands layout.root) {e : Emission} (he : ¬ Emission.Upward e.path)
    {run run' : Run} (h : write layout config year run e w = .ok run' w') :
    run' = noted run e ∧ Laid layout w (modules layout config year w.current [e]) w' := by
  unfold write at h
  cases hm : e.module? with
  | none =>
    rw [hm] at h
    obtain ⟨rfl, rfl⟩ := Action.pure_eq_ok.mp h
    constructor
    · simp [noted, Emission.violations, hm]
    · simpa [modules, hm] using Laid.refl layout w
  | some path =>
    rw [hm] at h
    obtain rfl := Emission.module_eq hm
    obtain ⟨way, hway⟩ := layout.output_div he
    obtain ⟨_, w₁, hmake, h⟩ := Action.bind_eq_ok.mp h
    obtain ⟨p, w₂, hprocess, h⟩ := Action.bind_eq_ok.mp h
    obtain ⟨_, w₃, hwrite, h⟩ := Action.bind_eq_ok.mp h
    obtain ⟨rfl, rfl⟩ := Action.pure_eq_ok.mp h
    rw [hway] at hmake hwrite
    obtain ⟨rfl, h₂⟩ := process_ok layout hprocess
    have h₁₂ := (makeParent_laid hs way hmake).trans h₂
    have h₃ := (writeText_laid hwrite).2
    rw [h₁₂.current, ← hway] at h₃
    constructor
    · simp [noted, Emission.violations, hm, process_violations]
    · simpa [modules, hm] using h₁₂.trans h₃

theorem writeAll_laid (hs : w.Stands layout.root) (es : List Emission)
    (hes : ∀ e ∈ es, ¬ Emission.Upward e.path) {run run' : Run}
    (h : es.foldlM (write layout config year) run w = .ok run' w') :
    run' = es.foldl noted run ∧ Laid layout w (modules layout config year w.current es) w' := by
  induction es generalizing run w with
  | nil =>
    obtain ⟨rfl, rfl⟩ := Action.pure_eq_ok.mp h
    exact ⟨rfl, .refl layout w⟩
  | cons e es ih =>
    rw [List.foldlM_cons] at h
    obtain ⟨run₁, w₁, he, h⟩ := Action.bind_eq_ok.mp h
    obtain ⟨rfl, h₁⟩ := write_laid hs (hes e (by simp)) he
    obtain ⟨hrun, h₂⟩ := ih (h₁.stands hs) (fun x hx => hes x (by simp [hx])) h
    refine ⟨hrun, ?_⟩
    rw [h₁.current] at h₂
    rw [modules_cons]
    exact h₁.trans h₂

theorem foldl_noted (es : List Emission) (run : Run) :
    es.foldl noted run =
      { run with
        modules := run.modules ++ es.filterMap Emission.module?
        violations := run.violations ++ es.flatMap Emission.violations } := by
  induction es generalizing run with
  | nil => simp
  | cons e es ih =>
    rw [List.foldl_cons, ih]
    cases hm : e.module? <;> simp [noted, hm]

end Build

end ModBuild
