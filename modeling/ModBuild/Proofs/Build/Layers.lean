import ModBuild.Proofs.Build.Holding
import ModBuild.Proofs.Build.Modules

/-!
# What a build writes

A build that succeeds changes the files of the project by its plan and by
nothing else: first the assets, then the libraries, then the modules, each over
what was there. The placeholders are gone again, and where one stood already it
has not been touched.
-/

set_option autoImplicit false

namespace ModBuild

def Toolchain.Quiet (toolchain : Toolchain) (tsconfig : Path) : Prop :=
  ∀ v emitted v', toolchain.transpile tsconfig v = .ok emitted v' →
    v'.tree = v.tree ∧ v'.current = v.current

def Toolchain.Emits (toolchain : Toolchain) (tsconfig : Path) (v : Workspace)
    (es : List Emission) : Prop :=
  ∃ v', toolchain.transpile tsconfig v = .ok ⟨es, none⟩ v'

namespace Build

variable {layout : Layout} {config : Config} {year : Nat} {clock : Clock} {toolchain : Toolchain}
  {w w' : Workspace}

theorem Laid.passes {c : Changes} (h : Laid layout w c w') : Passes layout w w' where
  current := h.current
  kept := h.leads.kept
  places s := h.spares.entry _ (placeholder_not_ground layout s _)

/-- What the placeholders add is taken away again, so an action lays with them what it
lays without them. -/
theorem withPlaceholders_laid {α : Type} {action : Action α} {x : α}
    {Q : Workspace → α → Changes → Prop} {scopes : List Scope}
    (haction : ∀ v v' x, v.Stands layout.root → v.current = w.current → action v = .ok x v' →
      ∃ c, Q v x c ∧ Laid layout v c v')
    (hscopes : ∀ s ∈ scopes, s ∈ Scope.directories) (hs : w.Stands layout.root)
    (h : withPlaceholders layout action scopes w = .ok x w') :
    ∃ v c, Q v x c ∧ Laid layout w c w' := by
  obtain ⟨made, w₁, v, v', -, hholds, hdone, hmarked⟩ :=
    withPlaceholders_around hscopes hs (fun v v' hv hcurrent hdone =>
      (haction v v' x hv hcurrent hdone).elim fun _ hc => hc.2.passes) h
  obtain ⟨c, hq, hleads, hinside, hfilled⟩ :=
    haction v v' x (hholds.stands hs) hholds.current hdone
  rw [hholds.current] at hleads hinside
  have haway : ∀ y ∈ c, y.1 ∉ places layout made w.current := fun y hy hplace => by
    obtain ⟨s, -, hs⟩ := List.mem_map.mp hplace
    exact placeholder_not_ground layout s w.current (.inl (hs ▸ hinside y hy))
  exact ⟨v, c, hq, (hholds.leads.mono fun _ => Layout.Site.ground).trans
    (hholds.marked.leads hmarked hleads haway), hinside, hfilled⟩

def assets (layout : Layout) (config : Config) (year : Nat) (w : Workspace) : Changes :=
  Scope.directories.flatMap (scopeAssets layout config year w)

def InScope (way : Location) : Prop :=
  ∃ s ∈ Scope.directories, ∃ rest, rest ≠ [] ∧ way = s.name :: rest

theorem scope_plain (s : Scope) : Asset.transpiled s.name = false := by cases s <;> decide

theorem mem_assets (x : Location × Option ByteArray) :
    x ∈ assets layout config year w ↔ ∃ way, InScope way ∧ way.any Asset.transpiled = false ∧
      w.tree.file? ((Asset.along layout.source way).location w.current) ≠ none ∧
      x = Asset.copied config year w (Asset.along layout.source way)
        (Asset.along layout.output way) := by
  have hdirs (s : Scope) (rest : Location) :
      Asset.along (layout.sourceDirectory s) rest = Asset.along layout.source (s.name :: rest) ∧
        Asset.along (layout.outputDirectory s) rest =
          Asset.along layout.output (s.name :: rest) := by
    rw [Layout.sourceDirectory_eq, Layout.outputDirectory_eq, Asset.along_along,
      Asset.along_along]
    exact ⟨rfl, rfl⟩
  constructor
  · intro hx
    obtain ⟨s, hs, hx⟩ := List.mem_flatMap.mp hx
    obtain ⟨rest, hrest, rfl⟩ := List.mem_map.mp hx
    obtain ⟨hfiles, hplain⟩ := List.mem_filter.mp hrest
    rw [Tree.mem_filesBelow, ← Asset.location_along, (hdirs s rest).1] at hfiles
    refine ⟨s.name :: rest, ⟨s, hs, rest, hfiles.1, rfl⟩, ?_, hfiles.2, ?_⟩
    · rw [List.any_cons, scope_plain]
      simpa using hplain
    · rw [(hdirs s rest).1, (hdirs s rest).2]
  · rintro ⟨-, ⟨s, hs, rest, hne, rfl⟩, hplain, hfile, rfl⟩
    refine List.mem_flatMap.mpr ⟨s, hs, List.mem_map.mpr ⟨rest, ?_, ?_⟩⟩
    · refine List.mem_filter.mpr ⟨?_, ?_⟩
      · rw [Tree.mem_filesBelow, ← Asset.location_along, (hdirs s rest).1]
        exact ⟨hne, hfile⟩
      · rw [List.any_cons, scope_plain] at hplain
        simpa using hplain
    · rw [(hdirs s rest).1, (hdirs s rest).2]

theorem assets_eq (h : layout.Spares w w') :
    assets layout config year w' = assets layout config year w :=
  List.flatMap_congr fun s _ => scopeAssets_eq h s

def plan (layout : Layout) (config : Config) (year : Nat) (w : Workspace) (es : List Emission) :
    Changes :=
  assets layout config year w ++ libraries layout config year w ++
    modules layout config year w.current es

theorem plan_eq (h : layout.Spares w w') (es : List Emission) :
    plan layout config year w' es = plan layout config year w es := by
  rw [plan, plan, assets_eq h, libraries_eq h, h.current]

theorem prepare_laid (hs : w.Stands layout.root) {u : Unit}
    (h : layout.prepare w = .ok u w') : Laid layout w [] w' := by
  unfold Layout.prepare at h
  obtain ⟨_, v, houtput, hdist⟩ := Action.bind_eq_ok.mp h
  have h₁ := forM_laid (c := fun _ => []) _ (Laid.refl layout w) ?_ houtput
  · have hnil : (Scope.directories.flatMap fun _ => ([] : Changes)) = [] := rfl
    rw [hnil] at h₁
    rw [Layout.dist_eq] at hdist
    exact h₁.trans (makeDirectories_laid (h₁.stands hs) (fun l => Layout.ground_of_dist) hdist)
  · intro s _ before x x' u' hx hmake
    rw [Layout.outputDirectory_eq, Layout.output_along] at hmake
    exact makeDirectories_laid (hx.stands hs) (fun l => Layout.ground_of_output) hmake

def mirror (layout : Layout) (config : Config) (year : Nat) : Action Unit := do
  layout.prepare
  Scope.directories.forM fun scope => do
    let _ ← Asset.copyTree (layout.sourceDirectory scope) (layout.outputDirectory scope) config year

theorem lay_eq (layout : Layout) (config : Config) (year : Nat) :
    lay layout config year = (do
      mirror layout config year
      let _ ← Library.copyAll layout config year) := by
  rw [lay, mirror, bind_assoc]

theorem mirrorScope_laid (hs : w.Stands layout.root) {before : Changes} {v v' : Workspace}
    (hv : Laid layout w before v) {s : Scope} {u : Unit}
    (h : (do
      let _ ← Asset.copyTree (layout.sourceDirectory s) (layout.outputDirectory s) config year
      : Action Unit) v = .ok u v') : Laid layout v (scopeAssets layout config year w s) v' := by
  obtain ⟨_, v₁, hcopy, h⟩ := Action.bind_eq_ok.mp h
  obtain ⟨-, rfl⟩ := Action.pure_eq_ok.mp h
  have hone := copyTree_laid (hv.stands hs) hcopy
  rwa [scopeAssets_eq hv.spares] at hone

theorem mirror_laid (hs : w.Stands layout.root) {u : Unit}
    (h : mirror layout config year w = .ok u w') :
    Laid layout w (assets layout config year w) w' := by
  unfold mirror at h
  obtain ⟨_, v, hprepare, hassets⟩ := Action.bind_eq_ok.mp h
  have hlaid := forM_laid (c := scopeAssets layout config year w) _ (prepare_laid hs hprepare)
    (fun _ _ _ _ _ _ hx hstep => mirrorScope_laid hs hx hstep) hassets
  exact hlaid

theorem lay_laid (hs : w.Stands layout.root) {u : Unit}
    (h : lay layout config year w = .ok u w') :
    Laid layout w (assets layout config year w ++ libraries layout config year w) w' := by
  rw [lay_eq] at h
  obtain ⟨_, v, hassets, h⟩ := Action.bind_eq_ok.mp h
  obtain ⟨paths, v', hlibraries, h⟩ := Action.bind_eq_ok.mp h
  obtain ⟨-, rfl⟩ := Action.pure_eq_ok.mp h
  have h₁ := mirror_laid hs hassets
  have h₂ := copyAll_laid (h₁.stands hs) hlibraries
  rw [libraries_eq h₁.spares] at h₂
  exact h₁.trans h₂

theorem mirror_reaches (hs : w.Stands layout.root) {u : Unit}
    (h : mirror layout config year w = .ok u w') {way : Location} (hscope : InScope way)
    (hplain : way.any Asset.transpiled = false)
    (hfile : w.tree.file? ((Asset.along layout.source way).location w.current) ≠ none) :
    ∃ before v u₁ v', Laid layout w before v ∧
      Asset.copy (Asset.along layout.source way) (Asset.along layout.output way) config year v =
        .ok u₁ v' := by
  obtain ⟨s, hscopes, rest, hne, rfl⟩ := hscope
  unfold mirror at h
  obtain ⟨_, v, hprepare, hassets⟩ := Action.bind_eq_ok.mp h
  obtain ⟨before, v₁, u₁, v₂, hv₁, hstep⟩ := forM_reaches (c := scopeAssets layout config year w) _
    (prepare_laid hs hprepare) (fun _ _ _ _ _ _ hx hstep => mirrorScope_laid hs hx hstep) hassets
    s hscopes
  obtain ⟨_, v₃, hcopy, -⟩ := Action.bind_eq_ok.mp hstep
  obtain ⟨u₂, hcopies⟩ := copyTree_ok (hv₁.stands hs) hcopy
  have hway : rest ∈ assetWays layout v₁ s := by
    rw [assetWays_eq hv₁.spares, assetWays, List.mem_filter, Tree.mem_filesBelow,
      ← Asset.location_along, Layout.sourceDirectory_eq, Asset.along_along]
    rw [List.any_cons, scope_plain] at hplain
    exact ⟨⟨hne, hfile⟩, by simpa using hplain⟩
  obtain ⟨before', v₄, u₃, v₅, hv₄, hone⟩ := forM_reaches (c := fun way =>
      [Asset.copied config year v₁ (Asset.along (layout.sourceDirectory s) way)
        (Asset.along (layout.outputDirectory s) way)]) _ (Laid.refl layout v₁)
    (fun _ _ _ _ _ _ => copyAsset_laid (hv₁.stands hs)) hcopies rest hway
  rw [Layout.sourceDirectory_eq, Layout.outputDirectory_eq, Asset.along_along,
    Asset.along_along] at hone
  exact ⟨_, v₄, u₃, v₅, hv₁.trans hv₄, hone⟩

def runOf (es : List Emission) (elapsed : Option Int) : Run :=
  ⟨es.filterMap Emission.module?, es.flatMap Emission.violations, elapsed⟩

theorem transpile_laid (hs : w.Stands layout.root) (hquiet : toolchain.Quiet layout.tsconfig)
    (hes : ∀ es, toolchain.Emits layout.tsconfig w es → ∀ e ∈ es, ¬ Emission.Upward e.path)
    {r : Run} (h : transpile layout config year toolchain w = .ok r w') :
    ∃ es, toolchain.Emits layout.tsconfig w es ∧ r = runOf es none ∧
      Laid layout w (modules layout config year w.current es) w' := by
  unfold transpile at h
  obtain ⟨⟨es, failure⟩, v, hemitted, h⟩ := Action.bind_eq_ok.mp h
  obtain ⟨run, v', hwritten, h⟩ := Action.bind_eq_ok.mp h
  obtain ⟨htree, hcurrent⟩ := hquiet _ _ _ hemitted
  cases failure with
  | some failure => exact absurd h Action.throw_ne_ok
  | none =>
    obtain ⟨rfl, rfl⟩ := Action.pure_eq_ok.mp h
    have hemits : toolchain.Emits layout.tsconfig w es := ⟨v, hemitted⟩
    have h₁ : Laid layout w [] v := .of_tree layout htree hcurrent
    obtain ⟨hrun, h₂⟩ := writeAll_laid (h₁.stands hs) es (hes es hemits) hwritten
    rw [h₁.current] at h₂
    refine ⟨es, hemits, ?_, h₁.trans h₂⟩
    rw [hrun, foldl_noted]
    rfl

theorem run_laid (hs : w.Stands layout.root) (hquiet : toolchain.Quiet layout.tsconfig)
    (hes : ∀ v es, toolchain.Emits layout.tsconfig v es → ∀ e ∈ es, ¬ Emission.Upward e.path)
    {r : Run} (h : run layout config clock toolchain w = .ok r w') :
    ∃ v es, toolchain.Emits layout.tsconfig v es ∧ r = runOf es r.elapsed ∧
      Laid layout w (plan layout config clock.year w es) w' := by
  unfold run at h
  obtain ⟨_, w₁, hlog, h⟩ := Action.bind_eq_ok.mp h
  obtain ⟨_, w₂, hlay, h⟩ := Action.bind_eq_ok.mp h
  obtain ⟨written, w₃, hwritten, h⟩ := Action.bind_eq_ok.mp h
  obtain ⟨elapsed, w₄, hmeasure, h⟩ := Action.bind_eq_ok.mp h
  obtain ⟨_, w₅, hlog', h⟩ := Action.bind_eq_ok.mp h
  obtain ⟨rfl, rfl⟩ := Action.pure_eq_ok.mp h
  obtain ⟨-, rfl⟩ := Action.ask_eq_ok.mp hmeasure
  have h₁ := log_laid layout hlog
  have h₂ := lay_laid (h₁.stands hs) hlay
  have h₃ := h₁.trans h₂
  obtain ⟨v, c, ⟨es, hemits, hrun, rfl⟩, h₄⟩ := withPlaceholders_laid
    (Q := fun v r c => ∃ es, toolchain.Emits layout.tsconfig v es ∧ r = runOf es none ∧
      c = modules layout config clock.year w.current es)
    (fun v v' r hv hcurrent htranspile => by
      obtain ⟨es, hemits, hrun, hlaid⟩ := transpile_laid hv hquiet (hes v) htranspile
      rw [hcurrent, h₃.current] at hlaid
      exact ⟨_, ⟨es, hemits, hrun, rfl⟩, hlaid⟩) (fun _ h => h) (h₃.stands hs) hwritten
  refine ⟨v, es, hemits, ?_, ?_⟩
  · rw [hrun]
    rfl
  · rw [assets_eq h₁.spares, libraries_eq h₁.spares] at h₃
    simpa [plan] using (h₃.trans h₄).trans (log_laid layout hlog')

theorem run_laid_emitting {es : List Emission} (hs : w.Stands layout.root)
    (hquiet : toolchain.Quiet layout.tsconfig)
    (hemits : ∀ v es', toolchain.Emits layout.tsconfig v es' → es' = es)
    (hup : ∀ e ∈ es, ¬ Emission.Upward e.path) {r : Run}
    (h : run layout config clock toolchain w = .ok r w') :
    r = runOf es r.elapsed ∧ Laid layout w (plan layout config clock.year w es) w' := by
  have hes : ∀ v es', toolchain.Emits layout.tsconfig v es' →
      ∀ e ∈ es', ¬ Emission.Upward e.path := by
    intro v es' he
    rw [hemits v es' he]
    exact hup
  obtain ⟨v, es', he, hrun, hlaid⟩ := run_laid hs hquiet hes h
  rw [hemits v es' he] at hrun hlaid
  exact ⟨hrun, hlaid⟩

/-- A build that succeeds overlays the files of the project with its plan, which
gives something to every location it names and names none outside the output.
Directories are kept, and new ones are in the grounds of the build. The run
lists the modules and the violations of the plan in their order. -/
theorem run_writes_layers (layout : Layout) (config : Config) (clock : Clock)
    (toolchain : Toolchain) (es : List Emission) (w w' : Workspace) (r : Run)
    (hroot : w.Stands layout.root) (hquiet : toolchain.Quiet layout.tsconfig)
    (hemits : ∀ v es', toolchain.Emits layout.tsconfig v es' → es' = es)
    (hup : ∀ e ∈ es, ¬ Emission.Upward e.path)
    (h : run layout config clock toolchain w = .ok r w') :
    (∀ l, w'.tree.file? l = overlay (plan layout config clock.year w es) w.tree.file? l) ∧
      (∀ x ∈ plan layout config clock.year w es, layout.Inside w.current x.1 ∧ x.2.isSome) ∧
      (∀ l, w.tree.get? l = some .directory → w'.tree.get? l = some .directory) ∧
      (∀ l, w'.tree.get? l = some .directory →
        w.tree.get? l = some .directory ∨ layout.Ground w.current l) ∧
      r.modules = es.filterMap Emission.module? ∧
      r.violations = es.flatMap Emission.violations := by
  obtain ⟨hrun, hlaid⟩ := run_laid_emitting hroot hquiet hemits hup h
  refine ⟨hlaid.leads.files, fun x hx => ⟨hlaid.inside x hx, hlaid.filled x hx⟩, hlaid.leads.kept,
    hlaid.leads.added, ?_, ?_⟩
  · rw [hrun]
    rfl
  · rw [hrun]
    rfl

/-! A project with one asset, and a transpiler that emits its runtime and a
declaration. -/

def sampleNote : Location := [Scope.client.name, ⟨"note.txt".toList, by decide⟩]

def sampleTree : Tree :=
  (Except.toOption do
    let t ← Tree.empty.makeDirectory [Layout.sourceName]
    let t ← t.makeDirectory [Layout.sourceName, Scope.client.name]
    t.writeFile (Layout.sourceName :: sampleNote) (Text.encode "note".toList)).getD .empty

def sampleEmissions : List Emission :=
  [⟨"client/lualib_bundle.lua".toList, "return 1".toList, false⟩,
    ⟨"client/note.d.ts".toList, "export {}".toList, true⟩]

def sampleToolchain : Toolchain where
  transpile _ := return ⟨sampleEmissions, none⟩
  declare _ _ := pure ()

def sampleClock : Clock := ⟨2024, ⟨2024, 1, 1, 0, 0, 0, 0⟩, 0⟩

theorem sample_built : ∃ r w',
    run (Layout.choose none none) {} sampleClock sampleToolchain { tree := sampleTree } = .ok r w' ∧
      w'.tree.file? (Layout.mediaName :: Layout.luaName :: sampleNote) =
        some (Text.encode "note".toList) ∧
      r.modules = ["shared/lualib_bundle.lua".toList] ∧ r.violations = [] := by
  have hsuccess : ((run (Layout.choose none none) {} sampleClock sampleToolchain).result?
      { tree := sampleTree }).isSome = true := by
    decide +kernel
  obtain ⟨⟨r, w'⟩, hresult⟩ := Option.isSome_iff_exists.mp hsuccess
  have h := Action.result_eq_some.mp hresult
  obtain ⟨hfiles, -, -, -, hmodules, hviolations⟩ := run_writes_layers _ _ _ _ sampleEmissions
    _ _ _ (by decide +kernel)
    (fun v e v' hv => by obtain ⟨-, rfl⟩ := Action.pure_eq_ok.mp hv; simp)
    (fun v es' ⟨v', hv⟩ => by cases hv; rfl) (by decide) h
  refine ⟨r, w', h, ?_, ?_, ?_⟩
  · rw [hfiles]
    decide +kernel
  · rw [hmodules]
    decide
  · rw [hviolations]
    decide

end Build

end ModBuild
