import ModBuild.Proofs.Layout

/-!
# Copying into the output

A copy gives one location of the output what its source holds, Lua modules
between their banners. What is copied is read outside the output, so copies
that follow each other all read what was there before the first of them. The
assets of a scope are copied file by file, in the order of their ways.
-/

set_option autoImplicit false

namespace ModBuild

def Asset.content? (config : Config) (year : Nat) (destination : Path) (bytes : ByteArray) :
    Option ByteArray :=
  if Banner.applies destination then
    (Text.decode? bytes).bind fun s =>
      (Banner.wrap? config year (Text.unifyBreaks s)).map Text.encode
  else some bytes

def Asset.copied (config : Config) (year : Nat) (w : Workspace) (source destination : Path) :
    Location × Option ByteArray :=
  (destination.location w.current,
    (w.tree.file? (source.location w.current)).bind (content? config year destination))

theorem Asset.copied_congr {w w' : Workspace} (config : Config) (year : Nat) {source : Path}
    (destination : Path) (hc : w'.current = w.current)
    (hf : w'.tree.file? (source.location w.current) = w.tree.file? (source.location w.current)) :
    copied config year w' source destination = copied config year w source destination := by
  rw [copied, copied, hc, hf]

theorem Action.writeText?_ok {w w' : Workspace} {p : Path} {s : Option Text} {u : Unit}
    (h : writeText? p s w = .ok u w') : ∃ t, s = some t ∧
      writeBytes p (Text.encode t) w = .ok u w' := by
  cases s with
  | some t => exact ⟨t, rfl, h⟩
  | none =>
    obtain ⟨_, v, -, h⟩ := bind_eq_ok.mp h
    exact absurd h throw_ne_ok

/-- A copy makes the directories for its destination. Then it reads its source, and it writes what
the bytes are turned into. -/
theorem Asset.copy_steps {w w' : Workspace} {source p : Path} {config : Config} {year : Nat}
    {u : Unit} (h : copy source p config year w = .ok u w') :
    ∃ w₁ w₂ u₁ bytes b, w₁.tree = w.tree ∧ w₁.current = w.current ∧
      Action.makeDirectories p.parent w₁ = .ok u₁ w₂ ∧ w₂.readBytes source = .ok bytes ∧
      content? config year p bytes = some b ∧ Action.writeBytes p b w₂ = .ok u w' := by
  unfold copy at h
  obtain ⟨_, w₁, hlog, h⟩ := Action.bind_eq_ok.mp h
  obtain ⟨u₁, w₂, hmake, h⟩ := Action.bind_eq_ok.mp h
  have hw₁ := Action.log_eq_ok.mp hlog
  refine ⟨w₁, w₂, u₁, ?_⟩
  split at h
  · next happ =>
    obtain ⟨s, w₃, hask, h⟩ := Action.bind_eq_ok.mp h
    obtain ⟨hread, rfl⟩ := Action.ask_eq_ok.mp hask
    obtain ⟨bytes, t, hbytes, ht, rfl⟩ := Workspace.readText_ok hread
    obtain ⟨wrapped, hwrapped, hwrite⟩ := Action.writeText?_ok h
    refine ⟨bytes, Text.encode wrapped, by rw [hw₁], by rw [hw₁], hmake, hbytes, ?_, hwrite⟩
    simp [content?, happ, ht, hwrapped]
  · next happ =>
    obtain ⟨bytes, w₃, hask, h⟩ := Action.bind_eq_ok.mp h
    obtain ⟨hread, rfl⟩ := Action.ask_eq_ok.mp hask
    refine ⟨bytes, bytes, by rw [hw₁], by rw [hw₁], hmake, hread, ?_, h⟩
    simp [content?, happ]

theorem Asset.copied_of_read {w : Workspace} {source p : Path} {config : Config} {year : Nat}
    {bytes b : ByteArray} (hread : w.readBytes source = .ok bytes)
    (hcontent : content? config year p bytes = some b) :
    copied config year w source p = (p.location w.current, some b) := by
  rw [copied, (Workspace.readBytes_ok hread).2, Option.bind_some, hcontent]

theorem Asset.copyTree_steps {w w' : Workspace} {source destination : Path} {config : Config}
    {year : Nat} {paths : List Path}
    (h : copyTree source destination config year w = .ok paths w') :
    ∃ (found : List Location) (u : Unit), w.filesBelow source = .ok found ∧
      paths = (found.filter fun way => !way.any transpiled).map (along destination) ∧
      (found.filter fun way => !way.any transpiled).forM
        (fun way => copy (along source way) (along destination way) config year) w = .ok u w' := by
  unfold copyTree at h
  obtain ⟨found, v, hask, h⟩ := Action.bind_eq_ok.mp h
  obtain ⟨hfound, rfl⟩ := Action.ask_eq_ok.mp hask
  obtain ⟨u, v, hcopy, h⟩ := Action.bind_eq_ok.mp h
  obtain ⟨rfl, rfl⟩ := Action.pure_eq_ok.mp h
  exact ⟨found, u, hfound, rfl, hcopy⟩

namespace Build

structure Laid (layout : Layout) (w : Workspace) (c : Changes) (w' : Workspace) : Prop where
  leads : w.Leads (layout.Ground w.current) c w'
  inside : ∀ x ∈ c, layout.Inside w.current x.1
  filled : ∀ x ∈ c, x.2.isSome

namespace Laid

variable {layout : Layout} {w w' w'' : Workspace} {c c' : Changes}

theorem of_leads (h : w.Leads (layout.Ground w.current) [] w') : Laid layout w [] w' :=
  ⟨h, by simp, by simp⟩

theorem refl (layout : Layout) (w : Workspace) : Laid layout w [] w := of_leads (.refl _ _)

theorem of_tree (layout : Layout) (ht : w'.tree = w.tree) (hc : w'.current = w.current) :
    Laid layout w [] w' := of_leads (.of_tree ht hc)

theorem trans (h : Laid layout w c w') (h' : Laid layout w' c' w'') :
    Laid layout w (c ++ c') w'' := by
  obtain ⟨hl, hi, hf⟩ := h'
  rw [h.leads.current] at hl hi
  refine ⟨h.leads.trans hl, ?_, ?_⟩
  · intro x hx
    exact (List.mem_append.mp hx).elim (h.inside x) (hi x)
  · intro x hx
    exact (List.mem_append.mp hx).elim (h.filled x) (hf x)

theorem stands (h : Laid layout w c w') (hs : w.Stands layout.root) : w'.Stands layout.root :=
  hs.leads h.leads

theorem current (h : Laid layout w c w') : w'.current = w.current := h.leads.current

theorem spares (h : Laid layout w c w') : layout.Spares w w' where
  current := h.current
  file l hl := by
    apply h.leads.file_untouched
    rintro x hx rfl
    exact hl (h.inside x hx)
  entry l hl := by
    apply h.leads.get_untouched _ hl
    rintro x hx rfl
    exact hl (.inl (h.inside x hx))

end Laid

theorem copied_eq {layout : Layout} {w w' : Workspace} (h : layout.Spares w w') (config : Config)
    (year : Nat) {source : Path} (destination : Path)
    (hs : ¬ layout.Inside w.current (source.location w.current)) :
    Asset.copied config year w' source destination =
      Asset.copied config year w source destination :=
  Asset.copied_congr config year destination h.current (h.file _ hs)

/-- An action that is repeated over a list lays what its elements stand for,
counted in the workspace that the first of them finds. -/
theorem forM_laid {α : Type} {layout : Layout} {f : α → Action Unit} {c : α → Changes}
    {w v w' : Workspace} {before : Changes} {u : Unit} (xs : List α)
    (hv : Laid layout w before v)
    (hstep : ∀ x ∈ xs, ∀ before v v' u, Laid layout w before v → f x v = .ok u v' →
      Laid layout v (c x) v')
    (h : xs.forM f v = .ok u w') : Laid layout w (before ++ xs.flatMap c) w' := by
  induction xs generalizing v before with
  | nil =>
    obtain ⟨-, rfl⟩ := Action.pure_eq_ok.mp h
    simpa using hv
  | cons x xs ih =>
    change (f x >>= fun _ => xs.forM f) v = .ok u w' at h
    obtain ⟨u₁, v₁, hx, h⟩ := Action.bind_eq_ok.mp h
    have hv₁ := hv.trans (hstep x (by simp) before v v₁ u₁ hv hx)
    have hrest := ih hv₁ (fun y hy => hstep y (by simp [hy])) h
    rwa [List.append_assoc, ← List.flatMap_cons] at hrest

theorem forM_reaches {α : Type} {layout : Layout} {f : α → Action Unit} {c : α → Changes}
    {w v w' : Workspace} {before : Changes} {u : Unit} (xs : List α)
    (hv : Laid layout w before v)
    (hstep : ∀ x ∈ xs, ∀ before v v' u, Laid layout w before v → f x v = .ok u v' →
      Laid layout v (c x) v')
    (h : xs.forM f v = .ok u w') :
    ∀ x ∈ xs, ∃ before v₁ u₁ v₂, Laid layout w before v₁ ∧ f x v₁ = .ok u₁ v₂ := by
  induction xs generalizing v before with
  | nil => simp
  | cons x xs ih =>
    change (f x >>= fun _ => xs.forM f) v = .ok u w' at h
    obtain ⟨u₁, v₁, hx, h⟩ := Action.bind_eq_ok.mp h
    have hv₁ := hv.trans (hstep x (by simp) before v v₁ u₁ hv hx)
    intro y hy
    rcases List.mem_cons.mp hy with rfl | hy
    · exact ⟨before, v, u₁, v₁, hv, hx⟩
    · exact ih hv₁ (fun z hz => hstep z (by simp [hz])) h y hy

variable {layout : Layout} {config : Config} {year : Nat} {w w' : Workspace}

theorem log_laid (layout : Layout) {level : Level} {m : Text} {cause : Option Failure} {u : Unit}
    (h : Action.log level m cause w = .ok u w') : Laid layout w [] w' := by
  have hw := Action.log_eq_ok.mp h
  exact .of_tree layout (by rw [hw]) (by rw [hw])

theorem makeDirectories_laid (hs : w.Stands layout.root) {way : Location} {u : Unit}
    (hg : ∀ l, Action.OnWay (layout.root.location w.current) way l → layout.Ground w.current l)
    (h : Action.makeDirectories (Asset.along layout.root way) w = .ok u w') :
    Laid layout w [] w' := by
  have hl := Action.makeDirectories_leads hs way
  rw [Action.final_of_ok h] at hl
  exact .of_leads (hl.mono hg)

theorem makeParent_laid (hs : w.Stands layout.root) (way : Location) {u : Unit}
    (h : Action.makeDirectories (Asset.along layout.output way).parent w = .ok u w') :
    Laid layout w [] w' := by
  rw [Layout.output_along, Asset.parent_along _ _ (by simp)] at h
  apply makeDirectories_laid hs _ h
  rintro l ⟨a, ha, hp, rfl⟩
  exact Layout.ground_of_output ⟨a, ha, hp.trans (List.dropLast_prefix _), rfl⟩

theorem writeBytes_laid {way : Location} {b : ByteArray} {u : Unit}
    (h : Action.writeBytes (Asset.along layout.output way) b w = .ok u w') :
    Laid layout w [((Asset.along layout.output way).location w.current, some b)] w' := by
  refine ⟨(Action.writeBytes_ok h).2, ?_, by simp⟩
  simpa using Layout.inside_along layout w.current way

theorem writeText_laid {way : Location} {s : Option Text} {u : Unit}
    (h : Action.writeText? (Asset.along layout.output way) s w = .ok u w') :
    s.isSome ∧ Laid layout w
      [((Asset.along layout.output way).location w.current, s.map Text.encode)] w' := by
  obtain ⟨t, rfl, hwrite⟩ := Action.writeText?_ok h
  exact ⟨rfl, writeBytes_laid hwrite⟩

theorem copy_laid (hs : w.Stands layout.root) {source : Path} {way : Location} {u : Unit}
    (h : Asset.copy source (Asset.along layout.output way) config year w = .ok u w') :
    Laid layout w [Asset.copied config year w source (Asset.along layout.output way)] w' := by
  obtain ⟨w₁, w₂, u₁, bytes, b, htree, hcurrent, hmake, hread, hcontent, hwrite⟩ :=
    Asset.copy_steps h
  have h₁ : Laid layout w [] w₁ := .of_tree layout htree hcurrent
  have h₂ : Laid layout w [] w₂ := h₁.trans (makeParent_laid (h₁.stands hs) _ hmake)
  have hcopy := writeBytes_laid hwrite
  rw [← Asset.copied_of_read hread hcontent, Asset.copied_congr config year _ h₂.current
    (h₂.leads.file_untouched (by simp))] at hcopy
  exact h₂.trans hcopy

def assetWays (layout : Layout) (w : Workspace) (s : Scope) : List Location :=
  (w.tree.filesBelow ((layout.sourceDirectory s).location w.current)).filter fun way =>
    !way.any Asset.transpiled

def scopeAssets (layout : Layout) (config : Config) (year : Nat) (w : Workspace) (s : Scope) :
    Changes :=
  (assetWays layout w s).map fun way =>
    Asset.copied config year w (Asset.along (layout.sourceDirectory s) way)
      (Asset.along (layout.outputDirectory s) way)

theorem source_outside (layout : Layout) (current : Location) (s : Scope) (way : Location) :
    ¬ layout.Inside current ((Asset.along (layout.sourceDirectory s) way).location current) := by
  rw [Layout.sourceDirectory_eq, Layout.source_eq, Asset.along_along, Asset.along_along,
    Asset.location_along]
  exact Layout.not_inside (by decide) _

theorem assetWays_eq (h : layout.Spares w w') (s : Scope) :
    assetWays layout w' s = assetWays layout w s := by
  rw [assetWays, assetWays, h.current]
  congr 1
  apply Tree.filesBelow_congr
  intro way
  apply h.file
  rw [← Asset.location_along]
  exact source_outside layout _ s way

theorem scopeAssets_eq (h : layout.Spares w w') (s : Scope) :
    scopeAssets layout config year w' s = scopeAssets layout config year w s := by
  rw [scopeAssets, scopeAssets, assetWays_eq h]
  apply List.map_congr_left
  intro way _
  exact copied_eq h config year _ (source_outside layout _ s way)

theorem assetWays_found (hs : w.Stands layout.root) {s : Scope} {ways : List Location}
    (h : w.filesBelow (layout.sourceDirectory s) = .ok ways) :
    (ways.filter fun way => !way.any Asset.transpiled) = assetWays layout w s := by
  have hdir : layout.sourceDirectory s =
      Asset.along layout.root [Layout.sourceName, s.name] := by
    rw [Layout.sourceDirectory_eq, Layout.source_along]
  have hnull : '\x00' ∉ (Asset.along layout.root [Layout.sourceName, s.name]).print :=
    Asset.null_along (Workspace.resolve_ok hs.resolve).1 (by cases s <;> decide)
  rw [hdir] at h
  have hfiles := Workspace.filesBelow_along hs _ hnull h
  rw [← Asset.location_along, ← hdir] at hfiles
  rw [assetWays, hfiles]

theorem copyTree_ok (hs : w.Stands layout.root) {s : Scope} {paths : List Path}
    (h : Asset.copyTree (layout.sourceDirectory s) (layout.outputDirectory s) config year w =
      .ok paths w') :
    ∃ u, ((assetWays layout w s).forM fun way =>
      Asset.copy (Asset.along (layout.sourceDirectory s) way)
        (Asset.along (layout.outputDirectory s) way) config year) w = .ok u w' := by
  obtain ⟨found, u, hfound, -, hcopy⟩ := Asset.copyTree_steps h
  rw [assetWays_found hs hfound] at hcopy
  exact ⟨u, hcopy⟩

theorem copyAsset_laid (hs : w.Stands layout.root) {s : Scope} {before : Changes} {way : Location}
    {v v' : Workspace} {u : Unit} (hv : Laid layout w before v)
    (h : Asset.copy (Asset.along (layout.sourceDirectory s) way)
      (Asset.along (layout.outputDirectory s) way) config year v = .ok u v') :
    Laid layout v [Asset.copied config year w (Asset.along (layout.sourceDirectory s) way)
      (Asset.along (layout.outputDirectory s) way)] v' := by
  rw [Layout.outputDirectory_eq, Asset.along_along] at h ⊢
  have hone := copy_laid (hv.stands hs) h
  rwa [copied_eq hv.spares config year _ (source_outside layout _ s way)] at hone

theorem copyTree_laid (hs : w.Stands layout.root) {s : Scope} {paths : List Path}
    (h : Asset.copyTree (layout.sourceDirectory s) (layout.outputDirectory s) config year w =
      .ok paths w') :
    Laid layout w (scopeAssets layout config year w s) w' := by
  obtain ⟨u, hcopy⟩ := copyTree_ok hs h
  have hlaid := forM_laid (c := fun way =>
      [Asset.copied config year w (Asset.along (layout.sourceDirectory s) way)
        (Asset.along (layout.outputDirectory s) way)]) _ (Laid.refl layout w)
    (fun _ _ _ _ _ _ => copyAsset_laid hs) hcopy
  rwa [List.nil_append, ← List.map_eq_flatMap] at hlaid

end Build

end ModBuild
