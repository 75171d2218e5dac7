import ModBuild.Proofs.Watch.Convergence

/-!
# Deletions and what is still built

A place of the output can belong to an asset, to a library or to a compiled
module, and two sources can share one. The answer to a deletion does not ask who
else a place belongs to, so it takes something away that the next build brings
back exactly where the deleted path overlaps with what remains.
-/

set_option autoImplicit false

namespace ModBuild.Watch

open Asset (along)

def Compiled (layout : Layout) (w : Workspace) (way : Location) : Prop :=
  Build.InScope way ∧ w.tree.file? ((along layout.source way).location w.current) ≠ none ∧
    ∃ dir n, way = dir ++ [n] ∧ Text.endsWith Asset.typeScriptExtension n.text = true ∧
      Text.endsWith Emission.declarationExtension n.text = false

def moduleWay (way : Location) : Location :=
  way.dropLast ++ (way.getLast?.map moduleName).toList

def modulePath (way : Location) : Text := Text.join ['/'] ((moduleWay way).map Name.text)

def moduleTarget (layout : Layout) (way : Location) : Path :=
  layout.output / Emission.outputPath (modulePath way)

structure Compiles (layout : Layout) (w : Workspace) (es : List Emission) : Prop where
  sound : ∀ e ∈ es, ∃ way, Compiled layout w way ∧ e.path = modulePath way ∧ e.text ≠ [] ∧
    e.isDeclaration = false
  complete : ∀ way, Compiled layout w way → ∃ e ∈ es, e.path = modulePath way

theorem outputPath_lua {path : Text} (h : ".lua".toList <:+ path) :
    ¬ Emission.declarationExtension <:+ Emission.outputPath path := by
  rw [Emission.outputPath]
  split
  · decide
  · intro hd
    have hslashed : Emission.declarationExtension <:+ Emission.slashed path :=
      (hd.trans (List.dropWhile_suffix _)).trans (Emission.dropDots_suffix _)
    have hlua : ".lua".toList <:+ Emission.slashed path := by
      obtain ⟨a, rfl⟩ := h
      rw [Emission.slashed, List.map_append]
      exact List.suffix_append _ _
    obtain ⟨a, ha⟩ := hslashed
    obtain ⟨b, hb⟩ := hlua
    have hlast := congrArg List.getLast? (ha.trans hb.symm)
    simp [Emission.declarationExtension] at hlast

theorem modulePath_lua {way : Location} (h : way ≠ []) : ".lua".toList <:+ modulePath way := by
  obtain ⟨dir, n, rfl⟩ := (List.eq_nil_or_concat' way).resolve_left h
  have hway : moduleWay (dir ++ [n]) = dir ++ [moduleName n] := by
    simp [moduleWay]
  rw [modulePath, hway, List.map_append]
  have hjoin (ps : List Text) (p : Text) : p <:+ Text.join ['/'] (ps ++ [p]) := by
    induction ps with
    | nil => simp [Text.join]
    | cons q ps ih =>
      cases hps : ps ++ [p] with
      | nil => simp at hps
      | cons t ts =>
        rw [hps] at ih
        rw [List.cons_append, hps, Text.join, List.intercalate_cons_cons]
        exact ih.trans (List.suffix_append _ _)
  have hname : ".lua".toList <:+ (moduleName n).text := List.suffix_append _ _
  exact hname.trans (hjoin _ _)

theorem Compiles.module_eq {layout : Layout} {w : Workspace} {es : List Emission}
    (h : Compiles layout w es) {e : Emission} (he : e ∈ es) :
    e.module? = some (Emission.outputPath e.path) := by
  obtain ⟨way, ⟨⟨s, -, rest, -, rfl⟩, -⟩, hpath, htext, hdeclaration⟩ := h.sound e he
  have hd := outputPath_lua (modulePath_lua (List.cons_ne_nil s.name rest))
  rw [← hpath] at hd
  exact Emission.module?_eq_some_iff.mpr ⟨htext, hdeclaration, hd, rfl⟩

inductive Owned (layout : Layout) (config : Config) (year : Nat) (w : Workspace) (l : Location) :
    Prop
  | asset {way : Location} (hscope : Build.InScope way)
      (hplain : way.any Asset.transpiled = false)
      (hfile : w.tree.file? ((along layout.source way).location w.current) ≠ none)
      (hl : (along layout.output way).location w.current = l)
  | library {x : Location × Option ByteArray} (hx : x ∈ Build.libraries layout config year w)
      (hl : x.1 = l)
  | module {way : Location} (hway : Compiled layout w way)
      (hl : (moduleTarget layout way).location w.current = l)

section

variable {steps : Steps} {layout : Layout} {config : Config} {year : Nat} {clock : Clock}
  {toolchain : Toolchain} {r r' : Responder} {e : Event} {es : List Emission}
  {w w' w₂ : Workspace} {x : Option Run} {l : Location}

theorem plan_owned (hcompiles : Compiles layout w es) :
    (∃ x ∈ Build.plan layout config year w es, x.1 = l) ↔ Owned layout config year w l := by
  constructor
  · rintro ⟨x, hx, rfl⟩
    rcases List.mem_append.mp hx with hx | hx
    · rcases List.mem_append.mp hx with hx | hx
      · obtain ⟨way, hscope, hplain, hfile, rfl⟩ := (Build.mem_assets x).mp hx
        exact .asset hscope hplain hfile rfl
      · exact .library hx rfl
    · obtain ⟨e, he, hx⟩ := List.mem_filterMap.mp hx
      rw [hcompiles.module_eq he] at hx
      obtain rfl := Option.some.inj hx
      obtain ⟨way, hway, hpath, -, -⟩ := hcompiles.sound e he
      exact .module hway (by rw [hpath]; rfl)
  · intro h
    rw [Build.plan]
    cases h with
    | asset hscope hplain hfile hl =>
      refine ⟨_, List.mem_append_left _ (List.mem_append_left _ ((Build.mem_assets _).mpr
        ⟨_, hscope, hplain, hfile, rfl⟩)), hl⟩
    | library hx hl => exact ⟨_, List.mem_append_left _ (List.mem_append_right _ hx), hl⟩
    | module hway hl =>
      obtain ⟨e, he, hpath⟩ := hcompiles.complete _ hway
      refine ⟨((layout.output / Emission.outputPath e.path).location w.current,
          (Emission.process (Emission.outputPath e.path) e.text config year).text.map
            Text.encode),
        List.mem_append_right _ (List.mem_filterMap.mpr ⟨e, he, ?_⟩), ?_⟩
      · rw [hcompiles.module_eq he]
        rfl
      · rw [hpath]
        exact hl

theorem built_owned (hcompiles : Compiles layout w es)
    (hlaid : Build.Laid layout w' (Build.plan layout config year w es) w₂)
    (hgone : w'.tree.file? l = none) :
    w₂.tree.file? l ≠ none ↔ Owned layout config year w l := by
  rw [← plan_owned hcompiles, hlaid.leads.files]
  constructor
  · intro h
    by_contra hno
    apply h
    rw [overlay_untouched _ _ l fun x hx he => hno ⟨x, hx, he⟩, hgone]
  · intro h
    obtain ⟨x, hx, -, hlast⟩ := overlay_at _ w'.tree.file? l h
    rw [hlast, ← Option.isSome_iff_ne_none]
    exact hlaid.filled x hx

/-- How a deleted path overlaps with what remains: the place that it takes away
belongs to an asset beside a deleted TypeScript source, to a library or to a
module of another source, or it takes away a directory that holds such a place. -/
inductive Overlap (layout : Layout) (config : Config) (year : Nat) (w : Workspace) (e : Event) :
    Prop
  | asset {own way : Location} (hk : e.kind = .unlink)
      (hown : eventWay? layout w.current e = some own) (hremoved : removedWay? own = some way)
      (hthere : w.isFile (along layout.output way) = .ok true) (hother : way ≠ own)
      (hscope : Build.InScope way) (hplain : way.any Asset.transpiled = false)
      (hfile : w.tree.file? ((along layout.source way).location w.current) ≠ none)
  | library {own way : Location} {x : Location × Option ByteArray} (hk : e.kind = .unlink)
      (hown : eventWay? layout w.current e = some own) (hremoved : removedWay? own = some way)
      (hthere : w.isFile (along layout.output way) = .ok true)
      (hx : x ∈ Build.libraries layout config year w)
      (hl : x.1 = (along layout.output way).location w.current)
  | module {own way source : Location} (hk : e.kind = .unlink)
      (hown : eventWay? layout w.current e = some own) (hremoved : removedWay? own = some way)
      (hthere : w.isFile (along layout.output way) = .ok true)
      (hsource : Compiled layout w source)
      (hl : (moduleTarget layout source).location w.current =
        (along layout.output way).location w.current)
  | libraryBelow {own : Location} {x : Location × Option ByteArray} (hk : e.kind = .unlinkDir)
      (hown : eventWay? layout w.current e = some own)
      (hthere : w.isDirectory (along layout.output own) = .ok true)
      (hx : x ∈ Build.libraries layout config year w) (hfile : w.tree.file? x.1 ≠ none)
      (hl : (along layout.output own).location w.current <+: x.1)
  | moduleBelow {own source : Location} (hk : e.kind = .unlinkDir)
      (hown : eventWay? layout w.current e = some own)
      (hthere : w.isDirectory (along layout.output own) = .ok true)
      (hsource : Compiled layout w source)
      (hfile : w.tree.file? ((moduleTarget layout source).location w.current) ≠ none)
      (hl : (along layout.output own).location w.current <+:
        (moduleTarget layout source).location w.current)

theorem changed_of_taken {p : Prop} [Decidable p]
    (hget : w'.tree.get? l = if p then none else w.tree.get? l) :
    (w.tree.file? l ≠ none ∧ w'.tree.file? l = none) ↔ p ∧ w.tree.file? l ≠ none := by
  by_cases hp : p
  · rw [if_pos hp] at hget
    simp [Tree.file?, hget, hp, Entry.bytes?]
  · rw [if_neg hp] at hget
    simp [Tree.file?, hget, hp]

theorem taken_unlink (hlayout : r.layout = layout) (hk : e.kind = .unlink)
    (h : r.respond steps e w = .ok (r', .ok x) w') :
    (w.tree.file? l ≠ none ∧ w'.tree.file? l = none) ↔
      ∃ own way, eventWay? layout w.current e = some own ∧ removedWay? own = some way ∧
        w.isFile (along layout.output way) = .ok true ∧
        (along layout.output way).location w.current = l := by
  obtain ⟨-, ⟨rfl, hno⟩ | ⟨own, way, hown, hremoved, hf, -, hget⟩⟩ :=
    respond_unlink hlayout hk h
  · constructor
    · intro hl
      exact absurd hl.2 hl.1
    · rintro ⟨own, way, hown, hremoved, hf, -⟩
      rw [hno own way hown hremoved] at hf
      cases hf
  · rw [changed_of_taken (hget l)]
    constructor
    · intro hl
      exact ⟨own, way, hown, hremoved, hf, hl.1⟩
    · rintro ⟨own', way', hown', hremoved', hf', hl⟩
      rw [hown] at hown'
      cases hown'
      rw [hremoved] at hremoved'
      cases hremoved'
      obtain ⟨-, bytes, hget⟩ := Workspace.file_of_isFile hf
      constructor
      · exact hl
      · rw [← hl, Tree.file?, hget]
        simp [Entry.bytes?]

theorem taken_unlinkDir (hlayout : r.layout = layout) (hk : e.kind = .unlinkDir)
    (h : r.respond steps e w = .ok (r', .ok x) w') :
    (w.tree.file? l ≠ none ∧ w'.tree.file? l = none) ↔
      ∃ own, eventWay? layout w.current e = some own ∧
        w.isDirectory (along layout.output own) = .ok true ∧
        (along layout.output own).location w.current <+: l ∧ w.tree.file? l ≠ none := by
  obtain ⟨-, ⟨rfl, hno⟩ | ⟨own, hown, hd, -, hget⟩⟩ := respond_unlinkDir hlayout hk h
  · constructor
    · intro hl
      exact absurd hl.2 hl.1
    · rintro ⟨own, hown, hd, -⟩
      rw [hno own hown] at hd
      cases hd
  · rw [changed_of_taken (hget l)]
    constructor
    · intro hl
      exact ⟨own, hown, hd, hl⟩
    · rintro ⟨own', hown', -, hl⟩
      rw [hown] at hown'
      cases hown'
      exact hl

theorem overlap_of_file {own way : Location} (hk : e.kind = .unlink)
    (hown : eventWay? layout w.current e = some own)
    (hgone : w.tree.get? ((along layout.source own).location w.current) = none)
    (hremoved : removedWay? own = some way) (hf : w.isFile (along layout.output way) = .ok true)
    (howned : Owned layout config year w ((along layout.output way).location w.current)) :
    Overlap layout config year w e := by
  cases howned with
  | @asset way' hscope hplain hfile hl =>
    obtain rfl := Asset.way_of_location hl
    refine .asset hk hown hremoved hf ?_ hscope hplain hfile
    rintro rfl
    rw [Tree.file?, hgone] at hfile
    exact hfile rfl
  | library hx hl => exact .library hk hown hremoved hf hx hl
  | module hway hl => exact .module hk hown hremoved hf hway hl

theorem overlap_of_directory {own : Location} (hk : e.kind = .unlinkDir)
    (hown : eventWay? layout w.current e = some own)
    (hgone : w.tree.get? ((along layout.source own).location w.current) = none)
    (hd : w.isDirectory (along layout.output own) = .ok true)
    (hl : (along layout.output own).location w.current <+: l) (hfile : w.tree.file? l ≠ none)
    (howned : Owned layout config year w l) : Overlap layout config year w e := by
  cases howned with
  | @asset way hscope hplain hsource hway =>
    rw [← hway, Asset.location_along, Asset.location_along, List.prefix_append_right_inj] at hl
    obtain ⟨rest, rfl⟩ := hl
    -- the asset would be below a path that is gone
    rw [← Asset.along_along, Asset.location_along] at hsource
    by_cases hrest : rest = []
    · rw [hrest, List.append_nil, Tree.file?, hgone] at hsource
      exact absurd rfl hsource
    · rw [Tree.file?, Tree.get_below_none hrest (by rw [hgone]; simp)] at hsource
      exact absurd rfl hsource
  | library hx hxl =>
    subst hxl
    exact .libraryBelow hk hown hd hx hfile hl
  | module hway hxl =>
    subst hxl
    exact .moduleBelow hk hown hd hway hfile hl

theorem file_of_overlap (hk : e.kind = .unlink) (h : Overlap layout config year w e) :
    ∃ own way, eventWay? layout w.current e = some own ∧ removedWay? own = some way ∧
      w.isFile (along layout.output way) = .ok true ∧
      Owned layout config year w ((along layout.output way).location w.current) := by
  cases h with
  | asset _ hown hremoved hf _ hscope hplain hfile =>
    exact ⟨_, _, hown, hremoved, hf, .asset hscope hplain hfile rfl⟩
  | library _ hown hremoved hf hx hl => exact ⟨_, _, hown, hremoved, hf, .library hx hl⟩
  | module _ hown hremoved hf hsource hl =>
    exact ⟨_, _, hown, hremoved, hf, .module hsource hl⟩
  | libraryBelow hk' => rw [hk] at hk'; cases hk'
  | moduleBelow hk' => rw [hk] at hk'; cases hk'

theorem directory_of_overlap (hk : e.kind = .unlinkDir) (h : Overlap layout config year w e) :
    ∃ own l, eventWay? layout w.current e = some own ∧
      w.isDirectory (along layout.output own) = .ok true ∧
      (along layout.output own).location w.current <+: l ∧ w.tree.file? l ≠ none ∧
      Owned layout config year w l := by
  cases h with
  | asset hk' => rw [hk] at hk'; cases hk'
  | library hk' => rw [hk] at hk'; cases hk'
  | module hk' => rw [hk] at hk'; cases hk'
  | libraryBelow _ hown hd hx hfile hl => exact ⟨_, _, hown, hd, hl, hfile, .library hx rfl⟩
  | moduleBelow _ hown hd hsource hfile hl =>
    exact ⟨_, _, hown, hd, hl, hfile, .module hsource rfl⟩

end

/-- The answer to the deletion of a path that is gone from the sources takes away
something that a build of what remains brings back, if and only if the path
overlaps with what remains. -/
theorem deletion_destroys_iff (steps : Steps) (layout : Layout) (config : Config) (clock : Clock)
    (toolchain : Toolchain) (es : List Emission) (r r' : Responder) (e : Event) (x : Option Run)
    (run : Run) (w w' w₂ : Workspace) (hlayout : r.layout = layout) (hk : e.Removes)
    (hroot : w'.Stands layout.root)
    (hgone : ∀ own, eventWay? layout w.current e = some own →
      w.tree.get? ((along layout.source own).location w.current) = none)
    (hquiet : toolchain.Quiet layout.tsconfig)
    (hemits : ∀ v es', toolchain.Emits layout.tsconfig v es' → es' = es)
    (hcompiles : Compiles layout w es) (hup : ∀ e ∈ es, ¬ Emission.Upward e.path)
    (h : r.respond steps e w = .ok (r', .ok x) w')
    (hbuild : Build.run layout config clock toolchain w' = .ok run w₂) :
    (∃ l, w.tree.file? l ≠ none ∧ w'.tree.file? l = none ∧ w₂.tree.file? l ≠ none) ↔
      Overlap layout config clock.year w e := by
  have hlaid := (Build.run_laid_emitting hroot hquiet hemits hup hbuild).2
  rw [Build.plan_eq (respond_shrinks hlayout hk h).2.spares] at hlaid
  have htaken (l : Location) : (w.tree.file? l ≠ none ∧ w'.tree.file? l = none ∧
      w₂.tree.file? l ≠ none) ↔ (w.tree.file? l ≠ none ∧ w'.tree.file? l = none) ∧
        Owned layout config clock.year w l := by
    rw [← and_assoc]
    exact and_congr_right fun hl => built_owned hcompiles hlaid hl.2
  have hgoal : (∃ l, w.tree.file? l ≠ none ∧ w'.tree.file? l = none ∧ w₂.tree.file? l ≠ none) ↔
      ∃ l, (w.tree.file? l ≠ none ∧ w'.tree.file? l = none) ∧
        Owned layout config clock.year w l := exists_congr htaken
  rw [hgoal]
  rcases hk with hk | hk
  · simp only [taken_unlink hlayout hk h]
    constructor
    · rintro ⟨l, ⟨own, way, hown, hremoved, hf, rfl⟩, howned⟩
      exact overlap_of_file hk hown (hgone own hown) hremoved hf howned
    · intro hoverlap
      obtain ⟨own, way, hown, hremoved, hf, howned⟩ := file_of_overlap hk hoverlap
      exact ⟨_, ⟨own, way, hown, hremoved, hf, rfl⟩, howned⟩
  · simp only [taken_unlinkDir hlayout hk h]
    constructor
    · rintro ⟨l, ⟨own, hown, hd, hprefix, hfile⟩, howned⟩
      exact overlap_of_directory hk hown (hgone own hown) hd hprefix hfile howned
    · intro hoverlap
      obtain ⟨own, l, hown, hd, hprefix, hfile, howned⟩ := directory_of_overlap hk hoverlap
      exact ⟨l, ⟨own, hown, hd, hprefix, hfile⟩, howned⟩

/-! The sample project after its module was copied, and a transpiler that finds
nothing to compile there. -/

def sampleCopied : Workspace where
  tree := (Except.toOption do
    let t ← sampleProject.tree.makeDirectory [Layout.mediaName]
    let t ← t.makeDirectory [Layout.mediaName, Layout.luaName]
    let t ← t.makeDirectory [Layout.mediaName, Layout.luaName, Scope.client.name]
    t.writeFile (Layout.mediaName :: Layout.luaName :: sampleModule)
      (Text.encode "return 1".toList)).getD .empty

def sampleIdle : Toolchain where
  transpile _ := return ⟨[], none⟩
  declare _ _ := pure ()

def sampleDeletion : Event := ⟨.unlink, "src/client/note.ts".toList⟩

theorem sample_compiles : Compiles sampleLayout sampleCopied [] where
  sound := by simp
  complete way hway := by
    obtain ⟨⟨s, -, rest, -, rfl⟩, hfile, dir, n, hn, hts, -⟩ := hway
    have hfiles : sampleCopied.tree.filesBelow
        (sampleLayout.source.location sampleCopied.current) = [sampleModule] := by decide +kernel
    have hmem : s.name :: rest ∈ sampleCopied.tree.filesBelow
        (sampleLayout.source.location sampleCopied.current) := by
      rw [Tree.mem_filesBelow, ← Asset.location_along]
      exact ⟨by simp, hfile⟩
    rw [hfiles, List.mem_singleton] at hmem
    have hlast := congrArg List.getLast? (hn.symm.trans hmem)
    rw [List.getLast?_concat] at hlast
    obtain rfl := Option.some.inj hlast
    exact absurd hts (by decide)

theorem sample_answered : ∃ r' x w' run w₂,
    sampleResponder.respond sampleSteps sampleDeletion sampleCopied = .ok (r', .ok x) w' ∧
      w'.Stands sampleLayout.root ∧
      Build.run sampleLayout {} Build.sampleClock sampleIdle w' = .ok run w₂ ∧
      w'.tree.file? (Layout.mediaName :: Layout.luaName :: sampleModule) = none ∧
      w₂.tree.file? (Layout.mediaName :: Layout.luaName :: sampleModule) ≠ none := by
  have hrun : ((answers sampleSteps sampleResponder sampleCopied [sampleDeletion]).any fun x =>
      decide (x.2.Stands sampleLayout.root) &&
        decide (x.2.tree.file? (Layout.mediaName :: Layout.luaName :: sampleModule) = none) &&
        ((Build.run sampleLayout {} Build.sampleClock sampleIdle).result? x.2).any fun y =>
          decide (y.2.tree.file? (Layout.mediaName :: Layout.luaName :: sampleModule) ≠ none)) =
      true := by
    decide +kernel
  obtain ⟨⟨r', w'⟩, hanswers, hrun⟩ := (Option.any_eq_true _ _).mp hrun
  simp only [Bool.and_eq_true, decide_eq_true_eq] at hrun
  obtain ⟨⟨hroot, hgone⟩, hbuilt⟩ := hrun
  obtain ⟨⟨run, w₂⟩, hresult, hback⟩ := (Option.any_eq_true _ _).mp hbuilt
  rw [decide_eq_true_eq] at hback
  have hbuild := Action.result_eq_some.mp hresult
  cases handled_of_answers hanswers with
  | cons hrespond hrest =>
    cases hrest
    exact ⟨_, _, _, run, w₂, hrespond, hroot, hbuild, hgone, hback⟩

/-- A TypeScript source is deleted beside a module of the same name, which loses
its copy until the next build. -/
theorem sample_asset_destroyed : ∃ r' x w' run w₂,
    sampleCopied.isFile (along sampleLayout.source sampleModule) = .ok true ∧
      sampleCopied.occupied (sampleLayout.source / "client/note.ts".toList) = .ok false ∧
      Compiles sampleLayout sampleCopied [] ∧
      sampleResponder.respond sampleSteps sampleDeletion sampleCopied = .ok (r', .ok x) w' ∧
      Build.run sampleLayout {} Build.sampleClock sampleIdle w' = .ok run w₂ ∧
      ∃ l, sampleCopied.tree.file? l ≠ none ∧ w'.tree.file? l = none ∧ w₂.tree.file? l ≠ none := by
  obtain ⟨r', x, w', run, w₂, hrespond, -, hbuild, hgone, hback⟩ := sample_answered
  exact ⟨r', x, w', run, w₂, by decide +kernel, by decide +kernel, sample_compiles, hrespond,
    hbuild, _, by decide +kernel, hgone, hback⟩

theorem sample_deletion_overlaps :
    Overlap sampleLayout {} Build.sampleClock.year sampleCopied sampleDeletion := by
  obtain ⟨r', x, w', run, w₂, hrespond, hroot, hbuild, hgone, hback⟩ := sample_answered
  have hsource : (eventWay? sampleLayout [] sampleDeletion).all (fun own =>
      decide (sampleCopied.tree.get? ((along sampleLayout.source own).location []) = none)) =
        true := by
    decide +kernel
  refine (deletion_destroys_iff sampleSteps sampleLayout {} Build.sampleClock sampleIdle []
    sampleResponder r' sampleDeletion x run sampleCopied w' w₂ rfl (.inl rfl) hroot
    (fun own hown => ?_)
    (fun v emitted v' h => by obtain ⟨-, rfl⟩ := Action.pure_eq_ok.mp h; exact ⟨rfl, rfl⟩)
    (fun v es ⟨v', h⟩ => by cases h; rfl) sample_compiles (by simp) hrespond hbuild).mp
    ⟨Layout.mediaName :: Layout.luaName :: sampleModule, by decide +kernel, hgone, hback⟩
  change eventWay? sampleLayout [] sampleDeletion = some own at hown
  rw [hown, Option.all_some, decide_eq_true_eq] at hsource
  exact hsource

end ModBuild.Watch
