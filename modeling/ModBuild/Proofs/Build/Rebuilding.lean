import ModBuild.Proofs.Build.Placeholders
import ModBuild.Proofs.Build.Repeatable

/-!
# Building again

A build can be repeated from where it ended. Nothing that it writes is read by the
next one, and what it found free is free again when it has ended, so every part of it
goes through as before. What the second build writes is what the first one wrote.
-/

set_option autoImplicit false

namespace ModBuild

/-- A transpiler that emits the same wherever it is asked, and leaves the project
alone. -/
def Toolchain.Steady (toolchain : Toolchain) (tsconfig : Path) (es : List Emission) : Prop :=
  ∀ v, ∃ v', toolchain.transpile tsconfig v = .ok ⟨es, none⟩ v' ∧ v'.tree = v.tree ∧
    v'.current = v.current

namespace Toolchain.Steady

variable {toolchain : Toolchain} {tsconfig : Path} {es : List Emission}

theorem quiet (h : toolchain.Steady tsconfig es) : toolchain.Quiet tsconfig := by
  intro v emitted v' hv
  obtain ⟨u, hu, htree, hcurrent⟩ := h v
  rw [hv] at hu
  cases hu
  exact ⟨htree, hcurrent⟩

theorem emits (h : toolchain.Steady tsconfig es) {v : Workspace} {es' : List Emission}
    (hv : toolchain.Emits tsconfig v es') : es' = es := by
  obtain ⟨v', hv⟩ := hv
  obtain ⟨u, hu, -⟩ := h v
  rw [hv] at hu
  cases hu
  rfl

end Toolchain.Steady

namespace Build

open ModBuild.Action
open ModBuild.Workspace (Marked)
open Asset (along along_along location_along)

variable {layout : Layout} {config : Config} {year : Nat}

theorem prepare_repeatable (layout : Layout) : Repeatable layout layout.prepare := by
  refine .bind (.forM _ fun s _ => ?_) fun _ _ => ?_
  · rw [Layout.outputDirectory_eq, Layout.output_along]
    exact .makeDirectories fun _ _ => Layout.ground_of_output
  · rw [Layout.dist_eq]
    exact .makeDirectories fun _ _ => Layout.ground_of_dist

theorem copyTree_repeatable (s : Scope) : Repeatable layout
    (Asset.copyTree (layout.sourceDirectory s) (layout.outputDirectory s) config year) := by
  refine .bind ?_ fun _ _ => .bind (.forM _ fun way _ => ?_) fun _ _ => .pure layout _
  · rw [Layout.sourceDirectory_eq, Layout.source_along]
    refine .filesBelow (by cases s <;> decide) fun current more => ?_
    rw [List.append_assoc]
    exact Layout.not_inside (by decide) _
  · rw [Layout.outputDirectory_eq, along_along]
    exact .copy (fun current => source_outside layout current s way) _ _ _

theorem latest_repeatable {library : Text} (hl : library ∈ Library.names) :
    Repeatable layout (Library.latest? layout.typings library) := by
  obtain ⟨n, rfl, hn, hnull⟩ := library_along layout hl
  have hshort : ∀ t ∈ Library.names, Tree.byteLength t ≤ Tree.nameLimit := by decide
  have hfits : ∀ m ∈ [Layout.typingsName, n], m.Fits := by
    simpa using ⟨by decide, hnull, hshort _ hl⟩
  refine .bind ?_ fun _ _ => ?_
  · rw [hn]
    refine .below hfits fun current more hmore => ?_
    rw [List.append_assoc]
    exact Layout.not_ground (by decide) (by decide) _
  · split
    · exact .of_never fun _ _ _ => throw_ne_ok
    · exact .pure layout _

theorem copyLatest_repeatable {library : Text} (hl : library ∈ Library.names) :
    Repeatable layout (Library.copyLatest layout config year library) := by
  obtain ⟨-, f, hf⟩ := Library.names_valid hl
  refine .bind (latest_repeatable hl) fun {_ source _} hs h => ?_
  obtain ⟨-, hsource⟩ := latest_ok hs hl h
  cases source with
  | none => exact .bind (.log layout _ _ _) fun _ _ => .pure layout _
  | some source =>
    rw [← hf, shared_along]
    exact .bind (.copy (typings_outside hl hsource.symm) _ _ _) fun _ _ => .pure layout _

theorem copyRuntime_repeatable :
    Repeatable layout (Library.copyRuntime layout config year) := by
  obtain ⟨n, htext, hn⟩ := runtimeSource_eq layout
  have hfits : ∀ m ∈ [Layout.scriptsName, n], m.Fits := by
    simpa [Name.Fits, htext] using by decide
  refine .bind ?_ fun {_ there _} _ _ => ?_
  · change Repeatable layout (Action.isFile (runtimeSource layout))
    rw [hn]
    exact .isFile hfits fun _ => Layout.not_ground (by decide) (by decide) _
  · cases there with
    | false => exact .pure layout _
    | true =>
      have hdestination := shared_along layout ⟨Emission.runtimeFile, by decide⟩
      change layout.outputDirectory .shared / Emission.runtimeFile = _ at hdestination
      rw [hdestination]
      exact .bind (.copy (runtime_outside layout) _ _ _) fun _ _ => .pure layout _

theorem lay_repeatable : Repeatable layout (lay layout config year) := by
  refine .bind (prepare_repeatable layout) fun _ _ => ?_
  refine .bind (.forM _ fun s _ => ?_) fun _ _ => ?_
  · exact .bind (copyTree_repeatable s) fun _ _ => .pure layout _
  · refine .bind ?_ fun _ _ => .pure layout _
    refine .bind (.mapM _ fun library hl => copyLatest_repeatable hl) fun _ _ => ?_
    exact .bind copyRuntime_repeatable fun _ _ => .pure layout _

theorem process_repeatable (path text : Text) :
    Repeatable layout (process path text config year) := by
  refine .bind (.forM _ fun _ _ => .log layout _ _ _) fun _ _ => ?_
  exact .bind (.forM _ fun _ _ => .log layout _ _ _) fun _ _ => .pure layout _

theorem write_repeatable {e : Emission} (he : ¬ Emission.Upward e.path) (run : Run) :
    Repeatable layout (write layout config year run e) := by
  unfold write
  cases hm : e.module? with
  | none => exact .pure layout _
  | some path =>
    obtain rfl := Emission.module_eq hm
    obtain ⟨way, hway⟩ := layout.output_div he
    dsimp only
    rw [hway]
    refine .bind (.makeParent layout way) fun _ _ => ?_
    refine .bind (process_repeatable _ _) fun _ _ => ?_
    exact .bind (.writeText? layout way _) fun _ _ => .pure layout _

section

variable {places : List Location} {b : ByteArray} {w u v t : Workspace}

theorem file_iff (hw : Marked places b w u) (hv : Marked places b v t) (m : Location) :
    t.tree.file? m = u.tree.file? m ↔ v.tree.file? m = w.tree.file? m := by
  by_cases hm : m ∈ places
  · simp [Tree.file?, hv.there hm, hw.there hm, hv.free m hm, hw.free m hm]
  · rw [hv.file_away hm, hw.file_away hm]

theorem entry_iff (hw : Marked places b w u) (hv : Marked places b v t) (m : Location) :
    t.tree.get? m = u.tree.get? m ↔ v.tree.get? m = w.tree.get? m := by
  by_cases hm : m ∈ places
  · simp [hv.there hm, hw.there hm, hv.free m hm, hw.free m hm]
  · rw [hv.away hm, hw.away hm]

theorem kept_iff (hw : Marked places b w u) (hv : Marked places b v t) (m : Location) :
    (u.tree.get? m = some .directory → t.tree.get? m = some .directory) ↔
      (w.tree.get? m = some .directory → v.tree.get? m = some .directory) := by
  rw [hw.directory_iff, hv.directory_iff]

theorem stays_iff (hw : Marked places b w u) (hv : Marked places b v t) (m : Location) :
    (u.tree.file? m ≠ none → t.tree.file? m ≠ none) ↔
      (w.tree.file? m ≠ none → v.tree.file? m ≠ none) := by
  by_cases hm : m ∈ places
  · simp [Tree.file?, hv.there hm, hw.there hm, hv.free m hm, hw.free m hm]
  · rw [hv.file_away hm, hw.file_away hm]

theorem covers_iff (hw : Marked places b w u) (hv : Marked places b v t) :
    Covers layout u t ↔ Covers layout w v where
  mp := .carry hw.current.symm hv.current.symm (fun m => (file_iff hw hv m).mp)
    (fun m => (entry_iff hw hv m).mp) (fun m => (kept_iff hw hv m).mp)
    (fun m => (stays_iff hw hv m).mp)
  mpr := .carry hw.current hv.current (fun m => (file_iff hw hv m).mpr)
    (fun m => (entry_iff hw hv m).mpr) (fun m => (kept_iff hw hv m).mpr)
    (fun m => (stays_iff hw hv m).mpr)

end

section

variable {α : Type} {action : Action α} {x : α} {s : Scope} {made scopes : List Scope}
  {w w₁ w' v : Workspace}

theorem Covers.passes (h : Covers layout w v) : Passes layout w v :=
  ⟨h.current, h.kept, fun s => h.spares.entry _ (placeholder_not_ground layout s _)⟩

theorem Covers.occupied (h : Covers layout w v) (hs : w.Stands layout.root) {there : Bool}
    (hthere : w.occupied (placeholder layout s) = .ok there) :
    v.occupied (placeholder layout s) = .ok there := by
  have hground (current : Location) : ¬ layout.Ground current (layout.root.location current ++
      [Layout.sourceName, s.name, placeholderName]) := by
    rw [← placeholder_location]
    exact placeholder_not_ground layout s current
  obtain ⟨e, he, -⟩ := Workspace.entry_of_occupied hthere
  rw [placeholder_root] at hthere he ⊢
  unfold Workspace.occupied at hthere ⊢
  rw [he] at hthere
  rwa [h.entry hs (placeholder_fits s) hground he]

theorem Holds.covers (h : Holds layout made w w₁ v) : Covers layout w w₁ :=
  .of_laid (.of_leads (h.leads.mono fun _ => Layout.Site.ground))

theorem hold_again {u : Workspace} (hs : w.Stands layout.root)
    (hfree : w.occupied (placeholder layout s) = .ok false) (hw : Covers layout w u)
    (hparent : u.Stands (placeholder layout s).parent)
    (hresolve :
      u.resolve (placeholder layout s) = .ok ((placeholder layout s).location u.current)) :
    ∃ u₀, hold layout s u = .ok true u₀ ∧ Holds layout [s] u u u₀ := by
  have hasked : u.occupied (placeholder layout s) = .ok false := hw.occupied hs hfree
  have hnone := placeholder_free (hw.stands hs) hasked
  have hdirectory : u.tree.get? ((placeholder layout s).location u.current).dropLast =
      some .directory := by
    have hget := hparent.directory
    rw [placeholder_parent, location_along] at hget
    rw [placeholder_location, List.dropLast_append_of_ne_nil (by simp)]
    exact hget
  obtain ⟨u₀, hwrite⟩ := writeBytes_free hresolve hdirectory (by rw [hnone]; simp) (Text.encode [])
  refine ⟨u₀, ?_, .refl u _, .of_write hnone hwrite, by simpa using hparent,
    by simpa using hresolve⟩
  unfold hold
  exact bind_eq_ok.mpr ⟨false, u, ask_eq_ok.mpr ⟨hasked, rfl⟩, bind_eq_ok.mpr ⟨(), u,
    makeDirectories_standing hparent, bind_eq_ok.mpr ⟨(), u₀, hwrite, rfl⟩⟩⟩

theorem holdAll_again (hscopes : ∀ s ∈ scopes, s ∈ Scope.directories) (hs : w.Stands layout.root)
    (h : holdAll layout scopes w = .ok (made, .ok ()) v) :
    ∃ w₁, Holds layout made w w₁ v ∧ ∀ u, Covers layout w₁ u →
      ∃ u₂, holdAll layout scopes u = .ok (made, .ok ()) u₂ ∧ Holds layout made u u u₂ := by
  induction scopes generalizing w made with
  | nil =>
    cases h
    exact ⟨v, .of_leads (.refl v _), fun u _ => ⟨u, rfl, .of_leads (.refl u _)⟩⟩
  | cons s scopes ih =>
    obtain ⟨hscope, hrest⟩ := List.forall_mem_cons.mp hscopes
    obtain ⟨new, v₀, others, hhold, hall, rfl⟩ := of_holdAll_cons h
    rcases hold_ok hs hscope hhold with ⟨rfl, rfl, hthere⟩ | ⟨rfl, hfree, w₀, hone⟩
    · obtain ⟨w₁, hholds, hagain⟩ := ih hrest hs hall
      refine ⟨w₁, hholds, fun u hu => ?_⟩
      obtain ⟨u₂, hall', hholds'⟩ := hagain u hu
      have hasked := (hholds.covers.trans hu).occupied hs hthere
      exact ⟨u₂, holdAll_cons (hold_occupied hasked) hall', hholds'⟩
    · obtain ⟨w₁', hholds, hagain⟩ := ih hrest (hone.stands hs) hall
      obtain ⟨w₁, hm, hcons⟩ := hone.exists_cons hholds
      refine ⟨w₁, hcons, fun u hu => ?_⟩
      have hcurrent : u.current = w.current := hu.current.trans hcons.leads.current
      have hresolve :
          u.resolve (placeholder layout s) = .ok ((placeholder layout s).location u.current) := by
        rw [hcurrent]
        exact Workspace.resolve_kept hu.current hu.kept (hcons.resolve s (by simp))
      obtain ⟨u₀, hheld, hone'⟩ := hold_again hs hfree (hcons.covers.trans hu)
        (hu.stands (hcons.parent s (by simp))) hresolve
      -- With the placeholder back, the first workspace of the rest is covered again.
      have hmarked := hone'.marked
      rw [hcurrent] at hmarked
      obtain ⟨u₂, hall', hholds'⟩ := hagain u₀ ((covers_iff hm hmarked).mpr hu)
      exact ⟨u₂, holdAll_cons hheld hall', hone'.cons hholds' hone'.marked⟩

theorem withPlaceholders_repeatable (haction : Repeatable layout action)
    (hscopes : ∀ s ∈ scopes, s ∈ Scope.directories) :
    Repeatable layout (withPlaceholders layout action scopes) := by
  have hpasses {v v' : Workspace} {x : α} (hv : v.Stands layout.root)
      (hdone : action v = .ok x v') : Passes layout v v' := (haction.covers hv hdone).passes
  constructor
  · intro w w' x hs h
    obtain ⟨made, w₁, v, v', -, hholds, hdone, hmarked⟩ :=
      withPlaceholders_around hscopes hs (fun _ _ hv _ => hpasses hv) h
    exact hholds.covers.trans
      ((covers_iff hholds.marked hmarked).mp (haction.covers (hholds.stands hs) hdone))
  · intro w w' u x hs h hu
    obtain ⟨made, w₁, v, v', hall, hholds, hdone, hmarked⟩ :=
      withPlaceholders_around hscopes hs (fun _ _ hv _ => hpasses hv) h
    obtain ⟨w₂, hholds₂, hagain⟩ := holdAll_again hscopes hs hall
    have hv := haction.covers (hholds.stands hs) hdone
    have h₂ : Covers layout w₂ w' := (covers_iff hholds₂.marked hmarked).mp hv
    obtain ⟨u₂, hall', hholds'⟩ := hagain u (h₂.trans hu)
    have hcurrent : u.current = w.current := (h₂.trans hu).current.trans hholds₂.leads.current
    have hmarked' := hholds'.marked
    rw [hcurrent] at hmarked'
    have h₃ : Covers layout v' u₂ := (covers_iff hmarked hmarked').mpr hu
    obtain ⟨u₃, hdone', hnew⟩ := haction.again (hholds.stands hs) hdone h₃
    have hs₂ : u₂.Stands layout.root := h₃.stands (hv.stands (hholds.stands hs))
    obtain ⟨u', hrelease, hgone⟩ := hholds'.release (hpasses hs₂ hdone')
    refine ⟨u', ?_, fun l hl => ?_⟩
    · rw [withPlaceholders, bind_of_ok hall']
      exact andThen_of_ok (bind_eq_ok.mpr ⟨(), u₂, rfl, hdone'⟩) hrelease
    · exact (hholds'.marked.directory_iff l).mp (hnew l ((hgone.directory_iff l).mpr hl))

end

section

variable {toolchain : Toolchain} {es : List Emission} {clock clock' : Clock} {w w' : Workspace}
  {r : Run} {elapsed : Int}

theorem transpile_repeatable (hsteady : toolchain.Steady layout.tsconfig es)
    (hup : ∀ e ∈ es, ¬ Emission.Upward e.path) :
    Repeatable layout (transpile layout config year toolchain) := by
  have hasked : Repeatable layout (toolchain.transpile layout.tsconfig) := by
    refine ⟨fun {w w' emitted} _ h => ?_, fun {w w' v emitted} _ h _ => ?_⟩
    · obtain ⟨htree, hcurrent⟩ := hsteady.quiet w emitted w' h
      exact .of_laid (.of_tree layout htree hcurrent)
    · obtain ⟨u, hu, -⟩ := hsteady w
      obtain ⟨v', hv', htree, -⟩ := hsteady v
      rw [h] at hu
      cases hu
      exact ⟨v', hv', fun l hl => by rwa [htree] at hl⟩
  refine .bind hasked fun {w emitted w'} _ h => ?_
  obtain ⟨u, hu, -⟩ := hsteady w
  rw [h] at hu
  cases hu
  exact .bind (.foldlM es (fun run e he => write_repeatable (hup e he) run) _) fun _ _ =>
    .pure layout _

theorem run_repeatable (hsteady : toolchain.Steady layout.tsconfig es)
    (hup : ∀ e ∈ es, ¬ Emission.Upward e.path) :
    Repeatable layout (run layout config clock toolchain) := by
  refine .bind (.log layout _ _ _) fun _ _ => ?_
  refine .bind lay_repeatable fun _ _ => ?_
  refine .bind (withPlaceholders_repeatable (transpile_repeatable hsteady hup) fun _ h => h)
    fun _ _ => ?_
  refine .bind (.ask fun _ h _ => h) fun _ _ => ?_
  exact .bind (.log layout _ _ _) fun _ _ => .pure layout _

theorem run_clock (hyear : clock'.year = clock.year) (hmeasure : clock'.measure = .ok elapsed)
    (h : run layout config clock toolchain w = .ok r w') :
    ∃ v, run layout config clock' toolchain w = .ok { r with elapsed := some elapsed } v ∧
      v.tree = w'.tree ∧ v.current = w'.current := by
  unfold run at h ⊢
  obtain ⟨_, w₁, hlog, h⟩ := bind_eq_ok.mp h
  obtain ⟨_, w₂, hlay, h⟩ := bind_eq_ok.mp h
  obtain ⟨written, w₃, hwritten, h⟩ := bind_eq_ok.mp h
  obtain ⟨_, w₄, hended, h⟩ := bind_eq_ok.mp h
  obtain ⟨_, w₅, hlog', h⟩ := bind_eq_ok.mp h
  obtain ⟨rfl, rfl⟩ := pure_eq_ok.mp h
  obtain ⟨-, rfl⟩ := ask_eq_ok.mp hended
  rw [log_eq_ok.mp hlog', hyear, bind_of_ok hlog, bind_of_ok hlay, bind_of_ok hwritten, hmeasure]
  exact ⟨_, rfl, rfl, rfl⟩

theorem prepare_enters {u : Unit} (h : layout.prepare w = .ok u w') :
    ∃ v, makeDirectories (layout.outputDirectory .client) w = .ok () v ∧
      layout.prepare v = .ok u w' := by
  unfold Layout.prepare at h ⊢
  obtain ⟨_, w₁, houtput, hdist⟩ := bind_eq_ok.mp h
  change (makeDirectories (layout.outputDirectory .client) >>= fun _ =>
    [Scope.server, .shared].forM fun s => makeDirectories (layout.outputDirectory s)) w = _
    at houtput
  obtain ⟨_, v, hmake, hmore⟩ := bind_eq_ok.mp houtput
  have hthere := makeDirectories_standing (makeDirectories_stands hmake)
  exact ⟨v, hmake, bind_eq_ok.mpr ⟨_, w₁, bind_eq_ok.mpr ⟨(), v, hthere, hmore⟩, hdist⟩⟩

/-- A build that succeeds goes as if it had found its root there: the first thing that
it makes is a directory below it. -/
theorem run_rooted (h : run layout config clock toolchain w = .ok r w') :
    ∃ u, u.Stands layout.root ∧ run layout config clock toolchain u = .ok r w' := by
  unfold run at h
  obtain ⟨_, w₁, hlog, h⟩ := bind_eq_ok.mp h
  obtain ⟨_, w₂, hlay, h⟩ := bind_eq_ok.mp h
  obtain ⟨_, w₃, hprepare, hlaid⟩ := bind_eq_ok.mp hlay
  obtain ⟨v, hmake, hprepare'⟩ := prepare_enters hprepare
  have hlay' : lay layout config clock.year v = .ok () w₂ :=
    bind_eq_ok.mpr ⟨_, w₃, hprepare', hlaid⟩
  have hv := (makeDirectories_onlyTree _).ok hmake
  rw [log_eq_ok.mp hlog] at hv
  have hlog' : Action.log .info "Compiling project..".toList none { w with tree := v.tree } =
      .ok () v := log_eq_ok.mpr hv
  have hthere := makeDirectories_stands hmake
  rw [Layout.outputDirectory_eq, Layout.output_along] at hthere
  refine ⟨{ w with tree := v.tree }, hthere.outer.kept (by rw [hv]) fun l hl => hl, ?_⟩
  exact bind_eq_ok.mpr ⟨(), v, hlog', bind_eq_ok.mpr ⟨(), w₂, hlay', h⟩⟩

/-- A build that succeeded succeeds again from where it ended, whenever it is started
in the same year. It returns the same modules and violations, and nothing in the tree
is another than it was. -/
theorem run_repeats (layout : Layout) (config : Config) (clock clock' : Clock)
    (toolchain : Toolchain) (es : List Emission) (w w' : Workspace) (r : Run) (elapsed : Int)
    (hsteady : toolchain.Steady layout.tsconfig es) (hup : ∀ e ∈ es, ¬ Emission.Upward e.path)
    (hyear : clock'.year = clock.year) (hmeasure : clock'.measure = .ok elapsed)
    (h : run layout config clock toolchain w = .ok r w') :
    ∃ v, run layout config clock' toolchain w' = .ok { r with elapsed := some elapsed } v ∧
      v.tree = w'.tree ∧ v.current = w'.current := by
  obtain ⟨u, hroot, hu⟩ := run_rooted h
  obtain ⟨v, hagain, hnew⟩ := (run_repeatable hsteady hup).again hroot hu (.refl layout w')
  obtain ⟨-, hfirst⟩ := run_laid_emitting hroot hsteady.quiet (fun _ _ => hsteady.emits) hup hu
  obtain ⟨-, hsecond⟩ := run_laid_emitting (hfirst.stands hroot) hsteady.quiet
    (fun _ _ => hsteady.emits) hup hagain
  rw [plan_eq hfirst.spares] at hsecond
  have hfiles (l : Location) : v.tree.file? l = w'.tree.file? l := by
    rw [hsecond.leads.files, funext hfirst.leads.files, overlay_twice]
  have htree : v.tree = w'.tree :=
    Tree.ext_get? fun l => Tree.get_of_file (hfiles l) ⟨hnew l, hsecond.leads.kept l⟩
  obtain ⟨v', hrun, htree', hcurrent⟩ := run_clock hyear hmeasure hagain
  exact ⟨v', hrun, htree'.trans htree, hcurrent.trans hsecond.current⟩

theorem sample_rebuilt : ∃ r w' v,
    run (Layout.choose none none) {} sampleClock sampleToolchain { tree := sampleTree } = .ok r w' ∧
      run (Layout.choose none none) {} { sampleClock with elapsed := 1500000 } sampleToolchain w' =
        .ok { r with elapsed := some 1500000 } v ∧
      r.modules = ["shared/lualib_bundle.lua".toList] ∧ v.tree = w'.tree := by
  have hsuccess : ((run (Layout.choose none none) {} sampleClock sampleToolchain).result?
      { tree := sampleTree }).any (fun x =>
        decide (x.1.modules = ["shared/lualib_bundle.lua".toList])) = true := by
    decide +kernel
  obtain ⟨⟨r, w'⟩, hresult, hmodules⟩ := (Option.any_eq_true _ _).mp hsuccess
  have h := Action.result_eq_some.mp hresult
  obtain ⟨v, hagain, htree, -⟩ := run_repeats (Layout.choose none none) {} sampleClock
    { sampleClock with elapsed := 1500000 } sampleToolchain sampleEmissions _ w' r 1500000
    (fun v => ⟨v, rfl, rfl, rfl⟩) (by decide) rfl (by decide) h
  exact ⟨r, w', v, h, hagain, of_decide_eq_true hmodules, htree⟩

end

end Build

end ModBuild
