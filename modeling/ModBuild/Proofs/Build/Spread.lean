import ModBuild.Proofs.Build.Layers
import ModBuild.Proofs.Workspace.Within

/-!
# How far a build spreads

Wherever a build stops, what differs is in the output or is a new directory,
and in the sources only their own directories can be new. A step of the build
is either a copy or a write into the output, or it makes directories.
-/

set_option autoImplicit false

namespace ModBuild

namespace Layout

open Asset (along along_along location_along)

variable {layout : Layout}

def Vacant (layout : Layout) (current l : Location) : Prop :=
  layout.source.location current <+: l → layout.Site current l

theorem vacant_of_way {n : Name} (hn : n ≠ sourceName) {current way l : Location}
    (h : Action.OnWay (layout.root.location current) (n :: way) l) :
    layout.Vacant current l := by
  intro hsource
  obtain ⟨a, ha, hway, rfl⟩ := h
  rw [source_location, List.prefix_append_right_inj] at hsource
  have hhead := List.cons_prefix_cons.mp (hsource.trans hway)
  exact absurd hhead.1.symm hn

/-- What differs is in the output or a new directory, in the sources one of
their own, and no directory gets lost. -/
structure Spread (layout : Layout) (w w' : Workspace) : Prop where
  touches : w.Touches layout.Vacant layout.Inside w'
  kept : ∀ l, w.tree.get? l = some .directory → w'.tree.get? l = some .directory

namespace Spread

variable {w w' w'' : Workspace}

theorem current (h : layout.Spread w w') : w'.current = w.current := h.touches.current

theorem refl (layout : Layout) (w : Workspace) : layout.Spread w w :=
  ⟨Action.Frame.same rfl rfl, fun _ hl => hl⟩

theorem stands (h : layout.Spread w w') {p : Path} (hs : w.Stands p) : w'.Stands p :=
  hs.kept h.current h.kept

theorem trans (h : layout.Spread w w') (h' : layout.Spread w' w'') : layout.Spread w w'' :=
  ⟨Action.Frame.trans h.touches h'.touches, fun l hl => h'.kept l (h.kept l hl)⟩

theorem source (h : layout.Spread w w') (way : Location) :
    w'.tree.get? ((along layout.source way).location w.current) =
        w.tree.get? ((along layout.source way).location w.current) ∨
      w.tree.get? ((along layout.source way).location w.current) = none ∧
        w'.tree.get? ((along layout.source way).location w.current) = some .directory ∧
        (way = [] ∨ ∃ s ∈ Scope.directories, way = [s.name]) := by
  rcases h.touches.entry ((along layout.source way).location w.current) with
    he | he | ⟨hnone, hnew, hvacant⟩
  · exact .inl he
  · exact absurd he (source_not_inside layout w.current way)
  · refine .inr ⟨hnone, hnew, ?_⟩
    rcases hvacant (by rw [location_along]; exact List.prefix_append _ _) with hl | ⟨s, hs, hl⟩
    · rw [← Asset.along_nil layout.source, along_along] at hl
      exact .inl (Asset.way_of_location hl)
    · rw [sourceDirectory_eq] at hl
      exact .inr ⟨s, hs, Asset.way_of_location hl⟩

end Spread

def Settles (layout : Layout) (w w' : Workspace) : Prop :=
  w.Stands layout.root → layout.Spread w w'

instance (layout : Layout) : Action.Frame layout.Settles where
  same ht hc _ := ⟨Action.Frame.same ht hc, fun l hl => by rwa [ht]⟩
  trans h h' hs := (h hs).trans (h' ((h hs).stands hs))

end Layout

/-- A transpiler that leaves the project alone, whether it fails or not, and
emits no path that goes up. -/
structure Toolchain.Tame (toolchain : Toolchain) (tsconfig : Path) : Prop where
  quiet : ∀ v, ((toolchain.transpile tsconfig).final v).tree = v.tree ∧
    ((toolchain.transpile tsconfig).final v).current = v.current
  level : ∀ v emitted v', toolchain.transpile tsconfig v = .ok emitted v' →
    ∀ e ∈ emitted.emissions, ¬ Emission.Upward e.path

namespace Build

open ModBuild.Action Layout
open Asset (along)

variable {layout : Layout} {config : Config} {year : Nat} {toolchain : Toolchain}

theorem makeDirectories_settles {way : Location}
    (h : ∀ current l, OnWay (layout.root.location current) way l → layout.Vacant current l) :
    Within layout.Settles (makeDirectories (along layout.root way)) := by
  intro w hs
  have hl := makeDirectories_leads hs way
  exact ⟨(hl.mono (h w.current)).touches, hl.kept⟩

theorem writeBytes_settles (way : Location) (b : ByteArray) :
    Within layout.Settles (writeBytes (along layout.output way) b) := by
  intro w _
  have htouches := within_writeBytes (D := layout.Vacant) (E := layout.Inside)
    (fun current => inside_along layout current way) b w
  refine ⟨htouches, ?_⟩
  cases h : writeBytes (along layout.output way) b w with
  | ok u w' =>
    rw [final_of_ok h]
    exact (writeBytes_ok (D := fun _ => True) h).2.kept
  | error e w' =>
    rw [final_of_error h, (change_eq_error.mp h).2]
    exact fun _ hl => hl

theorem copy_settles (source : Path) (way : Location) :
    Within layout.Settles (Asset.copy source (along layout.output way) config year) := by
  refine within_copy ?_ (writeBytes_settles way)
  rw [output_along, Asset.parent_along _ _ (by simp), List.dropLast_cons_cons]
  exact makeDirectories_settles fun _ _ => vacant_of_way (by decide)

theorem prepare_settles : Within layout.Settles layout.prepare := by
  refine within_bind (within_forM _ fun s _ => ?_) fun _ => ?_
  · rw [outputDirectory_eq, output_along]
    exact makeDirectories_settles fun _ _ => vacant_of_way (by decide)
  · rw [dist_eq]
    exact makeDirectories_settles fun _ _ => vacant_of_way (by decide)

theorem copyTree_settles (source : Path) (s : Scope) : Within layout.Settles
    (Asset.copyTree source (layout.outputDirectory s) config year) := by
  refine within_bind (within_ask _) fun ways => ?_
  refine within_bind (within_forM _ fun way _ => ?_) fun _ => within_pure _
  rw [outputDirectory_eq, Asset.along_along]
  exact copy_settles _ _

theorem copyLatest_settles {library : Text} (hl : library ∈ Library.names) :
    Within layout.Settles (Library.copyLatest layout config year library) := by
  obtain ⟨-, f, hf⟩ := Library.names_valid hl
  have hlatest : Within layout.Settles (Library.latest? layout.typings library) := by
    refine within_bind (within_ask _) fun listing => ?_
    split
    · exact within_throw _
    · exact within_pure _
  refine within_bind hlatest fun source => ?_
  cases source with
  | none => exact within_bind (within_log _ _ _) fun _ => within_pure _
  | some source =>
    rw [← hf, shared_along]
    exact within_bind (copy_settles _ _) fun _ => within_pure _

theorem copyRuntime_settles :
    Within layout.Settles (Library.copyRuntime layout config year) := by
  refine within_bind (within_ask _) fun there => ?_
  cases there with
  | false => exact within_pure _
  | true =>
    have hdestination := shared_along layout ⟨Emission.runtimeFile, by decide⟩
    change layout.outputDirectory .shared / Emission.runtimeFile = _ at hdestination
    rw [hdestination]
    exact within_bind (copy_settles _ _) fun _ => within_pure _

theorem lay_settles : Within layout.Settles (lay layout config year) := by
  refine within_bind prepare_settles fun _ => ?_
  refine within_bind (within_forM _ fun s _ => ?_) fun _ => ?_
  · exact within_bind (copyTree_settles _ s) fun _ => within_pure _
  · refine within_bind ?_ fun _ => within_pure _
    refine within_bind (within_mapM _ fun library hl => copyLatest_settles hl) fun _ => ?_
    exact within_bind copyRuntime_settles fun _ => within_pure _

theorem process_settles (path text : Text) :
    Within layout.Settles (process path text config year) := by
  refine within_bind (within_forM _ fun _ _ => within_log _ _ _) fun _ => ?_
  exact within_bind (within_forM _ fun _ _ => within_log _ _ _) fun _ => within_pure _

theorem write_settles {e : Emission} (he : ¬ Emission.Upward e.path) (run : Run) :
    Within layout.Settles (write layout config year run e) := by
  unfold write
  cases hm : e.module? with
  | none => exact within_pure _
  | some path =>
    obtain rfl := Emission.module_eq hm
    obtain ⟨way, hway⟩ := layout.output_div he
    dsimp only
    rw [hway]
    refine within_bind ?_ fun _ => ?_
    · rw [output_along, Asset.parent_along _ _ (by simp), List.dropLast_cons_cons]
      exact makeDirectories_settles fun _ _ => vacant_of_way (by decide)
    · refine within_bind (process_settles _ _) fun processed => ?_
      exact within_bind (within_writeText? (writeBytes_settles way) _) fun _ => within_pure _

theorem writeAll_settles {es : List Emission} (hes : ∀ e ∈ es, ¬ Emission.Upward e.path)
    (run : Run) : Within layout.Settles (es.foldlM (write layout config year) run) :=
  within_foldlM _ (fun run e he => write_settles (hes e he) run) run

theorem transpile_settles (h : toolchain.Tame layout.tsconfig) :
    Within layout.Settles (transpile layout config year toolchain) := by
  refine within_bind_ok (within_same h.quiet) fun v emitted v' hemitted => ?_
  refine within_bind (writeAll_settles (h.level _ _ _ hemitted) _) fun _ => ?_
  cases emitted.failure with
  | none => exact within_pure _
  | some failure => exact within_throw _

end Build

end ModBuild
