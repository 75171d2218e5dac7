import ModBuild.Proofs.Build.Placeholders
import ModBuild.Proofs.Watch.Confinement

/-!
# The sources survive every build

However a build ends, the sources are what they were, up to missing directories
of their own; and while the transpiler runs every scope is held by a
placeholder. An event about a placeholder that a build made comes when the file
is gone again, so it asks for nothing.
-/

set_option autoImplicit false

namespace ModBuild

namespace Build

open ModBuild.Action

variable {layout : Layout} {config : Config} {clock : Clock} {toolchain : Toolchain}
  {w w' : Workspace} {s : Scope}

theorem run_settles (h : toolchain.Tame layout.tsconfig) :
    Within layout.Settles (run layout config clock toolchain) := by
  refine within_bind (within_log _ _ _) fun _ => ?_
  refine within_bind lay_settles fun _ => ?_
  refine within_bind (withPlaceholders_settles (transpile_settles h) fun _ hs => hs) fun _ => ?_
  refine within_bind (within_ask _) fun _ => ?_
  exact within_bind (within_log _ _ _) fun _ => within_pure _

theorem run_congr {toolchain' : Toolchain} (hs : w.Stands layout.root)
    (h : ∀ v, v.Stands layout.root → Held layout v →
      toolchain.transpile layout.tsconfig v = toolchain'.transpile layout.tsconfig v) :
    run layout config clock toolchain w = run layout config clock toolchain' w := by
  unfold run
  apply bind_congr_right
  intro _ w₁ hlog
  apply bind_congr_right
  intro _ w₂ hlay
  apply bind_congr_left
  have h₁ : w₁.Stands layout.root := by
    have hw := log_eq_ok.mp hlog
    rw [hw]
    exact hs
  have h₂ : layout.Spread w₁ ((lay layout config clock.year).final w₁) := lay_settles w₁ h₁
  rw [final_of_ok hlay] at h₂
  exact withPlaceholders_congr (fun v hv hheld => bind_congr_left _ (h v hv hheld))
    (fun _ => .rfl) (h₂.stands h₁)

theorem placeholder_gone (hs : w.Stands layout.root) (h : layout.Spread w w')
    (hfree : w.occupied (placeholder layout s) = .ok false) :
    w'.isFile (placeholder layout s) = .ok false := by
  obtain ⟨e, he, -⟩ := Workspace.entry_of_occupied hfree
  have hnone : w'.tree.get? ((placeholder layout s).location w'.current) = none := by
    rw [h.current, placeholder_stays h]
    exact placeholder_free hs hfree
  rw [placeholder_location] at hnone
  rw [placeholder_root] at he ⊢
  have hentry := Workspace.entry_again hs (h.stands hs) (placeholder_fits s) he
  rw [hnone] at hentry
  rw [Workspace.isFile, hentry]
  rfl

end Build

namespace Watch

open Asset (along)

variable {steps : Steps} {r : Responder} {e : Event} {w : Workspace}

theorem respond_missing {own : Location} (hk : e.kind = .add ∨ e.kind = .change)
    (hown : (eventPath r.layout e.path).location w.current =
      (along r.layout.source own).location w.current)
    (hfile : w.isFile (along r.layout.source own) = .ok false) :
    r.respond steps e w = .ok (r, .ok none) w := by
  cases hway : eventWay? r.layout w.current e with
  | none => exact respond_unowned hway
  | some way =>
    obtain ⟨hwayOf, hplain⟩ := eventWay_eq hway
    rw [(wayOf_ok hwayOf).2, Asset.location_along, List.append_cancel_left_eq] at hown
    subst hown
    apply respond_ignored
    unfold react
    rw [hwayOf]
    have hread : reactToFile (along r.layout.source way) (along r.layout.output way) w =
        .ok .ignore := by
      rw [reactToFile, hfile]
      rfl
    dsimp only
    rw [if_neg (by simpa using hplain)]
    rcases hk with hk | hk
    · rw [hk]
      exact hread
    · rw [hk]
      exact hread

/-- Whatever stops a build, or nothing: below the sources everything is as it
was, but for missing directories of the scopes and of the sources themselves.
The transpiler is only asked where every scope directory holds an entry of the
placeholder's name, and writing what it emits keeps these entries. An event that
tells of a placeholder which was not there before the build asks for nothing. -/
theorem run_spares_sources (layout : Layout) (config : Config) (clock : Clock)
    (toolchain : Toolchain) (w : Workspace) (hroot : w.Stands layout.root)
    (htame : toolchain.Tame layout.tsconfig) :
    (∀ way, ((Build.run layout config clock toolchain).final w).tree.get?
          ((along layout.source way).location w.current) =
          w.tree.get? ((along layout.source way).location w.current) ∨
        w.tree.get? ((along layout.source way).location w.current) = none ∧
          ((Build.run layout config clock toolchain).final w).tree.get?
            ((along layout.source way).location w.current) = some .directory ∧
          (way = [] ∨ ∃ s ∈ Scope.directories, way = [s.name])) ∧
      (∀ toolchain' : Toolchain, (∀ v, v.Stands layout.root → Build.Held layout v →
          toolchain.transpile layout.tsconfig v = toolchain'.transpile layout.tsconfig v) →
        Build.run layout config clock toolchain w = Build.run layout config clock toolchain' w) ∧
      (∀ (v : Workspace) (es : List Emission) (run : Run), v.Stands layout.root →
        Build.Held layout v → (∀ e ∈ es, ¬ Emission.Upward e.path) →
        Build.Held layout
          (Action.final (es.foldlM (Build.write layout config clock.year) run) v)) ∧
      ∀ (steps : Steps) (r : Responder) (e : Event) (s : Scope), r.layout = layout →
        w.occupied (Build.placeholder layout s) = .ok false →
        e.kind = .add ∨ e.kind = .change →
        (eventPath layout e.path).location w.current =
          (Build.placeholder layout s).location w.current →
        r.respond steps e ((Build.run layout config clock toolchain).final w) =
          .ok (r, .ok none) ((Build.run layout config clock toolchain).final w) := by
  have hspread : layout.Spread w ((Build.run layout config clock toolchain).final w) :=
    Build.run_settles htame w hroot
  refine ⟨hspread.source, fun toolchain' h => Build.run_congr hroot h, ?_, ?_⟩
  · intro v es run hv hheld hes
    exact hheld.spread (Build.writeAll_settles hes run v hv)
  · rintro steps r e s rfl hfree hk hpath
    have hgone := Build.placeholder_gone hroot hspread hfree
    rw [Build.placeholder_along] at hgone hpath
    rw [← hspread.current] at hpath
    exact respond_missing hk hpath hgone

def sampleStopped : Toolchain where
  transpile _ := return ⟨Build.sampleEmissions, some (.toolchain (.reported "stopped".toList))⟩
  declare _ _ := pure ()

theorem sample_stopped_tame (layout : Layout) : sampleStopped.Tame layout.tsconfig where
  quiet _ := ⟨rfl, rfl⟩
  level v emitted v' h := by
    obtain ⟨rfl, -⟩ := Action.pure_eq_ok.mp h
    decide

/-- The build of the sample project that stops there leaves its note, has made
the directory of another scope, and hears nothing from the placeholder in it. -/
theorem sample_sources_spared :
    let layout := Layout.choose none none
    let w : Workspace := { tree := Build.sampleTree }
    let stopped := Build.run layout {} Build.sampleClock sampleStopped
    let steps : Steps := ⟨pure {}, fun _ => stopped, 2024⟩
    (stopped.result? w).isNone = true ∧
      (stopped.final w).tree.file? (Layout.sourceName :: Build.sampleNote) =
        some (Text.encode "note".toList) ∧
      (stopped.final w).tree.get? [Layout.sourceName, Scope.server.name] = some .directory ∧
      Responder.respond steps ⟨layout, {}, []⟩ ⟨.add, "src/server/_.ts".toList⟩
          (stopped.final w) = .ok (⟨layout, {}, []⟩, .ok none) (stopped.final w) := by
  intro layout w stopped steps
  obtain ⟨hsources, -, -, hevents⟩ := run_spares_sources layout {} Build.sampleClock sampleStopped
    w (by decide +kernel) (sample_stopped_tame layout)
  refine ⟨by decide +kernel, ?_, by decide +kernel, ?_⟩
  · rcases hsources Build.sampleNote with he | ⟨hnone, -, -⟩
    · have hlocation : (along layout.source Build.sampleNote).location w.current =
          Layout.sourceName :: Build.sampleNote := by decide
      rw [hlocation] at he
      rw [Tree.file?, he]
      decide +kernel
    · exact absurd hnone (by decide +kernel)
  · exact hevents steps ⟨layout, {}, []⟩ ⟨.add, "src/server/_.ts".toList⟩ .server rfl
      (by decide +kernel) (.inl rfl) (by decide +kernel)

end Watch

end ModBuild
