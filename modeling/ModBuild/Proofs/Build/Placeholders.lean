import ModBuild.Proofs.Build.Spread

/-!
# While placeholders stand

A placeholder is made where none stands, and taken away on every way out of the
action that it is made for. The action itself only ever meets workspaces in
which every scope directory holds its placeholder, whoever put it there.
-/

set_option autoImplicit false

namespace ModBuild

namespace Action

variable {α β : Type} {w : Workspace}

theorem andThen_congr {a a' : Action α} (after : Action Unit) (h : a w = a' w) :
    andThen a after w = andThen a' after w := by
  rw [andThen, andThen, h]

theorem bind_congr_left {a a' : Action α} (f : α → Action β) (h : a w = a' w) :
    (a >>= f) w = (a' >>= f) w := by
  show EStateM.bind a f w = EStateM.bind a' f w
  rw [EStateM.bind, EStateM.bind, h]

theorem bind_congr_right {a : Action α} {f f' : α → Action β}
    (h : ∀ x v, a w = .ok x v → f x v = f' x v) : (a >>= f) w = (a >>= f') w := by
  cases ha : a w with
  | ok x v => rw [bind_of_ok ha, bind_of_ok ha, h x v ha]
  | error e v => rw [bind_of_error ha, bind_of_error ha]

end Action

theorem Workspace.Marked.spread {layout : Layout} {places : List Location} {b : ByteArray}
    {w u v t : Workspace} (hw : Marked places b w u) (hv : Marked places b v t)
    (h : layout.Spread u t) : layout.Spread w v := by
  refine ⟨⟨by rw [← hv.current, h.current, hw.current], fun l => ?_⟩, fun l hl => ?_⟩
  · by_cases hl : l ∈ places
    · exact .inl ((hv.free l hl).trans (hw.free l hl).symm)
    · have hentry := h.touches.entry l
      rwa [hv.away hl, hw.away hl, hw.current] at hentry
  · exact (hv.directory_iff l).mp (h.kept l ((hw.directory_iff l).mpr hl))

namespace Build

open ModBuild.Action
open Asset (along)

variable {layout : Layout} {w w' : Workspace} {s : Scope}

def Held (layout : Layout) (w : Workspace) : Prop :=
  ∀ s ∈ Scope.directories, w.occupied (placeholder layout s) = .ok true

theorem placeholder_along (layout : Layout) (s : Scope) :
    placeholder layout s = along layout.source [s.name, placeholderName] := by
  rw [Layout.source_along, placeholder_root]

theorem placeholder_stays (h : layout.Spread w w') :
    w'.tree.get? ((placeholder layout s).location w.current) =
      w.tree.get? ((placeholder layout s).location w.current) := by
  rw [placeholder_along]
  rcases h.source [s.name, placeholderName] with he | ⟨-, -, hsite⟩
  · exact he
  · simp at hsite

theorem passes_of_spread (h : layout.Spread w w') : Passes layout w w' :=
  ⟨h.current, h.kept, fun _ => placeholder_stays h⟩

theorem Held.spread (hheld : Held layout w) (h : layout.Spread w w') : Held layout w' :=
  fun s hs => (passes_of_spread h).occupied (hheld s hs)

variable {α : Type} {scopes : List Scope}

theorem withPlaceholders_settles {action : Action α} (h : Within layout.Settles action)
    (hscopes : ∀ s ∈ scopes, s ∈ Scope.directories) :
    Within layout.Settles (withPlaceholders layout action scopes) := by
  intro w hs
  obtain ⟨made, held, w₁, v, hall, hholds, -⟩ := holdAll_holds hscopes hs
  have hbody : Within layout.Settles (do Action.ofExcept held; action) :=
    within_bind (within_ask _) fun _ => h
  have hspread := hbody v (hholds.stands hs)
  obtain ⟨w', hrelease, hmarked⟩ := hholds.release (passes_of_spread hspread)
  rw [withPlaceholders, final, bind_of_ok hall]
  change layout.Spread w ((andThen _ (release layout made)).final v)
  rw [andThen_final, final_of_ok hrelease]
  have hmade : layout.Spread w w₁ :=
    ⟨(hholds.leads.mono (E := layout.Vacant w.current) fun _ hsite _ => hsite).touches,
      hholds.leads.kept⟩
  exact hmade.trans (hholds.marked.spread hmarked hspread)

theorem withPlaceholders_congr {a a' : Action α}
    (h : ∀ v, v.Stands layout.root → Held layout v → a v = a' v)
    (hscopes : ∀ s, s ∈ scopes ↔ s ∈ Scope.directories) (hs : w.Stands layout.root) :
    withPlaceholders layout a scopes w = withPlaceholders layout a' scopes w := by
  obtain ⟨made, held, w₁, v, hall, hholds, hheld⟩ :=
    holdAll_holds (fun s => (hscopes s).mp) hs
  rw [withPlaceholders, withPlaceholders, bind_of_ok hall, bind_of_ok hall]
  apply andThen_congr
  cases held with
  | error e => rfl
  | ok u => exact h v (hholds.stands hs) fun s hs => hheld rfl s ((hscopes s).mpr hs)

end Build

end ModBuild
