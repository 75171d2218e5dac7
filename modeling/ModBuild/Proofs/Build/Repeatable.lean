import ModBuild.Proofs.Build.Copying
import ModBuild.Proofs.Build.Placeholders

/-!
# Actions that can be repeated

An action can be repeated if it succeeds again, with the same answer and without a
new directory, wherever a build has gone on from its end. What a build goes on to
leaves directories and files in their places and changes files only in the output,
so an action has to see no more than that. A composed action can be repeated if its
parts can.
-/

set_option autoImplicit false

namespace ModBuild

namespace Build

open ModBuild.Action
open Asset (along along_along location_along)

/-- A workspace is what building has made of another one: directories and files are
in their places, and files differ only in the output. -/
structure Covers (layout : Layout) (w v : Workspace) : Prop where
  spares : layout.Spares w v
  kept : ∀ l, w.tree.get? l = some .directory → v.tree.get? l = some .directory
  stays : ∀ l, w.tree.file? l ≠ none → v.tree.file? l ≠ none

structure Repeatable (layout : Layout) {α : Type} (a : Action α) : Prop where
  covers : ∀ {w w' x}, w.Stands layout.root → a w = .ok x w' → Covers layout w w'
  again : ∀ {w w' v x}, w.Stands layout.root → a w = .ok x w' → Covers layout w' v →
    ∃ v', a v = .ok x v' ∧ ∀ l, v'.tree.get? l = some .directory → v.tree.get? l = some .directory

namespace Covers

variable {layout : Layout} {w v u t : Workspace} {c : Changes}

theorem of_laid (h : Laid layout w c v) : Covers layout w v :=
  ⟨h.spares, h.leads.kept, fun _ => file_stays h⟩

theorem refl (layout : Layout) (w : Workspace) : Covers layout w w := of_laid (.refl layout w)

theorem current (h : Covers layout w v) : v.current = w.current := h.spares.current

theorem stands (h : Covers layout w v) {p : Path} (hs : w.Stands p) : v.Stands p :=
  hs.kept h.current h.kept

theorem trans (h : Covers layout w v) (h' : Covers layout v u) : Covers layout w u :=
  ⟨h.spares.trans h'.spares, fun l hl => h'.kept l (h.kept l hl),
    fun l hl => h'.stays l (h.stays l hl)⟩

theorem carry (hcurrent : w.current = u.current) (hcurrent' : v.current = t.current)
    (hfile : ∀ m, t.tree.file? m = u.tree.file? m → v.tree.file? m = w.tree.file? m)
    (hentry : ∀ m, t.tree.get? m = u.tree.get? m → v.tree.get? m = w.tree.get? m)
    (hkept : ∀ m, (u.tree.get? m = some .directory → t.tree.get? m = some .directory) →
      w.tree.get? m = some .directory → v.tree.get? m = some .directory)
    (hstays : ∀ m, (u.tree.file? m ≠ none → t.tree.file? m ≠ none) →
      w.tree.file? m ≠ none → v.tree.file? m ≠ none)
    (h : Covers layout u t) : Covers layout w v where
  spares :=
    { current := by rw [hcurrent, hcurrent', h.current]
      file := fun m hm => hfile m (h.spares.file m (by rwa [← hcurrent]))
      entry := fun m hm => hentry m (h.spares.entry m (by rwa [← hcurrent])) }
  kept m := hkept m (h.kept m)
  stays m := hstays m (h.stays m)

theorem entry (h : Covers layout w v) (hs : w.Stands layout.root) {way : Location}
    (hway : ∀ n ∈ way, n.Fits)
    (hg : ∀ current, ¬ layout.Ground current (layout.root.location current ++ way))
    {e : Option Entry} (he : w.entry? (along layout.root way) = .ok e) :
    v.entry? (along layout.root way) = .ok e := by
  rw [Workspace.entry_again hs (h.stands hs) hway he, h.current, h.spares.entry _ (hg _),
    ← Workspace.entry_again hs hs hway he, he]

end Covers

namespace Repeatable

variable {α β : Type} {layout : Layout} {a : Action α} {f : α → Action β}

theorem bind (ha : Repeatable layout a)
    (hf : ∀ {w x w'}, w.Stands layout.root → a w = .ok x w' → Repeatable layout (f x)) :
    Repeatable layout (a >>= f) where
  covers hs h := by
    obtain ⟨x, w₁, hx, hy⟩ := bind_eq_ok.mp h
    have h₁ := ha.covers hs hx
    exact h₁.trans ((hf hs hx).covers (h₁.stands hs) hy)
  again {w w₂ v y} hs h hv := by
    obtain ⟨x, w₁, hx, hy⟩ := bind_eq_ok.mp h
    have h₁ := ha.covers hs hx
    have h₂ := (hf hs hx).covers (h₁.stands hs) hy
    obtain ⟨v₁, hx', hnew⟩ := ha.again hs hx (h₂.trans hv)
    have hv₁ := ha.covers ((h₁.trans (h₂.trans hv)).stands hs) hx'
    obtain ⟨v₂, hy', hnew'⟩ := (hf hs hx).again (h₁.stands hs) hy (hv.trans hv₁)
    exact ⟨v₂, bind_eq_ok.mpr ⟨x, v₁, hx', hy'⟩, fun l hl => hnew l (hnew' l hl)⟩

theorem ask {q : Workspace → Except Failure α}
    (h : ∀ {w v x}, w.Stands layout.root → q w = .ok x → Covers layout w v → q v = .ok x) :
    Repeatable layout (Action.ask q) where
  covers _ hx := by
    obtain ⟨-, rfl⟩ := ask_eq_ok.mp hx
    exact .refl layout _
  again {w w' v x} hs hx hv := by
    obtain ⟨hq, rfl⟩ := ask_eq_ok.mp hx
    exact ⟨v, ask_eq_ok.mpr ⟨h hs hq hv, rfl⟩, fun _ hl => hl⟩

theorem pure (layout : Layout) (x : α) : Repeatable layout (Pure.pure x : Action α) :=
  ask (q := fun _ => .ok x) fun _ h _ => h

theorem of_never (h : ∀ w x w', a w ≠ .ok x w') : Repeatable layout a :=
  ⟨fun _ hx => absurd hx (h _ _ _), fun _ hx => absurd hx (h _ _ _)⟩

theorem log (layout : Layout) (level : Level) (m : Text) (cause : Option Failure) :
    Repeatable layout (Action.log level m cause) where
  covers _ h := .of_laid (log_laid layout h)
  again _ _ _ := ⟨_, rfl, fun _ hl => hl⟩

theorem forM {f : α → Action Unit} (xs : List α) (h : ∀ x ∈ xs, Repeatable layout (f x)) :
    Repeatable layout (xs.forM f) := by
  induction xs with
  | nil => exact pure layout ()
  | cons x xs ih =>
    show Repeatable layout (f x >>= fun _ => xs.forM f)
    exact bind (h x (by simp)) fun _ _ => ih fun y hy => h y (by simp [hy])

theorem mapM (xs : List α) (h : ∀ x ∈ xs, Repeatable layout (f x)) :
    Repeatable layout (xs.mapM f) := by
  induction xs with
  | nil => exact pure layout []
  | cons x xs ih =>
    rw [List.mapM_cons]
    refine bind (h x (by simp)) fun _ _ => ?_
    exact bind (ih fun y hy => h y (by simp [hy])) fun _ _ => pure layout _

theorem foldlM {f : β → α → Action β} (xs : List α)
    (h : ∀ y, ∀ x ∈ xs, Repeatable layout (f y x)) (y : β) :
    Repeatable layout (xs.foldlM f y) := by
  induction xs generalizing y with
  | nil => exact pure layout y
  | cons x xs ih =>
    rw [List.foldlM_cons]
    exact bind (h y x (by simp)) fun _ _ => ih (fun z x hx => h z x (by simp [hx])) _

theorem makeDirectories {way : Location}
    (hg : ∀ current l, OnWay (layout.root.location current) way l → layout.Ground current l) :
    Repeatable layout (Action.makeDirectories (along layout.root way)) where
  covers hs h := .of_laid (makeDirectories_laid hs (hg _) h)
  again {w w' v u} hs h hv := by
    have hthere := hv.stands (makeDirectories_stands h)
    exact ⟨v, makeDirectories_standing hthere, fun _ hl => hl⟩

theorem makeParent (layout : Layout) (way : Location) :
    Repeatable layout (Action.makeDirectories (along layout.output way).parent) := by
  rw [Layout.output_along, Asset.parent_along _ _ (by simp)]
  apply makeDirectories
  rintro current l ⟨a, ha, hp, rfl⟩
  exact Layout.ground_of_output ⟨a, ha, hp.trans (List.dropLast_prefix _), rfl⟩

theorem writeBytes (layout : Layout) (way : Location) (b : ByteArray) :
    Repeatable layout (Action.writeBytes (along layout.output way) b) where
  covers _ h := .of_laid (writeBytes_laid h)
  again {w w' v u} hs h hv := by
    have hlaid := writeBytes_laid h
    obtain ⟨hresolve, hleads⟩ := writeBytes_ok (D := fun _ => True) h
    have hwritten : w'.tree.file? ((along layout.output way).location w.current) ≠ none := by
      rw [hleads.files]
      simp [overlay]
    have hresolve' := Workspace.resolve_kept (hv.current.trans hlaid.current)
      (fun l hl => hv.kept l (hlaid.leads.kept l hl)) hresolve
    obtain ⟨v', hagain⟩ := writeBytes_over hresolve' (hv.stays _ hwritten) b
    refine ⟨v', hagain, fun l hl => ?_⟩
    rw [(writeBytes_entries hagain).2.2] at hl
    split at hl
    · cases hl
    · exact hl

theorem writeText? (layout : Layout) (way : Location) (s : Option Text) :
    Repeatable layout (Action.writeText? (along layout.output way) s) := by
  cases s with
  | some s => exact writeBytes layout way _
  | none => exact bind (writeBytes layout way _) fun _ _ => of_never fun _ _ _ => throw_ne_ok

theorem readBytes {source : Path}
    (hout : ∀ current, ¬ layout.Inside current (source.location current)) :
    Repeatable layout (Action.readBytes source) :=
  ask fun _ h hv => Workspace.readBytes_kept hv.current hv.kept (hv.spares.file _ (hout _)) h

theorem readText {source : Path}
    (hout : ∀ current, ¬ layout.Inside current (source.location current)) :
    Repeatable layout (Action.readText source) :=
  ask fun _ h hv => Workspace.readText_kept hv.current hv.kept (hv.spares.file _ (hout _)) h

theorem isFile {way : Location} (hway : ∀ n ∈ way, n.Fits)
    (hg : ∀ current, ¬ layout.Ground current (layout.root.location current ++ way)) :
    Repeatable layout (Action.isFile (along layout.root way)) := by
  apply ask
  intro w v b hs h hv
  obtain ⟨e, he, -⟩ := Workspace.entry_of_isFile h
  unfold Workspace.isFile at h ⊢
  rw [he] at h
  rwa [hv.entry hs hway hg he]

theorem below {way : Location} (hway : ∀ n ∈ way, n.Fits)
    (hg : ∀ current more, more ≠ [] →
      ¬ layout.Ground current (layout.root.location current ++ way ++ more)) :
    Repeatable layout (Action.ask (·.below (along layout.root way))) := by
  apply ask
  intro w v l hs h hv
  obtain ⟨e, he⟩ := Workspace.entry_of_below h
  have hfits := Workspace.fits_of_entry hs hway he
  obtain ⟨l', hl'⟩ := Workspace.below_of_fits (w := v) hfits
  rw [hl', Workspace.below_along (hv.stands hs) way hfits.1 hl',
    Workspace.below_along hs way hfits.1 h, hv.current]
  congr 1
  exact Tree.below_congr fun more hmore => hv.spares.entry _ (hg _ more hmore)

theorem filesBelow {way : Location} (hway : ∀ n ∈ way, n.Fits)
    (hout : ∀ current more,
      ¬ layout.Inside current (layout.root.location current ++ way ++ more)) :
    Repeatable layout (Action.filesBelow (along layout.root way)) := by
  apply ask
  intro w v ways hs h hv
  obtain ⟨e, he⟩ := Workspace.entry_of_filesBelow h
  have hfits := Workspace.fits_of_entry hs hway he
  obtain ⟨ways', hways'⟩ := Workspace.filesBelow_of_fits (w := v) hfits
  rw [hways', Workspace.filesBelow_along (hv.stands hs) way hfits.1 hways',
    Workspace.filesBelow_along hs way hfits.1 h, hv.current]
  congr 1
  exact Tree.filesBelow_congr fun more => hv.spares.file _ (hout _ more)

theorem copy {source : Path}
    (hout : ∀ current, ¬ layout.Inside current (source.location current)) (way : Location)
    (config : Config) (year : Nat) :
    Repeatable layout (Asset.copy source (along layout.output way) config year) := by
  refine bind (log _ _ _ _) fun _ _ => ?_
  refine bind (makeParent layout way) fun _ _ => ?_
  split
  · exact bind (readText hout) fun _ _ => writeText? layout way _
  · exact bind (readBytes hout) fun _ _ => writeBytes layout way _

end Repeatable

end Build

end ModBuild
