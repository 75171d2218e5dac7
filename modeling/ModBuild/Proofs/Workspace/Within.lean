import ModBuild.Proofs.Workspace.Along

/-!
# What holds however an action ends

An action that fails keeps what it did before, so what is promised of its last
workspace has to hold at every point where it can stop. A relation that sees
only the tree and the current directory, and that adds up, is kept by a
composed action if its parts keep it.
-/

set_option autoImplicit false

namespace ModBuild.Action

class Frame (R : Workspace → Workspace → Prop) : Prop where
  same : ∀ {w w' : Workspace}, w'.tree = w.tree → w'.current = w.current → R w w'
  trans : ∀ {w w' w'' : Workspace}, R w w' → R w' w'' → R w w''

def Within {α : Type} (R : Workspace → Workspace → Prop) (a : Action α) : Prop :=
  ∀ w, R w (a.final w)

section

variable {α β : Type} {R : Workspace → Workspace → Prop} [Frame R]

theorem within_same {a : Action α}
    (h : ∀ w, (a.final w).tree = w.tree ∧ (a.final w).current = w.current) : Within R a :=
  fun w => Frame.same (h w).1 (h w).2

theorem within_pure (x : α) : Within R (pure x : Action α) := within_same fun _ => ⟨rfl, rfl⟩

theorem within_throw (e : Failure) : Within R (throw e : Action α) :=
  within_same fun _ => ⟨rfl, rfl⟩

theorem within_log (level : Level) (m : Text) (cause : Option Failure) :
    Within R (log level m cause) := within_same fun _ => ⟨rfl, rfl⟩

theorem within_ask (q : Workspace → Except Failure α) : Within R (ask q) := by
  apply within_same
  intro w
  rw [ask_final]
  exact ⟨rfl, rfl⟩

theorem within_change {step : Workspace → Except Failure Workspace}
    (h : ∀ w w', step w = .ok w' → R w w') : Within R (change step) := by
  intro w
  rw [final, change]
  cases hs : step w with
  | ok w' => exact h w w' hs
  | error e => exact Frame.same rfl rfl

theorem within_bind_ok {a : Action α} {f : α → Action β} (ha : Within R a)
    (hf : ∀ w x v, a w = .ok x v → Within R (f x)) : Within R (a >>= f) := by
  intro w
  have hw := ha w
  cases h : a w with
  | ok x v =>
    rw [final_of_ok h] at hw
    rw [final, bind_of_ok h]
    exact Frame.trans hw (hf w x v h v)
  | error e v =>
    rw [final_of_error h] at hw
    rw [final, bind_of_error h]
    exact hw

theorem within_bind {a : Action α} {f : α → Action β} (ha : Within R a)
    (hf : ∀ x, Within R (f x)) : Within R (a >>= f) := within_bind_ok ha fun _ x _ _ => hf x

theorem within_forM {f : α → Action Unit} (xs : List α) (h : ∀ x ∈ xs, Within R (f x)) :
    Within R (xs.forM f) := by
  induction xs with
  | nil => exact within_pure ()
  | cons x xs ih =>
    show Within R (f x >>= fun _ => xs.forM f)
    exact within_bind (h x (by simp)) fun _ => ih fun y hy => h y (by simp [hy])

theorem within_mapM {f : α → Action β} (xs : List α) (h : ∀ x ∈ xs, Within R (f x)) :
    Within R (xs.mapM f) := by
  induction xs with
  | nil => exact within_pure []
  | cons x xs ih =>
    rw [List.mapM_cons]
    apply within_bind (h x (by simp))
    intro y
    exact within_bind (ih fun z hz => h z (by simp [hz])) fun _ => within_pure _

theorem within_foldlM {f : β → α → Action β} (xs : List α) (h : ∀ y, ∀ x ∈ xs, Within R (f y x))
    (y : β) : Within R (xs.foldlM f y) := by
  induction xs generalizing y with
  | nil => exact within_pure y
  | cons x xs ih =>
    rw [List.foldlM_cons]
    exact within_bind (h y x (by simp)) fun z => ih (fun z x hx => h z x (by simp [hx])) z

theorem within_writeText? {p : Path} (h : ∀ b, Within R (writeBytes p b)) (s : Option Text) :
    Within R (writeText? p s) := by
  cases s with
  | some s => exact h _
  | none => exact within_bind (h _) fun _ => within_throw _

theorem within_copy {source p : Path} {config : Config} {year : Nat}
    (hmake : Within R (makeDirectories p.parent)) (hwrite : ∀ b, Within R (writeBytes p b)) :
    Within R (Asset.copy source p config year) := by
  unfold Asset.copy
  refine within_bind (within_log _ _ _) fun _ => ?_
  refine within_bind hmake fun _ => ?_
  split
  · exact within_bind (within_ask _) fun s => within_writeText? hwrite _
  · exact within_bind (within_ask _) fun b => hwrite b

end

end ModBuild.Action

namespace ModBuild

open ModBuild.Action

namespace Workspace

theorem Leads.grown {w w' : Workspace} {D : Location → Prop} (h : w.Leads D [] w')
    (l : Location) : w'.tree.get? l = w.tree.get? l ∨
      w.tree.get? l = none ∧ w'.tree.get? l = some .directory ∧ D l := by
  by_cases hd : w'.tree.get? l = some .directory
  · cases hw : w.tree.get? l with
    | none =>
      rcases h.added l hd with h' | h'
      · rw [hw] at h'
        cases h'
      · exact .inr ⟨rfl, hd, h'⟩
    | some e =>
      cases e with
      | directory => exact .inl hd
      | file b =>
        have hfile := h.file_untouched (l := l) (by simp)
        rw [(w.tree.file_eq_some l b).mpr hw, Tree.file_eq_some] at hfile
        exact .inl hfile
  · -- the new directory at this place is ruled out, so nothing may be new there
    have hnot : w.Leads (fun m => D m ∧ m ≠ l) [] w' :=
      ⟨h.current, h.files, h.kept, fun m hm => (h.added m hm).imp_right fun hD =>
        ⟨hD, fun e => hd (e ▸ hm)⟩⟩
    exact .inl (hnot.get_untouched (by simp) fun hD => hD.2 rfl)

/-- What differs is in `E`, or it is a new directory in `D`; both are told from
the current directory, which stays. -/
structure Touches (D E : Location → Location → Prop) (w w' : Workspace) : Prop where
  current : w'.current = w.current
  entry : ∀ l, w'.tree.get? l = w.tree.get? l ∨ E w.current l ∨
    w.tree.get? l = none ∧ w'.tree.get? l = some .directory ∧ D w.current l

instance (D E : Location → Location → Prop) : Frame (Touches D E) where
  same ht hc := ⟨hc, fun l => .inl (by rw [ht])⟩
  trans {w w' w''} h h' := by
    refine ⟨h'.current.trans h.current, fun l => ?_⟩
    have hentry := h'.entry l
    rw [h.current] at hentry
    rcases hentry with he | he | ⟨hnone, hd, hD⟩
    · rw [he]
      exact h.entry l
    · exact .inr (.inl he)
    · rcases h.entry l with he | he | ⟨-, hd', -⟩
      · exact .inr (.inr ⟨he ▸ hnone, hd, hD⟩)
      · exact .inr (.inl he)
      · rw [hd'] at hnone
        cases hnone

theorem Leads.touches {w w' : Workspace} {D E : Location → Location → Prop}
    (h : w.Leads (D w.current) [] w') : w.Touches D E w' :=
  ⟨h.current, fun l => (h.grown l).imp_right .inr⟩

end Workspace

namespace Path

def Outer (p : Path) (current l : Location) : Prop :=
  ∃ q : Path, p.isWithin q = true ∧ l = q.location current

theorem isWithin_iff {p q : Path} :
    p.isWithin q = true ↔ p.anchor = q.anchor ∧ q.segments <+: p.segments := by
  rw [isWithin, Bool.and_eq_true, beq_iff_eq, List.isPrefixOf_iff_prefix]

theorem Outer.of_within {p q : Path} {current l : Location} (h : q.Outer current l)
    (hq : p.isWithin q = true) : p.Outer current l := by
  obtain ⟨r, hr, rfl⟩ := h
  rw [isWithin_iff] at hq hr
  exact ⟨r, isWithin_iff.mpr ⟨hq.1.trans hr.1, hr.2.trans hq.2⟩, rfl⟩

theorem Outer.along {base : Path} {way current l : Location}
    (h : (Asset.along base way).Outer current l) :
    base.Outer current l ∨ base.location current <+: l := by
  obtain ⟨q, hq, rfl⟩ := h
  rw [isWithin_iff, Asset.along_eq] at hq
  obtain ⟨hanchor, hprefix⟩ := hq
  rcases List.prefix_or_prefix_of_prefix hprefix (List.prefix_append _ _) with h | ⟨rest, h⟩
  · exact .inl ⟨q, isWithin_iff.mpr ⟨hanchor, h⟩, rfl⟩
  · right
    rw [← h, List.prefix_append_right_inj, List.prefix_map_iff] at hprefix
    obtain ⟨more, -, rfl⟩ := hprefix
    have hq : q = Asset.along base more := by
      rw [Asset.along_eq, h, hanchor]
    rw [hq, Asset.location_along]
    exact List.prefix_append _ _

end Path

namespace Action

variable {D E : Location → Location → Prop} {w : Workspace} {p : Path}

theorem makeDirectories_outer (p : Path) (w : Workspace) :
    w.Leads (p.Outer w.current) [] ((makeDirectories p).final w) := by
  have hstep (rev : List Segment) (hrev : rev.reverse <+: p.segments) :
      w.Leads (p.Outer w.current) [] ((makeDirectoriesFrom p.anchor rev).final w) := by
    have hend (ss : List Segment) (hss : ss.reverse <+: p.segments) :
        p.Outer w.current (Path.location w.current ⟨p.anchor, ss.reverse⟩) :=
      ⟨⟨p.anchor, ss.reverse⟩, Path.isWithin_iff.mpr ⟨rfl, hss⟩, rfl⟩
    induction rev with
    | nil =>
      rw [makeDirectoriesFrom]
      apply (makeOne_leads _ w).mono
      rintro l rfl
      exact hend [] hrev
    | cons s outer ih =>
      apply makeDirectoriesFrom_leads p.anchor s outer rfl (hend _ hrev)
      apply ih
      rw [List.reverse_cons] at hrev
      exact (List.prefix_append _ _).trans hrev
  apply hstep
  simp

theorem within_makeDirectories (h : ∀ current l, p.Outer current l → D current l) :
    Within (Workspace.Touches D E) (makeDirectories p) :=
  fun w => ((makeDirectories_outer p w).mono (h w.current)).touches

theorem within_onTree {change : Tree → Location → Except Fault Tree}
    (h : ∀ current t t', change t (p.location current) = .ok t' →
      ∀ l, t'.get? l = t.get? l ∨ E current l) :
    Within (Workspace.Touches D E) (Action.change (·.onTree p change)) := by
  apply within_change
  intro w w' hchange
  obtain ⟨l, t, -, rfl, ht, rfl⟩ := Workspace.onTree_ok hchange
  exact ⟨rfl, fun l => (h w.current w.tree t ht l).imp_right .inl⟩

theorem writeBytes_entries {w w' : Workspace} {b : ByteArray} {u : Unit}
    (h : writeBytes p b w = .ok u w') :
    w'.current = w.current ∧ w.tree.get? (p.location w.current) ≠ some .directory ∧
      ∀ l, w'.tree.get? l =
        if p.location w.current = l then some (.file b) else w.tree.get? l := by
  rw [writeBytes, change_eq_ok] at h
  obtain ⟨l, t, -, rfl, ht, rfl⟩ := Workspace.onTree_ok h
  exact ⟨rfl, Tree.writeFile_ok ht⟩

theorem within_writeBytes (h : ∀ current, E current (p.location current)) (b : ByteArray) :
    Within (Workspace.Touches D E) (writeBytes p b) := by
  apply within_onTree
  intro current t t' ht l
  rw [(Tree.writeFile_ok ht).2]
  split
  · next hl => exact .inr (hl ▸ h current)
  · exact .inl rfl

theorem within_removeFile (h : ∀ current, E current (p.location current)) :
    Within (Workspace.Touches D E) (removeFile p) := by
  apply within_onTree
  intro current t t' ht l
  rw [(Tree.removeFile_ok ht).2]
  split
  · next hl => exact .inr (hl ▸ h current)
  · exact .inl rfl

theorem within_removeTree (h : ∀ current l, p.location current <+: l → E current l) :
    Within (Workspace.Touches D E) (removeTree p) := by
  apply within_onTree
  intro current t t' ht l
  cases ht
  by_cases hp : p.location current = []
  · exact .inr (h current l (hp ▸ List.nil_prefix))
  · rw [Tree.get?_prune _ _ _ hp]
    split
    · next hl => exact .inr (h current l hl)
    · exact .inl rfl

end Action

end ModBuild
