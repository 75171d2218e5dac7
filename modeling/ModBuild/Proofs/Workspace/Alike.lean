import ModBuild.Proofs.Workspace.Along

/-!
# Workspaces that look the same

What was logged, printed and run before is a record of a workspace that nothing reads. Actions that
see only the files and the current directory end in the same way in workspaces that agree on these,
and whatever is composed of such actions does so too.
-/

set_option autoImplicit false

namespace ModBuild

/-- Two workspaces with the same files and the same current directory. -/
structure Workspace.Alike (w v : Workspace) : Prop where
  tree : v.tree = w.tree
  current : v.current = w.current

namespace Workspace.Alike

variable {w v : Workspace}

theorem symm (h : w.Alike v) : v.Alike w := ⟨h.tree.symm, h.current.symm⟩

theorem resolve (h : w.Alike v) (p : Path) : v.resolve p = w.resolve p := by
  rw [Workspace.resolve, Workspace.resolve, h.tree, h.current]

theorem isDirectory (h : w.Alike v) (p : Path) : v.isDirectory p = w.isDirectory p := by
  rw [Workspace.isDirectory, Workspace.isDirectory, entry?, entry?, h.resolve, h.tree]

end Workspace.Alike

namespace Action

variable {α β : Type} {w w' v : Workspace}

def Blind (a : Action α) : Prop := ∀ w v, w.Alike v →
  match a w with
  | .ok x w' => ∃ v', a v = .ok x v' ∧ w'.Alike v'
  | .error e w' => ∃ v', a v = .error e v' ∧ w'.Alike v'

theorem Blind.ok {a : Action α} (h : Blind a) (hv : w.Alike v) {x : α} (ha : a w = .ok x w') :
    ∃ v', a v = .ok x v' ∧ w'.Alike v' := by
  have hw := h w v hv
  rwa [ha] at hw

theorem Blind.error {a : Action α} (h : Blind a) (hv : w.Alike v) {e : Failure}
    (ha : a w = .error e w') : ∃ v', a v = .error e v' ∧ w'.Alike v' := by
  have hw := h w v hv
  rwa [ha] at hw

theorem blind_pure (x : α) : Blind (pure x) := fun _ v hv => ⟨v, rfl, hv⟩

theorem blind_throw (e : Failure) : Blind (throw e : Action α) := fun _ v hv => ⟨v, rfl, hv⟩

theorem blind_bind {a : Action α} {f : α → Action β} (ha : Blind a) (hf : ∀ x, Blind (f x)) :
    Blind (a >>= f) := by
  intro w v hv
  cases h : a w with
  | ok x w₁ =>
    obtain ⟨v₁, h', hv₁⟩ := ha.ok hv h
    rw [bind_of_ok h, bind_of_ok h']
    exact hf x w₁ v₁ hv₁
  | error e w₁ =>
    rw [bind_of_error h]
    obtain ⟨v₁, h', hv₁⟩ := ha.error hv h
    exact ⟨v₁, bind_of_error h', hv₁⟩

theorem blind_attempt {a : Action α} (h : Blind a) : Blind (attempt a) := by
  intro w v hv
  cases ha : a w with
  | ok x w₁ =>
    obtain ⟨v₁, ha', hv₁⟩ := h.ok hv ha
    rw [attempt_of_ok ha]
    exact ⟨v₁, attempt_of_ok ha', hv₁⟩
  | error e w₁ =>
    obtain ⟨v₁, ha', hv₁⟩ := h.error hv ha
    rw [attempt_of_error ha]
    exact ⟨v₁, attempt_of_error ha', hv₁⟩

theorem blind_ask {q : Workspace → Except Failure α} (h : ∀ w v, w.Alike v → q v = q w) :
    Blind (ask q) := by
  intro w v hv
  rw [ask]
  cases hq : q w with
  | ok x => exact ⟨v, by rw [ask, h w v hv, hq], hv⟩
  | error e => exact ⟨v, by rw [ask, h w v hv, hq], hv⟩

theorem blind_onTree (p : Path) (step : Tree → Location → Except Fault Tree) :
    Blind (change fun w => w.onTree p step) := by
  intro w v hv
  have hstep : v.onTree p step = (w.onTree p step).map fun w' => { v with tree := w'.tree } := by
    unfold Workspace.onTree
    rw [hv.resolve, hv.tree]
    cases w.resolve p with
    | error e => rfl
    | ok l =>
      simp only [bind, Except.bind]
      cases step w.tree l <;> rfl
  rw [change]
  cases h : w.onTree p step with
  | ok w' =>
    rw [h] at hstep
    obtain ⟨l, t, -, -, -, rfl⟩ := Workspace.onTree_ok h
    exact ⟨_, change_eq_ok.mpr hstep, rfl, hv.current⟩
  | error e =>
    rw [h] at hstep
    exact ⟨v, change_eq_error.mpr ⟨hstep, rfl⟩, hv⟩

theorem blind_makeDirectory (p : Path) : Blind (makeDirectory p) := blind_onTree p _

theorem blind_writeBytes (p : Path) (b : ByteArray) : Blind (writeBytes p b) := blind_onTree p _

theorem blind_forgive (p : Path) (e : Failure) : Blind (forgive p e) := by
  unfold forgive
  split
  · exact blind_throw _
  · refine blind_bind (blind_ask fun w v hv => hv.isDirectory p) fun there => ?_
    split
    · exact blind_throw _
    · exact blind_pure _
  · exact blind_throw _

theorem blind_makeOne (p : Path) : Blind (makeOne p) := by
  refine blind_bind (blind_attempt (blind_makeDirectory p)) fun made => ?_
  split
  · exact blind_pure _
  · exact blind_forgive p _

theorem blind_makeDirectories (p : Path) : Blind (makeDirectories p) := by
  unfold makeDirectories
  induction p.segments.reverse with
  | nil => exact blind_makeOne _
  | cons s outer ih =>
    refine blind_bind (blind_attempt (blind_makeDirectory _)) fun made => ?_
    split
    · exact blind_pure _
    · exact blind_bind ih fun _ => blind_makeOne _
    · exact blind_forgive _ _

end Action

end ModBuild
