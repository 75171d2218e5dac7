import ModBuild.Scope
import ModBuild.Text.Blank

/-!
# Module specifiers

The host merges the scope directories, so the specifiers in a merged declaration file lose their
leading scopes. A specifier is a quote behind one of five openings; the scopes stand directly behind
the quote.
-/

set_option autoImplicit false

namespace ModBuild.Declaration

/-- The openings of a specifier, and whether white space may stand between one and its quote. No
opening is the beginning of another one. -/
def openings : List (Text × Bool) :=
  [("declare module ".toList, false), ("from ".toList, false), ("import ".toList, false),
    ("import(".toList, true), ("require(".toList, true)]

def openedBy? (s : Text) : Text × Bool → Option (Text × Text)
  | (o, false) => (Text.after? o s).map ((o, ·))
  | (o, true) =>
    (Text.after? o s).map fun r => (o ++ r.takeWhile Text.isBlank, r.dropWhile Text.isBlank)

def opening? (s : Text) : Option (Text × Text) :=
  match openings.findSome? (openedBy? s) with
  | some (o, q :: rest) => if q = '"' || q = '\'' then some (o ++ [q], rest) else none
  | _ => none

def afterScope? (s : Text) : Option Text :=
  Scope.directories.findSome? fun scope => Text.after? (scope.text ++ ['/']) s

theorem length_afterScope? {s rest : Text} (h : afterScope? s = some rest) :
    rest.length < s.length := by
  obtain ⟨x, -, hx⟩ := List.exists_of_findSome?_eq_some h
  rw [(Text.after?_eq_some_iff _ _ _).1 hx]
  simp only [List.length_append, List.length_singleton]
  omega

def dropScopes (s : Text) : Text :=
  match _h : afterScope? s with
  | none => s
  | some rest => dropScopes rest
termination_by s.length
decreasing_by exact length_afterScope? _h

theorem length_dropScopes (s : Text) : (dropScopes s).length ≤ s.length := by
  fun_induction dropScopes s with
  | case1 => exact Nat.le_refl _
  | case2 s rest h ih => exact Nat.le_trans ih (Nat.le_of_lt (length_afterScope? h))

def scoped? (s : Text) : Option (Text × Text) :=
  match opening? s with
  | none => none
  | some (o, rest) => (afterScope? rest).map fun behind => (o, dropScopes behind)

theorem openedBy?_append {s a b : Text} {o : Text × Bool} (h : openedBy? s o = some (a, b)) :
    s = a ++ b := by
  obtain ⟨o, _ | _⟩ := o
  · simp only [openedBy?, Option.map_eq_some_iff, Prod.mk.injEq] at h
    obtain ⟨r, hr, rfl, rfl⟩ := h
    exact (Text.after?_eq_some_iff _ _ _).1 hr
  · simp only [openedBy?, Option.map_eq_some_iff, Prod.mk.injEq] at h
    obtain ⟨r, hr, rfl, rfl⟩ := h
    rw [List.append_assoc, List.takeWhile_append_dropWhile]
    exact (Text.after?_eq_some_iff _ _ _).1 hr

theorem opening?_append {s o rest : Text} (h : opening? s = some (o, rest)) : s = o ++ rest := by
  rw [opening?] at h
  split at h
  · next o' q rest' ho =>
    split at h
    · obtain ⟨x, -, hx⟩ := List.exists_of_findSome?_eq_some ho
      simp only [Option.some.injEq, Prod.mk.injEq] at h
      obtain ⟨rfl, rfl⟩ := h
      simpa using openedBy?_append hx
    · simp at h
  · simp at h

theorem length_scoped? {s o rest : Text} (h : scoped? s = some (o, rest)) :
    rest.length < s.length := by
  rw [scoped?] at h
  split at h
  · simp at h
  · next o' r ho =>
    simp only [Option.map_eq_some_iff, Prod.mk.injEq] at h
    obtain ⟨b, hb, -, rfl⟩ := h
    have h₁ := length_dropScopes b
    have h₂ := length_afterScope? hb
    have h₃ := congrArg List.length (opening?_append ho)
    rw [List.length_append] at h₃
    omega

def flatten (s : Text) : Text :=
  match _h : scoped? s with
  | some (o, rest) => o ++ flatten rest
  | none =>
    match s with
    | [] => []
    | c :: rest => c :: flatten rest
termination_by s.length
decreasing_by
  · exact length_scoped? _h
  · simp

end ModBuild.Declaration
