import ModBuild.Text.Basic

/-!
# Calls of require

Emitted modules load others by `require("reference")`. A module text is cut into these calls and
single characters between them, and the pieces join back to the text. A call needs a plain literal:
where the first quote after the opening one is not followed by a parenthesis, the text up to that
quote is passed over, and an opening without a second quote ends the search.
-/

set_option autoImplicit false

namespace ModBuild.Require

inductive Token where
  | plain (c : Char)
  | call (reference : Text)
  deriving DecidableEq, Repr

def opening : Text := "require(\"".toList

def emitted (reference : Text) : Text := opening ++ reference ++ "\")".toList

namespace Token

def text : Token → Text
  | .plain c => [c]
  | .call r => emitted r

end Token

theorem length_after?_opening {s rest : Text} (h : Text.after? opening s = some rest) :
    s.length = 9 + rest.length := by
  rw [(Text.after?_eq_some_iff _ _ _).1 h, List.length_append]
  rfl

theorem length_cutAt? {sep : Char} {s a b : Text} (h : Text.cutAt? sep s = some (a, b)) :
    s.length = a.length + 1 + b.length := by
  rw [((Text.cutAt?_eq_some_iff _ _ _ _).1 h).1, List.length_append, List.length_cons]
  omega

def tokens (s : Text) : List Token :=
  match _hs : Text.after? opening s with
  | none =>
    match s with
    | [] => []
    | c :: rest => .plain c :: tokens rest
  | some literal =>
    match _hl : Text.cutAt? '"' literal with
    | none => s.map .plain
    | some (reference, ')' :: rest) => .call reference :: tokens rest
    | some (passed, rest) => (opening ++ passed ++ ['"']).map .plain ++ tokens rest
termination_by s.length
decreasing_by
  · simp
  · have h₁ := length_after?_opening _hs
    have h₂ := length_cutAt? _hl
    simp only [List.length_cons] at h₂
    omega
  · have h₁ := length_after?_opening _hs
    have h₂ := length_cutAt? _hl
    omega

theorem text_map_plain (s : Text) : (s.map Token.plain).flatMap Token.text = s := by
  induction s with
  | nil => rfl
  | cons c s ih => simp [Token.text, ih]

theorem flatMap_text_tokens (s : Text) : (tokens s).flatMap Token.text = s := by
  fun_induction tokens s with
  | case1 => rfl
  | case2 c rest _ ih => simp [Token.text, ih]
  | case3 s => exact text_map_plain s
  | case4 s literal hs reference rest hl ih =>
    have h₁ := (Text.after?_eq_some_iff _ _ _).1 hs
    have h₂ := ((Text.cutAt?_eq_some_iff _ _ _ _).1 hl).1
    simp [Token.text, emitted, ih, h₁, h₂]
  | case5 s literal hs passed rest _ hl ih =>
    have h₁ := (Text.after?_eq_some_iff _ _ _).1 hs
    have h₂ := ((Text.cutAt?_eq_some_iff _ _ _ _).1 hl).1
    rw [List.flatMap_append, text_map_plain, ih, h₁, h₂]
    simp

/-- A call and where it stands: `stop` is the offset behind its closing parenthesis. -/
structure Call where
  start : Nat
  stop : Nat
  reference : Text
  deriving DecidableEq, Repr

def locate : Nat → List Token → List Call
  | _, [] => []
  | n, .plain _ :: rest => locate (n + 1) rest
  | n, .call r :: rest =>
    let stop := n + (emitted r).length
    ⟨n, stop, r⟩ :: locate stop rest

def calls (s : Text) : List Call := locate 0 (tokens s)

end ModBuild.Require
