import ModBuild.Text.Basic

/-!
# Code points

A document can name any code point, also half of a surrogate pair, which is no character and has no
encoding. What a document says is therefore a list of code points, and a text only if none of them
is such a half.
-/

set_option autoImplicit false

namespace ModBuild

inductive CodePoint where
  | scalar (c : Char)
  | surrogate (unit : Nat)
  deriving DecidableEq, Repr

namespace CodePoint

def char? : CodePoint → Option Char
  | scalar c => some c
  | surrogate _ => none

def ofText (s : Text) : List CodePoint := s.map scalar

def text? : List CodePoint → Option Text
  | [] => some []
  | p :: rest => p.char?.bind fun c => (text? rest).map (c :: ·)

theorem text?_ofText (s : Text) : text? (ofText s) = some s := by
  induction s with
  | nil => rfl
  | cons c s ih =>
    rw [ofText, List.map_cons, text?, ← ofText, ih]
    rfl

theorem eq_ofText_of_text? {points : List CodePoint} {s : Text} (h : text? points = some s) :
    points = ofText s := by
  induction points generalizing s with
  | nil =>
    rw [text?, Option.some.injEq] at h
    rw [← h]
    rfl
  | cons p rest ih =>
    rw [text?] at h
    cases p with
    | scalar c =>
      obtain ⟨t, ht, rfl⟩ := Option.map_eq_some_iff.1 h
      rw [ih ht]
      rfl
    | surrogate unit => exact nomatch h

end CodePoint

end ModBuild
