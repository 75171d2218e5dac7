import ModBuild.Text.Basic

/-!
# The order of texts

Of two texts the one with the smaller code point at the first place where they differ comes first,
and a text comes before its continuations. The order is linear.
-/

set_option autoImplicit false

namespace ModBuild.Text

def before (a b : Text) : Bool := List.lex a b fun x y => x < y

theorem before_eq_true_iff {a b : Text} : before a b = true ↔ a < b := List.lex_eq_true_iff_lt

def le (a b : Text) : Bool := !before b a

theorem le_eq_true_iff {a b : Text} : le a b = true ↔ ¬ b < a := by
  rw [le, Bool.not_eq_true', ← before_eq_true_iff, Bool.not_eq_true]

theorem le_total (a b : Text) : le a b = true ∨ le b a = true :=
  (List.le_total (α := Char) a b).imp le_eq_true_iff.2 le_eq_true_iff.2

theorem le_trans {a b c : Text} (h₁ : le a b = true) (h₂ : le b c = true) : le a c = true :=
  le_eq_true_iff.2 (List.le_trans (α := Char) (le_eq_true_iff.1 h₁) (le_eq_true_iff.1 h₂))

theorem le_antisymm {a b : Text} (h₁ : le a b = true) (h₂ : le b a = true) : a = b :=
  List.le_antisymm (α := Char) (le_eq_true_iff.1 h₁) (le_eq_true_iff.1 h₂)

def sorted (texts : List Text) : List Text := texts.mergeSort le

theorem pairwise_sorted (texts : List Text) : (sorted texts).Pairwise fun a b => le a b = true := by
  apply List.pairwise_mergeSort
  · exact fun _ _ _ => le_trans
  · exact fun a b => Bool.or_eq_true_iff.2 (le_total a b)

end ModBuild.Text
