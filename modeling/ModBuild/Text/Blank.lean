import ModBuild.Text.Basic

/-!
# White space

The characters that trimming removes, that make a line blank, and that may stand between an opening
parenthesis and a quoted specifier.
-/

set_option autoImplicit false

namespace ModBuild.Text

/-- White space: the tabulators and line ends, the four separators of ASCII, and the space
characters of Unicode. -/
def isBlank (c : Char) : Bool :=
  let n := c.toNat
  (0x09 ≤ n && n ≤ 0x0D) || (0x1C ≤ n && n ≤ 0x20) || n == 0x85 || n == 0xA0 || n == 0x1680 ||
    (0x2000 ≤ n && n ≤ 0x200A) || n == 0x2028 || n == 0x2029 || n == 0x202F || n == 0x205F ||
    n == 0x3000

def trimStart (s : Text) : Text := s.dropWhile isBlank

def trimEnd (s : Text) : Text := (trimStart s.reverse).reverse

def trim (s : Text) : Text := trimEnd (trimStart s)

def blank (s : Text) : Bool := s.all isBlank

theorem trimStart_eq_nil_iff (s : Text) : trimStart s = [] ↔ blank s = true := by
  induction s with
  | nil => simp [trimStart, blank]
  | cons c s ih =>
    rw [trimStart, blank] at ih
    by_cases h : isBlank c = true <;> simp [trimStart, blank, h, ih]

theorem trim_eq_nil_iff (s : Text) : trim s = [] ↔ blank s = true := by
  rw [← trimStart_eq_nil_iff, trim, trimEnd, List.reverse_eq_nil_iff, trimStart_eq_nil_iff]
  cases h : trimStart s with
  | nil => simp [blank]
  | cons c t =>
    have hc : isBlank c = false := by
      have := List.head?_dropWhile_not isBlank s
      rw [← trimStart, h] at this
      simpa using this
    simp [blank, hc]

theorem isBlank_of_isWhitespace (c : Char) (h : c.isWhitespace = true) : isBlank c = true := by
  simp only [Char.isWhitespace, Bool.or_eq_true, decide_eq_true_eq] at h
  rcases h with ((rfl | rfl) | rfl) | rfl <;> decide

end ModBuild.Text
