import ModBuild.Text.Basic

/-!
# Lines

Two readings of line ends. `lines` cuts text at every character or pair that ends a line and gives
no empty line after a final break; `unifyBreaks` turns the three line ends of text files into one,
as every text file is read.
-/

set_option autoImplicit false

namespace ModBuild.Text

/-- The characters that end a line: line feed, carriage return, the vertical tabulator, the form
feed, the file, group and record separators, the next-line character and the two separators of
Unicode. -/
def isLineEnd (c : Char) : Bool :=
  let n := c.toNat
  (0x0A ≤ n && n ≤ 0x0D) || (0x1C ≤ n && n ≤ 0x1E) || n == 0x85 || n == 0x2028 || n == 0x2029

def consLine (c : Char) : List Text → List Text
  | [] => [[c]]
  | line :: rest => (c :: line) :: rest

/-- The lines of a text without their ends; a carriage return and a line feed end one line. -/
def lines : Text → List Text
  | [] => []
  | '\r' :: '\n' :: s => [] :: lines s
  | c :: s => if isLineEnd c then [] :: lines s else consLine c (lines s)

/-- Every carriage return, alone or in front of a line feed, read as one line feed. -/
def unifyBreaks : Text → Text
  | [] => []
  | '\r' :: '\n' :: s => '\n' :: unifyBreaks s
  | c :: s => (if c = '\r' then '\n' else c) :: unifyBreaks s

theorem carriageReturn_not_mem_unifyBreaks (s : Text) : '\r' ∉ unifyBreaks s := by
  fun_induction unifyBreaks s with
  | case1 => simp
  | case2 s ih => simpa using ih
  | case3 c s _ ih =>
    by_cases h : c = '\r'
    · simp [h, ih]
    · simp [h, ih, Ne.symm h]

theorem unifyBreaks_eq_self {s : Text} (h : '\r' ∉ s) : unifyBreaks s = s := by
  fun_induction unifyBreaks s with
  | case1 => rfl
  | case2 s ih => simp at h
  | case3 c s _ ih =>
    simp only [List.mem_cons, not_or] at h
    simp [Ne.symm h.1, ih h.2]

theorem unifyBreaks_eq_self_iff {s : Text} : unifyBreaks s = s ↔ '\r' ∉ s :=
  ⟨fun h => h ▸ carriageReturn_not_mem_unifyBreaks s, unifyBreaks_eq_self⟩

end ModBuild.Text
