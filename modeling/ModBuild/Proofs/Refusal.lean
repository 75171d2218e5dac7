import ModBuild.Proofs.Library

/-!
# Names that are no versions

A part of a name that consists of digits is to be a number, but there are digits that no numeral is
written with. So a part is refused if all of it are digits and one of them is no decimal digit. In
the name of a directory, which has no room for a numeral that is too long, nothing else is refused.
-/

set_option autoImplicit false

namespace ModBuild

theorem mapM_stops {α β ε : Type} {f : α → Except ε β} {P : α → Prop} [DecidablePred P]
    {refusal : α → ε} {answer : α → β} {xs : List α}
    (h : ∀ x ∈ xs, f x = if P x then .error (refusal x) else .ok (answer x)) :
    xs.mapM f = (xs.find? fun x => P x).elim (.ok (xs.map answer)) fun x => .error (refusal x) := by
  induction xs with
  | nil => rfl
  | cons x xs ih =>
    obtain ⟨hx, hxs⟩ := List.forall_mem_cons.mp h
    rw [List.mapM_cons, hx, List.find?_cons]
    by_cases hP : P x
    · simp only [if_pos hP, decide_eq_true hP]
      rfl
    · simp only [if_neg hP, decide_eq_false hP, ih hxs]
      cases xs.find? (fun x => P x) <;> rfl

namespace Text

theorem isDigit_of_decimal {c : Char} (h : decimalValue? c ≠ none) : isDigit c = true := by
  rw [isDigit, Option.isSome_iff_ne_none.mpr h]
  rfl

theorem decimals_cases (s : Text) :
    (∃ c ∈ s, decimalValue? c = none) ∧ s.mapM decimalValue? = none ∨
    (∀ c ∈ s, decimalValue? c ≠ none) ∧
      ∃ ds, s.mapM decimalValue? = some ds ∧ ds.length = s.length := by
  induction s with
  | nil => exact .inr ⟨by simp, [], rfl, rfl⟩
  | cons c s ih =>
    rw [List.mapM_cons]
    cases hc : decimalValue? c with
    | none => exact .inl ⟨⟨c, by simp, hc⟩, rfl⟩
    | some d =>
      rcases ih with ⟨⟨c', hmem, hc'⟩, hs⟩ | ⟨hvalues, ds, hs, hlen⟩
      · exact .inl ⟨⟨c', by simp [hmem], hc'⟩, by rw [hs]; rfl⟩
      · refine .inr ⟨List.forall_mem_cons.mpr ⟨by simp [hc], hvalues⟩, d :: ds, ?_, ?_⟩
        · rw [hs]
          rfl
        · rw [List.length_cons, List.length_cons, hlen]

end Text

namespace Version

/-- All of a part are digits, but not all of them are decimal digits. -/
def Undecimal (part : Text) : Prop :=
  (∀ c ∈ part, Text.isDigit c = true) ∧ ∃ c ∈ part, Text.decimalValue? c = none

-- Given by hand: where `Char` is known to be finite, a search finds a walk over all of it.
instance (part : Text) : Decidable (Undecimal part) :=
  @instDecidableAnd _ _ (List.decidableBAll _ part) (List.decidableBEx _ part)

/-- What a part is read as: a number if it consists of decimal digits, and a word otherwise. -/
def partOf (part : Text) : Part :=
  match part.mapM Text.decimalValue? with
  | some (d :: ds) => .number (Text.ofDigits (d :: ds))
  | _ => .word part

theorem readPart_eq {part : Text} (h : part.length ≤ digitLimit) :
    readPart part = if Undecimal part then .error (.notDecimal part) else .ok (partOf part) := by
  have hshort : ¬ digitLimit < (part.takeWhile fun c => (Text.decimalValue? c).isSome).length :=
    Nat.not_lt.mpr ((List.takeWhile_sublist _).length_le.trans h)
  rw [readPart, partOf]
  simp only [if_neg hshort]
  rcases Text.decimals_cases part with ⟨hnone, hmap⟩ | ⟨hvalues, ds, hmap, hlen⟩
  · have hne : part ≠ [] := by
      rintro rfl
      simp at hnone
    by_cases hall : ∀ c ∈ part, Text.isDigit c = true
    · rw [if_neg (by simpa [hne] using hall), if_pos ⟨hall, hnone⟩, hmap]
    · rw [if_pos (by simpa [hne] using hall), if_neg fun hu => hall hu.1, hmap]
  · have hdecimal : ¬ Undecimal part := by
      rintro ⟨-, c, hc, hnone⟩
      exact hvalues c hc hnone
    rw [if_neg hdecimal, hmap]
    cases ds with
    | nil => rw [if_pos (by simp [List.eq_nil_of_length_eq_zero hlen.symm])]
    | cons d ds =>
      have hne : part ≠ [] := by
        rintro rfl
        cases hlen
      have hdigits : ∀ c ∈ part, Text.isDigit c = true := fun c hc =>
        Text.isDigit_of_decimal (hvalues c hc)
      rw [if_neg (by simpa [hne] using hdigits)]

theorem read_eq {name : Text} (h : Tree.byteLength name ≤ Tree.nameLimit) :
    read name = ((Text.splitOn '.' name).find? fun part => Undecimal part).elim
      (.ok ((Text.splitOn '.' name).map partOf)) fun part => .error (.notDecimal part) := by
  have hlimit : name.length ≤ digitLimit :=
    ((Tree.length_le_byteLength name).trans h).trans (by decide)
  have hparts : ∀ part ∈ Text.splitOn '.' name, readPart part =
      if Undecimal part then .error (.notDecimal part) else .ok (partOf part) :=
    fun part hpart => readPart_eq ((Text.length_of_mem_splitOn hpart).trans hlimit)
  exact mapM_stops hparts

theorem readable_iff {name : Text} (h : Tree.byteLength name ≤ Tree.nameLimit) :
    Readable name ↔ ∀ part ∈ Text.splitOn '.' name, ¬ Undecimal part := by
  rw [Readable, read_eq h]
  cases hfind : (Text.splitOn '.' name).find? (fun part => Undecimal part) with
  | some part =>
    have hpart := List.find?_some hfind
    rw [decide_eq_true_eq] at hpart
    refine iff_of_false ?_ fun hnone => hnone part (List.mem_of_find?_eq_some hfind) hpart
    rintro ⟨version, hread⟩
    cases hread
  | none =>
    refine iff_of_true ⟨_, rfl⟩ fun part hmem hpart => ?_
    exact List.find?_eq_none.mp hfind part hmem (decide_eq_true hpart)

end Version

end ModBuild
