/-!
# Text

Module sources, lines, file names and messages are lists of characters, so that every scanner in
this library is a recursion on the text it reads. This module cuts text at a character or at a
pattern; what the cuts return always joins back to the text that was cut.
-/

set_option autoImplicit false

namespace ModBuild

abbrev Text := List Char

namespace Text

def after? : Text → Text → Option Text
  | [], s => some s
  | _ :: _, [] => none
  | p :: pat, c :: s => if p = c then after? pat s else none

def startsWith (pat s : Text) : Bool := (after? pat s).isSome

def endsWith (pat s : Text) : Bool := startsWith pat.reverse s.reverse

def cutAt? (sep : Char) : Text → Option (Text × Text)
  | [] => none
  | c :: s => if c = sep then some ([], s) else (cutAt? sep s).map fun (a, b) => (c :: a, b)

def cut? (pat : Text) : Text → Option (Text × Text)
  | [] => if pat = [] then some ([], []) else none
  | c :: s =>
    match after? pat (c :: s) with
    | some rest => some ([], rest)
    | none => (cut? pat s).map fun (a, b) => (c :: a, b)

def occurs (pat s : Text) : Bool := (cut? pat s).isSome

/-- The pieces of a text between its separators; there is always at least one piece. -/
def splitOn (sep : Char) : Text → List Text
  | [] => [[]]
  | c :: s =>
    if c = sep then [] :: splitOn sep s
    else
      match splitOn sep s with
      | [] => [[c]]
      | piece :: pieces => (c :: piece) :: pieces

def join (sep : Text) (pieces : List Text) : Text := sep.intercalate pieces

def replaceFirst (pat new s : Text) : Text :=
  match cut? pat s with
  | none => s
  | some (a, b) => a ++ new ++ b

theorem after?_eq_some_iff (pat s rest : Text) : after? pat s = some rest ↔ s = pat ++ rest := by
  induction pat generalizing s with
  | nil => simp [after?, eq_comm]
  | cons p pat ih =>
    cases s with
    | nil => simp [after?]
    | cons c s =>
      by_cases h : p = c
      · simp [after?, h, ih]
      · simp [after?, h, Ne.symm h]

theorem startsWith_iff (pat s : Text) : startsWith pat s = true ↔ pat <+: s := by
  simp only [startsWith, Option.isSome_iff_exists, after?_eq_some_iff]
  exact ⟨fun ⟨r, h⟩ => ⟨r, h.symm⟩, fun ⟨r, h⟩ => ⟨r, h.symm⟩⟩

theorem endsWith_iff (pat s : Text) : endsWith pat s = true ↔ pat <:+ s := by
  rw [endsWith, startsWith_iff, List.reverse_prefix]

theorem cutAt?_eq_some_iff (sep : Char) (s a b : Text) :
    cutAt? sep s = some (a, b) ↔ s = a ++ sep :: b ∧ sep ∉ a := by
  induction s generalizing a with
  | nil => simp [cutAt?]
  | cons c s ih =>
    by_cases h : c = sep
    · subst h
      simp only [cutAt?, if_true, Option.some.injEq, Prod.mk.injEq]
      cases a with
      | nil => simp [eq_comm]
      | cons x a => simp only [reduceCtorEq, false_and, List.cons_append, List.cons.injEq,
          List.mem_cons, not_or, false_iff]; rintro ⟨⟨hx, -⟩, hn, -⟩; exact hn hx
    · simp only [cutAt?, h, if_false, Option.map_eq_some_iff, Prod.exists, Prod.mk.injEq]
      cases a with
      | nil => simp [h]
      | cons x a =>
        simp only [List.cons.injEq, List.cons_append, List.mem_cons, not_or]
        constructor
        · rintro ⟨a', b', hc, ⟨rfl, rfl⟩, rfl⟩
          obtain ⟨hs, hn⟩ := (ih a').1 hc
          exact ⟨⟨rfl, hs⟩, Ne.symm h, hn⟩
        · rintro ⟨⟨rfl, hs⟩, -, hn⟩
          exact ⟨a, b, (ih a).2 ⟨hs, hn⟩, ⟨rfl, rfl⟩, rfl⟩

theorem cut?_append {pat s a b : Text} (h : cut? pat s = some (a, b)) : s = a ++ pat ++ b := by
  induction s generalizing a with
  | nil =>
    by_cases hp : pat = []
    · simp only [cut?, hp, if_true, Option.some.injEq, Prod.mk.injEq] at h
      simp [← h.1, ← h.2, hp]
    · simp [cut?, hp] at h
  | cons c s ih =>
    rw [cut?] at h
    split at h
    · next rest hr =>
      rw [Option.some.injEq, Prod.mk.injEq] at h
      rw [← h.1, ← h.2, List.nil_append]
      exact (after?_eq_some_iff _ _ _).1 hr
    · simp only [Option.map_eq_some_iff, Prod.exists, Prod.mk.injEq] at h
      obtain ⟨a', b', hc, rfl, rfl⟩ := h
      simp [ih hc]

/-- The text with every occurrence of `pat` replaced, from the left and without overlaps; an empty
pattern replaces nothing. -/
def replaceAll (pat new s : Text) : Text :=
  if pat = [] then s
  else
    match _h : cut? pat s with
    | none => s
    | some (a, b) => a ++ new ++ replaceAll pat new b
termination_by s.length
decreasing_by
  have hlen := congrArg List.length (cut?_append _h)
  have hpos : 0 < pat.length := List.length_pos_iff.2 ‹_›
  simp only [List.length_append] at hlen
  omega

theorem splitOn_ne_nil (sep : Char) (s : Text) : splitOn sep s ≠ [] := by
  cases s with
  | nil => simp [splitOn]
  | cons c s =>
    rw [splitOn]
    split
    · simp
    · split <;> simp

theorem join_splitOn (sep : Char) (s : Text) : join [sep] (splitOn sep s) = s := by
  induction s with
  | nil => rfl
  | cons c s ih =>
    rw [splitOn]
    have hne := splitOn_ne_nil sep s
    generalize splitOn sep s = ps at ih hne
    cases ps with
    | nil => exact absurd rfl hne
    | cons p ps =>
      simp only [join] at ih ⊢
      split
      · next h => rw [List.intercalate_cons_cons, ih, h]; rfl
      · cases ps with
        | nil => simpa using ih
        | cons q ps => simpa using ih

theorem map_ite_eq_join (a b : Char) (s : Text) :
    (s.map fun c => if c = a then b else c) = join [b] (splitOn a s) := by
  induction s with
  | nil => rfl
  | cons c s ih =>
    rw [List.map_cons, ih, splitOn]
    have hne := splitOn_ne_nil a s
    generalize splitOn a s = ps at hne
    obtain ⟨p, ps, rfl⟩ := List.exists_cons_of_ne_nil hne
    split
    · rw [join, join, List.intercalate_cons_cons, List.nil_append, List.singleton_append]
    · cases ps with
      | nil => simp [join]
      | cons q ps => simp [join, List.intercalate_cons_cons]

theorem not_mem_of_mem_splitOn {sep : Char} {s p : Text} (h : p ∈ splitOn sep s) : sep ∉ p := by
  induction s generalizing p with
  | nil => simp_all [splitOn]
  | cons c s ih =>
    rw [splitOn] at h
    split at h
    · rcases List.mem_cons.1 h with rfl | h
      · simp
      · exact ih h
    · next hc =>
      split at h
      · simp_all [Ne.symm hc]
      · next q qs hq =>
        rcases List.mem_cons.1 h with rfl | h
        · have := ih (hq ▸ List.mem_cons_self)
          simp [this, Ne.symm hc]
        · exact ih (hq ▸ List.mem_cons_of_mem _ h)

theorem splitOn_append_cons {sep : Char} {p s : Text} (h : sep ∉ p) :
    splitOn sep (p ++ sep :: s) = p :: splitOn sep s := by
  induction p with
  | nil => simp [splitOn]
  | cons c p ih =>
    obtain ⟨hc, hp⟩ := not_or.1 (mt List.mem_cons.2 h)
    rw [List.cons_append, splitOn, if_neg (Ne.symm hc), ih hp]

theorem splitOn_eq_singleton {sep : Char} {p : Text} (h : sep ∉ p) : splitOn sep p = [p] := by
  induction p with
  | nil => rfl
  | cons c p ih =>
    obtain ⟨hc, hp⟩ := not_or.1 (mt List.mem_cons.2 h)
    rw [splitOn, if_neg (Ne.symm hc), ih hp]

theorem splitOn_join {sep : Char} {ps : List Text} (hne : ps ≠ []) (h : ∀ p ∈ ps, sep ∉ p) :
    splitOn sep (join [sep] ps) = ps := by
  induction ps with
  | nil => exact absurd rfl hne
  | cons p ps ih =>
    obtain ⟨hp, hps⟩ := List.forall_mem_cons.1 h
    cases ps with
    | nil => simpa [join] using splitOn_eq_singleton hp
    | cons q ps =>
      have hi := ih (List.cons_ne_nil q ps) hps
      rw [join] at hi ⊢
      rw [List.intercalate_cons_cons, List.append_assoc, List.singleton_append,
        splitOn_append_cons hp, hi]

end Text

end ModBuild
