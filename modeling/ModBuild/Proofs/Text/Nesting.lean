import ModBuild.Proofs.Text.Cutting

/-!
# Nested brackets

A text nests if its round, curly and square brackets close in the order in
which they open. It is read with a stack of the closing brackets that are still
to come. Only brackets count, and where a text that nests is cut in two, both
parts nest or none does.
-/

set_option autoImplicit false

namespace ModBuild.Text

def closer? (c : Char) : Option Char :=
  if c = '(' then some ')' else if c = '{' then some '}' else if c = '[' then some ']' else none

def closes (c : Char) : Bool := c = ')' || c = '}' || c = ']'

def nestStep (awaited : List Char) (c : Char) : Option (List Char) :=
  match closer? c with
  | some d => some (d :: awaited)
  | none =>
    if closes c then
      if awaited.head? = some c then some awaited.tail else none
    else some awaited

def nest (awaited : List Char) (s : Text) : Option (List Char) := s.foldlM nestStep awaited

def Nests (s : Text) : Prop := nest [] s = some []

instance : DecidablePred Nests := fun s => inferInstanceAs (Decidable (nest [] s = some []))

def isBracket (c : Char) : Bool := ['(', ')', '{', '}', '[', ']'].contains c

theorem nestStep_plain {c : Char} (h : isBracket c = false) (awaited : List Char) :
    nestStep awaited c = some awaited := by
  simp only [isBracket, List.contains_cons, List.contains_nil, Bool.or_eq_false_iff,
    beq_eq_false_iff_ne] at h
  simp [nestStep, closer?, closes, h]

theorem nest_append (awaited : List Char) (a b : Text) :
    nest awaited (a ++ b) = (nest awaited a).bind fun rest => nest rest b :=
  List.foldlM_append

theorem nest_cons (awaited : List Char) (c : Char) (s : Text) :
    nest awaited (c :: s) = (nestStep awaited c).bind fun rest => nest rest s :=
  List.foldlM_cons

theorem nest_filter (awaited : List Char) (s : Text) :
    nest awaited (s.filter isBracket) = nest awaited s := by
  induction s generalizing awaited with
  | nil => rfl
  | cons c s ih =>
    by_cases hc : isBracket c = true
    · rw [List.filter_cons_of_pos hc, nest_cons, nest_cons]
      exact congrArg _ (funext ih)
    · rw [List.filter_cons_of_neg hc, nest_cons, nestStep_plain (Bool.not_eq_true _ ▸ hc), ih]
      rfl

theorem nestStep_deeper {awaited rest : List Char} {c : Char}
    (h : nestStep awaited c = some rest) (more : List Char) :
    nestStep (awaited ++ more) c = some (rest ++ more) := by
  rw [nestStep] at h ⊢
  cases hd : closer? c with
  | some d =>
    rw [hd] at h
    rw [← Option.some.inj h]
    rfl
  | none =>
    rw [hd] at h
    by_cases hc : closes c = true
    · cases awaited with
      | nil => simp [hc] at h
      | cons d awaited =>
        by_cases hcd : d = c
        · simp only [hc, hcd, List.head?_cons, List.tail_cons, if_true, Option.some.injEq] at h
          simp [hc, hcd, h]
        · simp [hc, hcd] at h
    · simp only [hc, Bool.false_eq_true, if_false, Option.some.injEq] at h
      simp [hc, h]

theorem nest_deeper {awaited rest : List Char} {s : Text} (h : nest awaited s = some rest)
    (more : List Char) : nest (awaited ++ more) s = some (rest ++ more) := by
  induction s generalizing awaited with
  | nil =>
    rw [← Option.some.inj h]
    rfl
  | cons c s ih =>
    rw [nest_cons] at h ⊢
    obtain ⟨next, hstep, hnext⟩ := Option.bind_eq_some_iff.1 h
    rw [nestStep_deeper hstep more]
    exact ih hnext

theorem nests_append {a b : Text} (h : Nests (a ++ b)) : Nests a ↔ Nests b := by
  rw [Nests, nest_append] at h
  obtain ⟨rest, ha, hb⟩ := Option.bind_eq_some_iff.1 h
  constructor
  · intro hnests
    rw [Nests, ha] at hnests
    rw [Option.some.inj hnests] at hb
    exact hb
  · intro hnests
    -- what the first part leaves open, the second one would leave open, too
    have hdeeper := nest_deeper hnests rest
    rw [List.nil_append, hb] at hdeeper
    rw [Nests, ha, hdeeper]

theorem nests_congr {a b : Text} (h : a.filter isBracket = b.filter isBracket) :
    Nests a ↔ Nests b := by
  rw [Nests, Nests, ← nest_filter [] a, h, nest_filter]

theorem isBracket_of_isBlank (c : Char) (h : isBlank c = true) : isBracket c = false := by
  have hnone : ['(', ')', '{', '}', '[', ']'].all (fun d => !isBlank d) = true := by decide
  by_contra hbracket
  rw [Bool.not_eq_false, isBracket, List.contains_iff_mem] at hbracket
  have hshown := List.all_eq_true.1 hnone c hbracket
  rw [h] at hshown
  cases hshown

theorem filter_blank {s : Text} (h : blank s = true) : s.filter isBracket = [] :=
  List.filter_eq_nil_iff.2 fun c hc => by
    rw [isBracket_of_isBlank c (List.all_eq_true.1 h c hc)]
    exact Bool.false_ne_true

end ModBuild.Text
