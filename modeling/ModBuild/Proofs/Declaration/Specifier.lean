import ModBuild.Proofs.Declaration.Merged
import ModBuild.Proofs.Scope
import ModBuild.Proofs.Text.Cutting

/-!
# Specifiers with a scope in front

A specifier is a keyword with some space behind it, a quote, and the module that is meant; which
space may stand there is left open here, since the flattening recognises less than the language
allows. With the space that it does recognise, its search finds a specifier exactly where one
begins, and drops all the scopes behind the quote. No keyword has a quote in it and no scope has
one, so there is one quote at which a specifier can stand.
-/

set_option autoImplicit false

namespace ModBuild.Declaration

open Scope (directories Begins)

def isQuote (c : Char) : Bool := c = '"' || c = '\''

def Bare (s : Text) : Prop := ∀ c ∈ s, isQuote c = false

def keywords : List Text :=
  ["declare module".toList, "from".toList, "import".toList, "import(".toList, "require(".toList]

/-- The space behind a keyword with which it is recognised: any behind a parenthesis, and one space
character behind a word. -/
def Regular (keyword space : Text) : Prop :=
  if keyword.getLast? = some '(' then Text.blank space = true else space = [' ']

instance (keyword space : Text) : Decidable (Regular keyword space) :=
  inferInstanceAs (Decidable (ite ..))

def Opens (spaced : Text → Text → Prop) (o : Text) : Prop :=
  ∃ k ∈ keywords, ∃ w q, spaced k w ∧ isQuote q = true ∧ o = k ++ w ++ [q]

def Specifies (spaced : Text → Text → Prop) (t : Text) : Prop :=
  ∃ o rest, Opens spaced o ∧ Begins rest ∧ t = o ++ rest

def Mentions (spaced : Text → Text → Prop) (s : Text) : Prop := ∃ t, t <:+ s ∧ Specifies spaced t

def Opened (spaced : Text → Text → Prop) (s : Text) : Prop := ∃ o, Opens spaced o ∧ o <:+ s

theorem Opens.mono {spaced spaced' : Text → Text → Prop} (h : ∀ k w, spaced k w → spaced' k w)
    {o : Text} (ho : Opens spaced o) : Opens spaced' o := by
  obtain ⟨k, hk, w, q, hw, hq, rfl⟩ := ho
  exact ⟨k, hk, w, q, h k w hw, hq, rfl⟩

/-! ## Quotes -/

theorem bare_append (a b : Text) : Bare (a ++ b) ↔ Bare a ∧ Bare b := by
  simp only [Bare, List.mem_append, or_imp, forall_and]

theorem bare_cons (c : Char) (s : Text) : Bare (c :: s) ↔ isQuote c = false ∧ Bare s := by
  simp only [Bare, List.forall_mem_cons]

theorem Bare.suffix {a b : Text} (hb : Bare b) (h : a <:+ b) : Bare a := fun c hc =>
  hb c (h.subset hc)

theorem flatten_bare {s : Text} (h : Bare s) : flatten s = s := by
  apply flatten_unquoted
  · intro hd
    exact absurd (h _ hd) (by decide)
  · intro hs
    exact absurd (h _ hs) (by decide)

theorem first_quote_unique {a a' b b' : Text} {q q' : Char} (ha : Bare a) (ha' : Bare a')
    (hq : isQuote q = true) (hq' : isQuote q' = true) (h : a ++ q :: b = a' ++ q' :: b') :
    a = a' ∧ q = q' ∧ b = b' := by
  induction a generalizing a' with
  | nil =>
    cases a' with
    | nil => simpa using h
    | cons c a' =>
      have hc := (List.cons.inj h).1
      rw [bare_cons, ← hc, hq] at ha'
      exact absurd ha'.1 (by decide)
  | cons c a ih =>
    rw [bare_cons] at ha
    cases a' with
    | nil =>
      have hc := (List.cons.inj h).1
      rw [hc, hq'] at ha
      exact absurd ha.1 (by decide)
    | cons c' a' =>
      obtain ⟨rfl, hrest⟩ := List.cons.inj h
      obtain ⟨rfl, heq⟩ := ih ha.2 ((bare_cons c a').mp ha').2 hrest
      exact ⟨rfl, heq⟩

theorem bare_or_quoted (s : Text) :
    Bare s ∨ ∃ a q b, Bare a ∧ isQuote q = true ∧ s = a ++ q :: b := by
  cases h : s.find? isQuote with
  | none =>
    left
    intro c hc
    simpa using List.find?_eq_none.mp h c hc
  | some q =>
    right
    obtain ⟨hq, a, b, rfl, ha⟩ := List.find?_eq_some_iff_append.mp h
    exact ⟨a, q, b, fun c hc => by simpa using ha c hc, hq, rfl⟩

/-! ## Keywords -/

theorem blank_no_quote {c : Char} (h : Text.isBlank c = true) : isQuote c = false := by
  rw [isQuote, Bool.or_eq_false_iff, decide_eq_false_iff_not, decide_eq_false_iff_not]
  constructor
  · rintro rfl
    exact absurd h (by decide)
  · rintro rfl
    exact absurd h (by decide)

theorem Regular.blank {k w : Text} (h : Regular k w) : Text.blank w = true := by
  rw [Regular] at h
  split at h
  · exact h
  · rw [h]
    decide

theorem Regular.bare {k w : Text} (h : Regular k w) : Bare w := fun c hc =>
  blank_no_quote (List.all_eq_true.mp h.blank c hc)

theorem keyword_bare : ∀ k ∈ keywords, Bare k := by
  have h : ∀ k ∈ keywords, k.all (!isQuote ·) = true := by decide
  intro k hk c hc
  simpa using List.all_eq_true.mp (h k hk) c hc

theorem opened_regular {s a b : Text} {x : Text × Bool} (hx : x ∈ openings)
    (h : openedBy? s x = some (a, b)) : ∃ k ∈ keywords, ∃ w, Regular k w ∧ a = k ++ w := by
  have hword {o : Text} (ho : openedBy? s (o, false) = some (a, b)) : a = o := by
    obtain ⟨r, -, hr⟩ := Option.map_eq_some_iff.mp ho
    exact (congrArg Prod.fst hr).symm
  have hcall {o : Text} (ho : openedBy? s (o, true) = some (a, b)) :
      ∃ w, Text.blank w = true ∧ a = o ++ w := by
    obtain ⟨r, -, hr⟩ := Option.map_eq_some_iff.mp ho
    exact ⟨r.takeWhile Text.isBlank, List.all_takeWhile, (congrArg Prod.fst hr).symm⟩
  simp only [openings, List.mem_cons, List.not_mem_nil, or_false] at hx
  rcases hx with rfl | rfl | rfl | rfl | rfl
  · exact ⟨"declare module".toList, by decide, [' '], by decide, hword h⟩
  · exact ⟨"from".toList, by decide, [' '], by decide, hword h⟩
  · exact ⟨"import".toList, by decide, [' '], by decide, hword h⟩
  · obtain ⟨w, hw, ha⟩ := hcall h
    exact ⟨"import(".toList, by decide, w, hw, ha⟩
  · obtain ⟨w, hw, ha⟩ := hcall h
    exact ⟨"require(".toList, by decide, w, hw, ha⟩

theorem opens_of_opening {s o rest : Text} (h : opening? s = some (o, rest)) :
    Opens Regular o := by
  rw [opening?] at h
  split at h
  · next a q r ha =>
    split at h
    · next hq =>
      obtain ⟨x, hx, hopened⟩ := List.exists_of_findSome?_eq_some ha
      obtain ⟨k, hk, w, hw, rfl⟩ := opened_regular hx hopened
      exact ⟨k, hk, w, q, hw, by simpa [isQuote] using hq, (congrArg Prod.fst
        (Option.some.inj h)).symm⟩
    · cases h
  · cases h

theorem openedBy_space {o w rest : Text} {q : Char} (hw : Text.blank w = true)
    (hq : isQuote q = true) :
    openedBy? (o ++ (w ++ q :: rest)) (o, true) = some (o ++ w, q :: rest) := by
  have hall : ∀ c ∈ w, Text.isBlank c = true := List.all_eq_true.mp hw
  have hend : ¬ Text.isBlank q = true := by
    intro hblank
    rw [blank_no_quote hblank] at hq
    cases hq
  rw [openedBy?, (Text.after?_eq_some_iff _ _ _).mpr rfl, Option.map_some,
    List.takeWhile_append_of_pos hall, List.dropWhile_append_of_pos hall,
    List.takeWhile_cons_of_neg hend, List.dropWhile_cons_of_neg hend, List.append_nil]

theorem opened_keyword {k w rest : Text} {q : Char} (hk : k ∈ keywords) (hw : Regular k w)
    (hq : isQuote q = true) :
    openings.findSome? (openedBy? (k ++ (w ++ q :: rest))) = some (k ++ w, q :: rest) := by
  simp only [keywords, List.mem_cons, List.not_mem_nil, or_false] at hk
  rcases hk with rfl | rfl | rfl | rfl | rfl
  · obtain rfl : w = [' '] := hw
    rfl
  · obtain rfl : w = [' '] := hw
    rfl
  · obtain rfl : w = [' '] := hw
    rfl
  · have hbefore : ∀ x ∈ openings.take 3,
        openedBy? ("import(".toList ++ (w ++ q :: rest)) x = none := by
      simp only [openings, List.take, List.forall_mem_cons]
      exact ⟨rfl, rfl, rfl, nofun⟩
    exact List.findSome?_eq_some_iff.mpr ⟨_, ("import(".toList, true), openings.drop 4, rfl,
      openedBy_space hw.blank hq, hbefore⟩
  · have hbefore : ∀ x ∈ openings.take 4,
        openedBy? ("require(".toList ++ (w ++ q :: rest)) x = none := by
      simp only [openings, List.take, List.forall_mem_cons]
      exact ⟨rfl, rfl, rfl, rfl, nofun⟩
    exact List.findSome?_eq_some_iff.mpr ⟨_, ("require(".toList, true), openings.drop 5, rfl,
      openedBy_space hw.blank hq, hbefore⟩

theorem opening_eq_some_iff (s o rest : Text) :
    opening? s = some (o, rest) ↔ Opens Regular o ∧ s = o ++ rest := by
  constructor
  · intro h
    exact ⟨opens_of_opening h, opening?_append h⟩
  · rintro ⟨⟨k, hk, w, q, hw, hq, rfl⟩, rfl⟩
    rw [opening?, List.append_assoc, List.append_assoc, List.singleton_append,
      opened_keyword hk hw hq]
    exact if_pos hq

theorem Opens.bare {spaced : Text → Text → Prop} (hspaced : ∀ k w, spaced k w → Bare w) {o : Text}
    (h : Opens spaced o) : ∃ v q, Bare v ∧ isQuote q = true ∧ o = v ++ [q] := by
  obtain ⟨k, hk, w, q, hw, hq, rfl⟩ := h
  exact ⟨k ++ w, q, (bare_append k w).mpr ⟨keyword_bare k hk, hspaced k w hw⟩, hq, rfl⟩

/-! ## Scopes behind a quote -/

theorem segment_bare {x : Scope} (hx : x ∈ directories) : Bare x.segment := by
  have h : ∀ x ∈ directories, x.segment.all (!isQuote ·) = true := by decide
  intro c hc
  simpa using List.all_eq_true.mp (h x hx) c hc

theorem afterScope_some {s rest : Text} (h : afterScope? s = some rest) :
    ∃ x ∈ directories, s = x.segment ++ rest := by
  obtain ⟨x, hx, hafter⟩ := List.exists_of_findSome?_eq_some h
  exact ⟨x, hx, (Text.after?_eq_some_iff _ _ _).mp hafter⟩

theorem afterScope_none (s : Text) : afterScope? s = none ↔ ¬ Begins s := by
  simp only [afterScope?, List.findSome?_eq_none_iff, Text.after?_eq_none_iff, Begins,
    Scope.segment, not_exists, not_and]

theorem dropScopes_parts (s : Text) : ∃ scopes, (∀ x ∈ scopes, x ∈ directories) ∧
    s = Scope.segments scopes ++ dropScopes s ∧ ¬ Begins (dropScopes s) := by
  fun_induction dropScopes s with
  | case1 s h => exact ⟨[], by simp, rfl, (afterScope_none s).mp h⟩
  | case2 s rest h ih =>
    obtain ⟨x, hx, rfl⟩ := afterScope_some h
    obtain ⟨scopes, hscopes, hrest, hend⟩ := ih
    refine ⟨x :: scopes, List.forall_mem_cons.mpr ⟨hx, hscopes⟩, ?_, hend⟩
    rw [Scope.segments_cons, List.append_assoc, ← hrest]

theorem dropScopes_unscoped {s : Text} (h : ¬ Begins s) : dropScopes s = s := by
  rw [dropScopes, (afterScope_none s).mpr h]

theorem scoped_eq_some_iff (s o rest : Text) : scoped? s = some (o, rest) ↔
    Opens Regular o ∧ ∃ tail, s = o ++ tail ∧ Begins tail ∧ rest = dropScopes tail := by
  have hdrop (tail behind : Text) (h : afterScope? tail = some behind) :
      dropScopes tail = dropScopes behind := by
    rw [dropScopes, h]
  constructor
  · intro h
    obtain ⟨tail, ho, rfl, -⟩ := scoped_parts h
    rw [scoped?, ho] at h
    obtain ⟨behind, hbehind, heq⟩ := Option.map_eq_some_iff.mp h
    refine ⟨opens_of_opening ho, tail, rfl, ?_, ?_⟩
    · by_contra hend
      rw [(afterScope_none tail).mpr hend] at hbehind
      cases hbehind
    · rw [hdrop tail behind hbehind]
      exact (congrArg Prod.snd heq).symm
  · rintro ⟨ho, tail, rfl, hbegins, rfl⟩
    cases hbehind : afterScope? tail with
    | none => exact absurd hbegins ((afterScope_none tail).mp hbehind)
    | some behind =>
      rw [scoped?, (opening_eq_some_iff _ _ _).mpr ⟨ho, rfl⟩, hdrop tail behind hbehind]
      dsimp only
      rw [hbehind, Option.map_some]

theorem scoped_eq_none_iff (s : Text) : scoped? s = none ↔ ¬ Specifies Regular s := by
  rw [← not_iff_not, Classical.not_not, ← ne_eq, Option.ne_none_iff_exists']
  constructor
  · rintro ⟨⟨o, rest⟩, h⟩
    obtain ⟨ho, tail, hs, hbegins, -⟩ := (scoped_eq_some_iff _ _ _).mp h
    exact ⟨o, tail, ho, hbegins, hs⟩
  · rintro ⟨o, tail, ho, hbegins, hs⟩
    exact ⟨(o, dropScopes tail), (scoped_eq_some_iff _ _ _).mpr ⟨ho, tail, hs, hbegins, rfl⟩⟩

end ModBuild.Declaration
