import ModBuild.Proofs.Declaration.Specifier

/-!
# Flattening a line

A line is flattened from quote to quote. Everything in front of a quote is kept, and behind it the
scopes go if a keyword ends there. Specifiers never overlap, since each has a quote of its own, and
none can arise where scopes were taken away, since all went that stood behind the quote. So what is
left has no specifier with a scope in front, wherever one looks for it.
-/

set_option autoImplicit false

namespace ModBuild.Declaration

open Scope (directories Begins)

theorem flatten_specifier {o tail : Text} (ho : Opens Regular o) (hbegins : Begins tail) :
    flatten (o ++ tail) = o ++ flatten (dropScopes tail) := by
  have hscoped : scoped? (o ++ tail) = some (o, dropScopes tail) :=
    (scoped_eq_some_iff _ _ _).mpr ⟨ho, tail, rfl, hbegins, rfl⟩
  rw [flatten.eq_def]
  split
  · next o' rest h =>
    rw [hscoped] at h
    cases h
    rfl
  · next h =>
    rw [hscoped] at h
    cases h

theorem flatten_cons {c : Char} {s : Text} (h : ¬ Specifies Regular (c :: s)) :
    flatten (c :: s) = c :: flatten s := by
  have hnone := (scoped_eq_none_iff _).mpr h
  rw [flatten.eq_def]
  split
  · next o rest hsome =>
    rw [hnone] at hsome
    cases hsome
  · rfl

/-! ## From quote to quote -/

theorem specifies_quoted {spaced : Text → Text → Prop} (hspaced : ∀ k w, spaced k w → Bare w)
    {a : Text} {q : Char} (ha : Bare a) (hq : isQuote q = true) (b : Text) :
    Specifies spaced (a ++ q :: b) ↔ Opens spaced (a ++ [q]) ∧ Begins b := by
  constructor
  · rintro ⟨o, rest, ho, hbegins, heq⟩
    obtain ⟨v, q', hv, hq', rfl⟩ := ho.bare hspaced
    rw [List.append_assoc, List.singleton_append] at heq
    obtain ⟨rfl, rfl, rfl⟩ := first_quote_unique ha hv hq hq' heq
    exact ⟨ho, hbegins⟩
  · rintro ⟨ho, hbegins⟩
    exact ⟨a ++ [q], b, ho, hbegins, by simp⟩

theorem not_specifies_bare {spaced : Text → Text → Prop} {s : Text} (hs : Bare s) :
    ¬ Specifies spaced s := by
  rintro ⟨o, rest, ⟨k, hk, w, q, hw, hq, rfl⟩, -, rfl⟩
  have := hs q (by simp)
  rw [hq] at this
  cases this

theorem Opens.ne_nil {spaced : Text → Text → Prop} {o : Text} (h : Opens spaced o) : o ≠ [] := by
  obtain ⟨k, hk, w, q, hw, hq, rfl⟩ := h
  simp

theorem opened_cons (spaced : Text → Text → Prop) (c : Char) (s : Text) :
    Opened spaced (c :: s) ↔ Opens spaced (c :: s) ∨ Opened spaced s := by
  constructor
  · rintro ⟨o, ho, hsuffix⟩
    rcases List.suffix_cons_iff.mp hsuffix with rfl | hsuffix
    · exact .inl ho
    · exact .inr ⟨o, ho, hsuffix⟩
  · rintro (ho | ⟨o, ho, hsuffix⟩)
    · exact ⟨_, ho, List.suffix_refl _⟩
    · exact ⟨o, ho, hsuffix.trans (List.suffix_cons c s)⟩

theorem not_opened_nil (spaced : Text → Text → Prop) : ¬ Opened spaced [] := by
  rintro ⟨o, ho, hsuffix⟩
  exact ho.ne_nil (List.suffix_nil.mp hsuffix)

theorem flatten_step {a : Text} {q : Char} (ha : Bare a) (hq : isQuote q = true) (b : Text) :
    (Opened Regular (a ++ [q]) → flatten (a ++ q :: b) = a ++ q :: flatten (dropScopes b)) ∧
      (¬ Opened Regular (a ++ [q]) → flatten (a ++ q :: b) = a ++ q :: flatten b) := by
  by_cases hspec : Opens Regular (a ++ [q]) ∧ Begins b
  · have hflat := flatten_specifier hspec.1 hspec.2
    rw [List.append_assoc, List.append_assoc, List.singleton_append, List.singleton_append] at hflat
    exact ⟨fun _ => hflat, fun hno => absurd ⟨_, hspec.1, List.suffix_refl _⟩ hno⟩
  · have hkept (h : Opens Regular (a ++ [q])) : dropScopes b = b :=
      dropScopes_unscoped fun hbegins => hspec ⟨h, hbegins⟩
    have hno := mt (specifies_quoted (fun _ _ => Regular.bare) ha hq b).mp hspec
    cases a with
    | nil =>
      have hflat : flatten (q :: b) = q :: flatten b := flatten_cons hno
      refine ⟨fun hopened => ?_, fun _ => hflat⟩
      rcases (opened_cons Regular q []).mp hopened with ho | hnil
      · show flatten (q :: b) = _
        rw [hflat, hkept ho]
        rfl
      · exact absurd hnil (not_opened_nil _)
    | cons c a =>
      have hflat : flatten (c :: (a ++ q :: b)) = c :: flatten (a ++ q :: b) := flatten_cons hno
      obtain ⟨hdrop, hkeep⟩ := flatten_step ((bare_cons c a).mp ha).2 hq b
      show (Opened Regular (c :: (a ++ [q])) → flatten (c :: (a ++ q :: b)) = _) ∧
        (¬ Opened Regular (c :: (a ++ [q])) → flatten (c :: (a ++ q :: b)) = _)
      rw [hflat, opened_cons]
      by_cases hopened : Opened Regular (a ++ [q])
      · rw [hdrop hopened]
        exact ⟨fun _ => rfl, fun hno => absurd (.inr hopened) hno⟩
      · rw [hkeep hopened]
        refine ⟨fun h => ?_, fun _ => rfl⟩
        rw [hkept (h.resolve_right hopened)]
        rfl

theorem quotes_induction {motive : Text → Prop} (bare : ∀ s, Bare s → motive s)
    (opened : ∀ a q b, Bare a → isQuote q = true → Opened Regular (a ++ [q]) →
      motive (dropScopes b) → motive (a ++ q :: b))
    (plain : ∀ a q b, Bare a → isQuote q = true → ¬ Opened Regular (a ++ [q]) → motive b →
      motive (a ++ q :: b))
    (s : Text) : motive s := by
  rcases bare_or_quoted s with hs | ⟨a, q, b, ha, hq, hs⟩
  · exact bare s hs
  · rw [hs]
    by_cases hopened : Opened Regular (a ++ [q])
    · exact opened a q b ha hq hopened (quotes_induction bare opened plain (dropScopes b))
    · exact plain a q b ha hq hopened (quotes_induction bare opened plain b)
termination_by s.length
decreasing_by
  · have hlength := length_dropScopes b
    rw [hs, List.length_append, List.length_cons]
    omega
  · rw [hs, List.length_append, List.length_cons]
    omega

theorem prefix_flatten {p : Text} (hp : Bare p) (s : Text) : p <+: flatten s ↔ p <+: s := by
  have hfront {a : Text} {q : Char} (hq : isQuote q = true) (b : Text) :
      p <+: a ++ q :: b ↔ p <+: a := by
    refine ⟨fun h => ?_, fun h => h.trans (List.prefix_append _ _)⟩
    rcases List.prefix_or_prefix_of_prefix h (List.prefix_append a (q :: b)) with hle | ⟨x, rfl⟩
    · exact hle
    · rw [List.prefix_append_right_inj] at h
      cases x with
      | nil => simp
      | cons c x =>
        have hc := (List.cons_prefix_cons.mp h).1
        have := hp c (by simp)
        rw [hc, hq] at this
        cases this
  rcases bare_or_quoted s with hs | ⟨a, q, b, ha, hq, rfl⟩
  · rw [flatten_bare hs]
  · by_cases hopened : Opened Regular (a ++ [q])
    · rw [(flatten_step ha hq b).1 hopened, hfront hq, hfront hq]
    · rw [(flatten_step ha hq b).2 hopened, hfront hq, hfront hq]

theorem begins_flatten (s : Text) : Begins (flatten s) ↔ Begins s := by
  constructor
  · rintro ⟨x, hx, h⟩
    exact ⟨x, hx, (prefix_flatten (segment_bare hx) s).mp h⟩
  · rintro ⟨x, hx, h⟩
    exact ⟨x, hx, (prefix_flatten (segment_bare hx) s).mpr h⟩

theorem mentions_cons (spaced : Text → Text → Prop) (c : Char) (s : Text) :
    Mentions spaced (c :: s) ↔ Specifies spaced (c :: s) ∨ Mentions spaced s := by
  constructor
  · rintro ⟨t, ht, hspec⟩
    rcases List.suffix_cons_iff.mp ht with rfl | ht
    · exact .inl hspec
    · exact .inr ⟨t, ht, hspec⟩
  · rintro (hspec | ⟨t, ht, hspec⟩)
    · exact ⟨_, List.suffix_refl _, hspec⟩
    · exact ⟨t, ht.trans (List.suffix_cons c s), hspec⟩

theorem not_mentions_bare {spaced : Text → Text → Prop} {s : Text} (hs : Bare s) :
    ¬ Mentions spaced s := by
  rintro ⟨t, ht, hspec⟩
  exact not_specifies_bare (hs.suffix ht) hspec

theorem mentions_quoted {spaced : Text → Text → Prop} (hspaced : ∀ k w, spaced k w → Bare w)
    {a : Text} {q : Char} (ha : Bare a) (hq : isQuote q = true) (b : Text) :
    Mentions spaced (a ++ q :: b) ↔ Opened spaced (a ++ [q]) ∧ Begins b ∨ Mentions spaced b := by
  induction a with
  | nil =>
    rw [List.nil_append, List.nil_append, mentions_cons, opened_cons,
      or_iff_left (not_opened_nil spaced)]
    exact or_congr_left (specifies_quoted hspaced ha hq b)
  | cons c a ih =>
    rw [List.cons_append, List.cons_append, mentions_cons, opened_cons, or_and_right, or_assoc,
      ← ih ((bare_cons c a).mp ha).2]
    exact or_congr_left (specifies_quoted hspaced ha hq b)

/-- A piece of a line: what is kept, and the scopes behind it that go. -/
structure Piece where
  kept : Text
  dropped : List Scope

namespace Piece

def whole (p : Piece) : Text := p.kept ++ Scope.segments p.dropped

def Sound (p : Piece) : Prop :=
  p.dropped ≠ [] → (∀ x ∈ p.dropped, x ∈ directories) ∧ Opened Regular p.kept

end Piece

theorem flatten_pieces (s : Text) : ∃ pieces : List Piece, s = pieces.flatMap Piece.whole ∧
    flatten s = pieces.flatMap Piece.kept ∧ ∀ p ∈ pieces, p.Sound := by
  induction s using quotes_induction with
  | bare s hs =>
    refine ⟨[⟨s, []⟩], by simp [Piece.whole, Scope.segments], ?_, by simp [Piece.Sound]⟩
    rw [flatten_bare hs]
    simp
  | opened a q b ha hq hopened ih =>
    obtain ⟨pieces, hwhole, hkept, hsound⟩ := ih
    obtain ⟨scopes, hscopes, hb, -⟩ := dropScopes_parts b
    refine ⟨⟨a ++ [q], scopes⟩ :: pieces, ?_, ?_,
      List.forall_mem_cons.mpr ⟨fun _ => ⟨hscopes, hopened⟩, hsound⟩⟩
    · rw [List.flatMap_cons, ← hwhole, Piece.whole, List.append_assoc, ← hb, List.append_assoc,
        List.singleton_append]
    · rw [List.flatMap_cons, ← hkept, (flatten_step ha hq b).1 hopened, List.append_assoc,
        List.singleton_append]
  | plain a q b ha hq hopened ih =>
    obtain ⟨pieces, hwhole, hkept, hsound⟩ := ih
    refine ⟨⟨a ++ [q], []⟩ :: pieces, ?_, ?_,
      List.forall_mem_cons.mpr ⟨fun h => absurd rfl h, hsound⟩⟩
    · rw [List.flatMap_cons, ← hwhole]
      simp [Piece.whole, Scope.segments]
    · rw [List.flatMap_cons, ← hkept, (flatten_step ha hq b).2 hopened, List.append_assoc,
        List.singleton_append]

theorem not_mentions_flatten (s : Text) : ¬ Mentions Regular (flatten s) := by
  have hspaced : ∀ k w, Regular k w → Bare w := fun _ _ => Regular.bare
  induction s using quotes_induction with
  | bare s hs =>
    rw [flatten_bare hs]
    exact not_mentions_bare hs
  | opened a q b ha hq hopened ih =>
    obtain ⟨-, -, -, hend⟩ := dropScopes_parts b
    rw [(flatten_step ha hq b).1 hopened, mentions_quoted hspaced ha hq, begins_flatten]
    exact not_or.mpr ⟨fun h => hend h.2, ih⟩
  | plain a q b ha hq hopened ih =>
    rw [(flatten_step ha hq b).2 hopened, mentions_quoted hspaced ha hq]
    exact not_or.mpr ⟨fun h => hopened h.1, ih⟩

theorem flatten_unmentioned {s : Text} (h : ¬ Mentions Regular s) : flatten s = s := by
  have hspaced : ∀ k w, Regular k w → Bare w := fun _ _ => Regular.bare
  induction s using quotes_induction with
  | bare s hs => exact flatten_bare hs
  | opened a q b ha hq hopened ih =>
    rw [mentions_quoted hspaced ha hq, not_or, not_and] at h
    rw [dropScopes_unscoped (h.1 hopened)] at ih
    rw [(flatten_step ha hq b).1 hopened, dropScopes_unscoped (h.1 hopened), ih h.2]
  | plain a q b ha hq hopened ih =>
    rw [mentions_quoted hspaced ha hq, not_or] at h
    rw [(flatten_step ha hq b).2 hopened, ih h.2]

/-- A flattened line is the line without some scopes, each run of them behind the quote of a
specifier. No specifier with a scope in front is left anywhere in it, a line without one stays as
it is, and so flattening a second time changes nothing. -/
theorem flatten_clears (s : Text) :
    (∃ pieces : List Piece, s = pieces.flatMap Piece.whole ∧ flatten s = pieces.flatMap Piece.kept ∧
      ∀ p ∈ pieces, p.Sound) ∧
    (∀ t, t <:+ flatten s → ¬ Specifies Regular t) ∧
    ((∀ t, t <:+ s → ¬ Specifies Regular t) → flatten s = s) ∧
    flatten (flatten s) = flatten s := by
  refine ⟨flatten_pieces s, fun t ht hspec => ?_, fun h => ?_, ?_⟩
  · exact not_mentions_flatten s ⟨t, ht, hspec⟩
  · exact flatten_unmentioned fun ⟨t, ht, hspec⟩ => h t ht hspec
  · exact flatten_unmentioned (not_mentions_flatten s)

end ModBuild.Declaration
