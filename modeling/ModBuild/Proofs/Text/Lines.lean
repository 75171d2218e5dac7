import ModBuild.Text.Lines
import Mathlib.Data.List.Basic

/-!
# Pieces and lines

Joined pieces are cut again where they were joined, and wherever a piece has the
separator in it. Lines are cut at line feeds and in more places, so a line that
stands between line feeds is a line for every reader.
-/

set_option autoImplicit false

namespace ModBuild.Text

theorem splitOn_append_sep (sep : Char) (a b : Text) :
    splitOn sep (a ++ sep :: b) = splitOn sep a ++ splitOn sep b := by
  induction a with
  | nil => simp [splitOn]
  | cons c a ih =>
    rw [List.cons_append, splitOn, splitOn, ih]
    split
    · rfl
    · have hne := splitOn_ne_nil sep a
      generalize splitOn sep a = ps at hne
      cases ps with
      | nil => exact absurd rfl hne
      | cons p ps => rfl

theorem splitOn_glue {sep : Char} {a b p q : Text} {ps qs : List Text}
    (ha : splitOn sep a = ps ++ [p]) (hb : splitOn sep b = q :: qs) :
    splitOn sep (a ++ b) = ps ++ (p ++ q) :: qs := by
  induction a generalizing ps p with
  | nil =>
    cases ps with
    | nil =>
      obtain rfl := List.singleton_inj.mp ha
      exact hb
    | cons r ps => simp [splitOn] at ha
  | cons c a ih =>
    have hne := splitOn_ne_nil sep a
    rw [splitOn] at ha
    rw [List.cons_append, splitOn]
    split at ha
    · next hc =>
      rw [if_pos hc]
      cases ps with
      | nil => exact absurd (List.cons.inj ha).2 hne
      | cons r ps =>
        rw [List.cons_append, List.cons.injEq] at ha
        rw [ih ha.2, ← ha.1]
        rfl
    · next hc =>
      rw [if_neg hc]
      obtain ⟨r, rs, hs⟩ := List.exists_cons_of_ne_nil hne
      rw [hs] at ha
      cases ps with
      | nil =>
        rw [List.nil_append, List.cons.injEq] at ha
        have hone : splitOn sep a = [] ++ [r] := by rw [hs, ha.2]; rfl
        rw [ih hone, ← ha.1]
        rfl
      | cons t ps =>
        rw [List.cons_append, List.cons.injEq] at ha
        have hmore : splitOn sep a = r :: ps ++ [p] := by rw [hs, ha.2]; rfl
        rw [ih hmore, ← ha.1]
        rfl

theorem exists_splitOn_last (sep : Char) (s : Text) : ∃ ps p, splitOn sep s = ps ++ [p] :=
  (List.eq_nil_or_concat' _).resolve_left (splitOn_ne_nil sep s)

theorem splitOn_append_last (sep : Char) (a : Text) {b : Text} (h : sep ∉ b) :
    ∃ ps p, splitOn sep (a ++ b) = ps ++ [p ++ b] := by
  obtain ⟨ps, p, ha⟩ := exists_splitOn_last sep a
  exact ⟨ps, p, splitOn_glue ha (splitOn_eq_singleton h)⟩

theorem splitOn_join_flatMap {sep : Char} {ps : List Text} (hne : ps ≠ []) :
    splitOn sep (join [sep] ps) = ps.flatMap (splitOn sep) := by
  induction ps with
  | nil => exact absurd rfl hne
  | cons p ps ih =>
    cases ps with
    | nil => simp [join]
    | cons q ps =>
      have hrest := ih (List.cons_ne_nil q ps)
      rw [join] at hrest ⊢
      rw [List.intercalate_cons_cons, List.append_assoc, List.singleton_append,
        splitOn_append_sep, hrest]
      rfl

theorem join_concat_nil {sep : Text} {ps : List Text} (hne : ps ≠ []) :
    join sep (ps ++ [[]]) = join sep ps ++ sep := by
  induction ps with
  | nil => exact absurd rfl hne
  | cons p ps ih =>
    cases ps with
    | nil => simp [join]
    | cons q ps =>
      have hrest := ih (List.cons_ne_nil q ps)
      rw [join, join] at hrest ⊢
      rw [List.cons_append, List.cons_append, List.intercalate_cons_cons,
        List.intercalate_cons_cons, ← List.cons_append, hrest, ← List.append_assoc]

theorem mem_join {c : Char} {sep : Text} {ps : List Text} (h : c ∈ join sep ps) :
    c ∈ sep ∨ ∃ p ∈ ps, c ∈ p := by
  induction ps with
  | nil => simp [join] at h
  | cons p ps ih =>
    cases ps with
    | nil => exact .inr ⟨p, by simp, by simpa [join] using h⟩
    | cons q ps =>
      rw [join, List.intercalate_cons_cons, List.mem_append, List.mem_append] at h
      rcases h with (h | h) | h
      · exact .inr ⟨p, by simp, h⟩
      · exact .inl h
      · rcases ih h with h | ⟨r, hr, h⟩
        · exact .inl h
        · exact .inr ⟨r, by simp [hr], h⟩

theorem mem_of_join {c : Char} {sep p : Text} {ps : List Text} (hp : p ∈ ps) (hc : c ∈ p) :
    c ∈ join sep ps := by
  induction ps with
  | nil => simp at hp
  | cons q ps ih =>
    cases ps with
    | nil =>
      rw [List.mem_singleton] at hp
      simpa [join, ← hp] using hc
    | cons r ps =>
      rw [join, List.intercalate_cons_cons, List.mem_append, List.mem_append]
      rcases List.mem_cons.mp hp with rfl | hp
      · exact .inl (.inl hc)
      · exact .inr (ih hp)

theorem not_mem_map_ite {a b : Char} (hne : b ≠ a) (s : Text) :
    a ∉ s.map fun c => if c = a then b else c := by
  intro h
  obtain ⟨c, -, hc⟩ := List.mem_map.mp h
  split at hc
  · exact hne hc
  · next hother => exact hother hc

theorem map_ite_eq_self {a : Char} (b : Char) {s : Text} (h : a ∉ s) :
    (s.map fun c => if c = a then b else c) = s := by
  refine (List.map_congr_left fun c hc => if_neg ?_).trans (List.map_id s)
  rintro rfl
  exact h hc

theorem append_cons_inj {α : Type} {a : α} {xs ys s t : List α} (hx : a ∉ xs) (hy : a ∉ ys) :
    xs ++ a :: s = ys ++ a :: t ↔ xs = ys ∧ s = t := by
  constructor
  · intro h
    induction xs generalizing ys with
    | nil =>
      cases ys with
      | nil => simpa using h
      | cons y ys =>
        simp only [List.nil_append, List.cons_append, List.cons.injEq] at h
        simp [h.1] at hy
    | cons x xs ih =>
      cases ys with
      | nil =>
        simp only [List.nil_append, List.cons_append, List.cons.injEq] at h
        simp [h.1] at hx
      | cons y ys =>
        simp only [List.cons_append, List.cons.injEq] at h
        obtain ⟨rfl, rest⟩ := ih (fun hm => hx (by simp [hm])) (fun hm => hy (by simp [hm])) h.2
        exact ⟨by rw [h.1], rest⟩
  · rintro ⟨rfl, rfl⟩
    rfl

theorem lines_cons {c : Char} {s : Text} (h : ∀ rest, c = '\r' → s ≠ '\n' :: rest) :
    lines (c :: s) = if isLineEnd c then [] :: lines s else consLine c (lines s) :=
  lines.eq_3 c s fun rest hc hs => h rest hc hs

theorem consLine_append {c : Char} {xs : List Text} (h : xs ≠ []) (ys : List Text) :
    consLine c (xs ++ ys) = consLine c xs ++ ys := by
  cases xs with
  | nil => exact absurd rfl h
  | cons x xs => rfl

theorem consLine_ne_nil (c : Char) (xs : List Text) : consLine c xs ≠ [] := by
  cases xs <;> simp [consLine]

theorem lines_ne_nil (c : Char) (s : Text) : lines (c :: s) ≠ [] := by
  rw [lines.eq_def]
  split
  · next h => cases h
  · simp
  · split
    · simp
    · exact consLine_ne_nil _ _

theorem lines_append_feed (a b : Text) :
    lines (a ++ '\n' :: b) = lines (a ++ ['\n']) ++ lines b := by
  have hfeed (s : Text) : lines ('\n' :: s) = [] :: lines s := by
    rw [lines_cons (by simp), if_pos (by decide)]
  have hcons (c : Char) (s : Text) (hnot : ∀ rest, c = '\r' → s = '\n' :: rest → False)
      (ih : lines (s ++ '\n' :: b) = lines (s ++ ['\n']) ++ lines b) :
      lines (c :: s ++ '\n' :: b) = lines (c :: s ++ ['\n']) ++ lines b := by
    by_cases hend : c = '\r' ∧ s = []
    · obtain ⟨rfl, rfl⟩ := hend
      simp [lines]
    · have hopen (more rest : Text) (hc : c = '\r') : s ++ '\n' :: more ≠ '\n' :: rest := by
        cases s with
        | nil => exact absurd ⟨hc, rfl⟩ hend
        | cons d s =>
          intro h
          exact hnot s hc (by rw [(List.cons.inj h).1])
      rw [List.cons_append, List.cons_append, lines_cons (hopen b), lines_cons (hopen []), ih]
      split
      · rfl
      · apply consLine_append
        cases s <;> exact lines_ne_nil _ _
  fun_induction lines a with
  | case1 => simp [hfeed, lines]
  | case2 s ih => simpa [lines] using ih
  | case3 c s hnot _ ih => exact hcons c s hnot ih
  | case4 c s hnot _ ih => exact hcons c s hnot ih

theorem lines_unifyBreaks (s : Text) : lines (unifyBreaks s) = lines s := by
  fun_induction unifyBreaks s with
  | case1 => rfl
  | case2 s ih =>
    rw [lines_cons (by simp), if_pos (by decide), ih, lines]
  | case3 c s hnot ih =>
    rw [lines_cons (c := c) fun rest hc hs => hnot rest hc hs]
    by_cases hc : c = '\r'
    · subst hc
      rw [if_pos rfl, lines_cons (by simp), if_pos (by decide), if_pos (by decide), ih]
    · rw [if_neg hc, lines_cons fun _ h => absurd h hc, ih]

theorem not_end_of_mem_lines {s line : Text} (h : line ∈ lines s) :
    ∀ c ∈ line, isLineEnd c = false := by
  fun_induction lines s generalizing line with
  | case1 => simp at h
  | case2 s ih =>
    rcases List.mem_cons.mp h with rfl | h
    · simp
    · exact ih h
  | case3 c s hnot hend ih =>
    rcases List.mem_cons.mp h with rfl | h
    · simp
    · exact ih h
  | case4 c s hnot hend ih =>
    cases hl : lines s with
    | nil =>
      rw [hl, consLine, List.mem_singleton] at h
      subst h
      simpa using hend
    | cons first rest =>
      rw [hl, consLine, List.mem_cons] at h
      rcases h with rfl | h
      · have hfirst : ∀ d ∈ first, isLineEnd d = false := ih (by rw [hl]; simp)
        simpa [hend] using hfirst
      · exact ih (by rw [hl]; simp [h])

theorem infix_of_mem_lines {s line : Text} (h : line ∈ lines s) : line <:+: s := by
  -- a character goes in front of the first line, which therefore has to begin the text
  have hboth : (∀ l ∈ (lines s).head?, l <+: s) ∧ ∀ l ∈ lines s, l <:+: s := by
    clear h line
    fun_induction lines s with
    | case1 => simp
    | case2 s ih =>
      refine ⟨by simp, List.forall_mem_cons.mpr ⟨List.nil_infix, fun l hl => ?_⟩⟩
      exact List.infix_cons (List.infix_cons (ih.2 l hl))
    | case3 c s hnot hend ih =>
      refine ⟨by simp, List.forall_mem_cons.mpr ⟨List.nil_infix, fun l hl => ?_⟩⟩
      exact List.infix_cons (ih.2 l hl)
    | case4 c s hnot hend ih =>
      cases hl : lines s with
      | nil => simp [consLine, List.infix_cons_iff]
      | cons first rest =>
        rw [hl] at ih
        obtain ⟨hfirst, hlines⟩ := ih
        have hpre : c :: first <+: c :: s := List.cons_prefix_cons.mpr ⟨rfl, hfirst first rfl⟩
        refine ⟨by simpa [consLine] using hpre, List.forall_mem_cons.mpr ⟨hpre.isInfix, ?_⟩⟩
        exact fun l hl => List.infix_cons (hlines l (List.mem_cons_of_mem _ hl))
  exact hboth.2 line h

theorem lines_plain {p : Text} (hp : ∀ c ∈ p, isLineEnd c = false) :
    lines (p ++ ['\n']) = [p] ∧ (p ≠ [] → lines p = [p]) := by
  induction p with
  | nil =>
    refine ⟨?_, fun h => absurd rfl h⟩
    rw [List.nil_append, lines_cons (by simp), if_pos (by decide)]
    rfl
  | cons c p ih =>
    have hc : isLineEnd c = false := hp c (by simp)
    have hne : c ≠ '\r' := by
      rintro rfl
      simp [isLineEnd] at hc
    obtain ⟨hfeed, hwhole⟩ := ih fun d hd => hp d (by simp [hd])
    refine ⟨?_, fun _ => ?_⟩
    · rw [List.cons_append, lines_cons fun _ h => absurd h hne, hc, hfeed]
      rfl
    · rw [lines_cons fun _ h => absurd h hne, hc]
      cases p with
      | nil => rfl
      | cons d p => rw [hwhole (by simp)]; rfl

theorem count_splitOn_le {p : Text} (hp : ∀ c ∈ p, isLineEnd c = false) (hne : p ≠ [])
    (s : Text) : (splitOn '\n' s).count p ≤ (lines s).count p := by
  obtain ⟨hfeed, hwhole⟩ := lines_plain hp
  have hpieces (ps : List Text) : ps.count p ≤ (lines (join ['\n'] ps)).count p := by
    induction ps with
    | nil => simp
    | cons q ps ih =>
      cases ps with
      | nil =>
        by_cases hq : q = p
        · subst hq
          simp [join, hwhole hne]
        · simp [hq]
      | cons r ps =>
        rw [join] at ih ⊢
        rw [List.intercalate_cons_cons, List.append_assoc, List.singleton_append,
          lines_append_feed, List.count_append, List.count_cons]
        by_cases hq : q = p
        · subst hq
          rw [hfeed]
          simp only [List.count_singleton_self, BEq.rfl, if_true]
          omega
        · rw [if_neg (by simpa using hq)]
          omega
  have h := hpieces (splitOn '\n' s)
  rwa [join_splitOn] at h

end ModBuild.Text
