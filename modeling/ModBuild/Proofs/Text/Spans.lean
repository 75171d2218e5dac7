import ModBuild.Proofs.Text.Cutting
import ModBuild.Proofs.Text.Lines

/-!
# Whole lines

A span of a text is cut out of it at line feeds, so its lines are lines of the
text and are counted by the line feeds in front of it. Every text that is not
white space alone has a last line that shows something.
-/

set_option autoImplicit false

namespace ModBuild.Text

/-- Whole lines of a text, what stands in front of them and what behind. -/
structure Span (s before run after : Text) : Prop where
  parts : s = before ++ run ++ after
  begins : before = [] ∨ ∃ w, before = w ++ ['\n']
  ends : after = [] ∨ ∃ w, after = '\n' :: w

structure LastLine (s front last back : Text) : Prop extends Span s front last back where
  line : '\n' ∉ last
  shown : blank last = false
  rest : blank back = true

theorem length_splitOn (sep : Char) (s : Text) : (splitOn sep s).length = s.count sep+1 := by
  induction s with
  | nil => rfl
  | cons c s ih =>
    rw [splitOn]
    by_cases hc : c = sep
    · rw [if_pos hc, List.length_cons, ih, hc, List.count_cons_self]
    · rw [if_neg hc, List.count_cons_of_ne hc]
      have hne := splitOn_ne_nil sep s
      generalize splitOn sep s = ps at ih hne
      cases ps with
      | nil => exact absurd rfl hne
      | cons p ps => exact ih

theorem blank_of_mem_splitOn {sep : Char} {s p : Text} (hs : blank s = true)
    (hp : p ∈ splitOn sep s) : blank p = true := by
  rw [← join_splitOn sep s] at hs
  generalize splitOn sep s = ps at hs hp
  induction ps with
  | nil => cases hp
  | cons q ps ih =>
    cases ps with
    | nil =>
      rw [List.mem_singleton.1 hp]
      simpa [join] using hs
    | cons r ps =>
      rw [join, List.intercalate_cons_cons, blank_append, blank_append, Bool.and_eq_true,
        Bool.and_eq_true] at hs
      rcases List.mem_cons.1 hp with rfl | hp
      · exact hs.1.1
      · exact ih hs.2 hp

theorem Span.splitOn {s before run after : Text} (h : Span s before run after) :
    ∃ init rest, splitOn '\n' s = init ++ splitOn '\n' run ++ rest ∧
      init.length = before.count '\n' ∧ join ['\n'] init = before.dropLast ∧
      (blank after = true → ∀ p ∈ rest, blank p = true) := by
  obtain ⟨rest, hrest, hblank⟩ : ∃ rest,
      Text.splitOn '\n' (run ++ after) = Text.splitOn '\n' run ++ rest ∧
        (blank after = true → ∀ p ∈ rest, blank p = true) := by
    rcases h.ends with rfl | ⟨w, rfl⟩
    · exact ⟨[], by simp, by simp⟩
    · refine ⟨Text.splitOn '\n' w, splitOn_append_sep '\n' run w, fun hw p hp => ?_⟩
      rw [blank_cons, Bool.and_eq_true] at hw
      exact blank_of_mem_splitOn hw.2 hp
  rcases h.begins with rfl | ⟨w, rfl⟩
  · refine ⟨[], rest, ?_, rfl, rfl, hblank⟩
    rw [h.parts, List.nil_append, hrest, List.nil_append]
  · refine ⟨Text.splitOn '\n' w, rest, ?_, ?_, ?_, hblank⟩
    · rw [h.parts, List.append_assoc, List.append_assoc, List.singleton_append,
        splitOn_append_sep, hrest, List.append_assoc]
    · rw [length_splitOn]
      simp
    · rw [join_splitOn, List.dropLast_concat]

theorem LastLine.pieces {s front last back : Text} (h : LastLine s front last back) :
    ∃ init rest, splitOn '\n' s = init ++ last :: rest ∧ init.length = front.count '\n' ∧
      join ['\n'] init = front.dropLast ∧ ∀ p ∈ rest, blank p = true := by
  obtain ⟨init, rest, hlines, hlength, hjoin, hrest⟩ := h.toSpan.splitOn
  rw [splitOn_eq_singleton h.line, List.append_assoc, List.singleton_append] at hlines
  exact ⟨init, rest, hlines, hlength, hjoin, hrest h.rest⟩

theorem LastLine.placed {s front last back line : Text} {n : Nat}
    (h : LastLine s front last back) (hline : (splitOn '\n' s)[n]? = some line)
    (hshown : blank line = false) :
    ((splitOn '\n' front.dropLast)[n]? = some line ↔ n ≠ front.count '\n') ∧
      (n = front.count '\n' → line = last) := by
  obtain ⟨init, rest, hlines, hlength, hjoin, hrest⟩ := h.pieces
  have hinit : init ≠ [] → splitOn '\n' front.dropLast = init := fun hne => by
    rw [← hjoin]
    exact splitOn_join hne fun p hp => not_mem_of_mem_splitOn (by rw [hlines]; simp [hp])
  rw [hlines] at hline
  rw [← hlength]
  rcases Nat.lt_trichotomy n init.length with hlt | heq | hgt
  · rw [List.getElem?_append_left hlt] at hline
    have hne : init ≠ [] := List.ne_nil_of_length_pos (by omega)
    rw [hinit hne, hline]
    exact ⟨iff_of_true rfl (by omega), fun heq => absurd heq (by omega)⟩
  · have hlast : last = line := by
      rw [heq, List.getElem?_append_right (Nat.le_refl _), Nat.sub_self] at hline
      exact Option.some.inj hline
    refine ⟨iff_of_false (fun hplace => ?_) (fun hne => hne heq), fun _ => hlast.symm⟩
    by_cases hne : init = []
    · -- without a line in front there is one empty line, and the last one is not empty
      subst hne
      rw [← hjoin, heq] at hplace
      rw [← Option.some.inj hplace] at hshown
      cases hshown
    · rw [hinit hne, heq, List.getElem?_eq_none (Nat.le_refl _)] at hplace
      cases hplace
  · rw [List.getElem?_append_right (by omega), List.getElem?_cons, if_neg (by omega)] at hline
    rw [hrest line (List.mem_of_getElem? hline)] at hshown
    cases hshown

theorem join_append_cons (sep : Char) (ps qs : List Text) (p : Text) :
    join [sep] (ps ++ p :: qs) =
      ps.flatMap (· ++ [sep]) ++ p ++ qs.flatMap (sep :: ·) := by
  induction ps with
  | nil =>
    induction qs generalizing p with
    | nil => simp [join]
    | cons q qs ih =>
      have hrest := ih q
      rw [join] at hrest ⊢
      rw [List.nil_append] at hrest ⊢
      rw [List.intercalate_cons_cons, hrest]
      simp
  | cons q ps ih =>
    rw [join] at ih ⊢
    cases hps : ps ++ p :: qs with
    | nil => simp at hps
    | cons r rs =>
      rw [List.cons_append, hps, List.intercalate_cons_cons, ← hps, ih]
      simp

/-- A text ends with another one where its last pieces are those of the other one, with more in
front of the first of them. -/
theorem suffix_iff_pieces {sep : Char} {pat p : Text} {ps : List Text}
    (hpat : splitOn sep pat = p :: ps) (s : Text) :
    pat <:+ s ↔ ∃ front, (front ++ p) :: ps <:+ splitOn sep s := by
  constructor
  · rintro ⟨a, rfl⟩
    obtain ⟨qs, q, ha⟩ := exists_splitOn_last sep a
    exact ⟨q, qs, (splitOn_glue ha hpat).symm⟩
  · rintro ⟨front, qs, hs⟩
    have hlevel : ∀ q ∈ qs ++ [front], sep ∉ q := by
      intro q hq hmem
      rcases List.mem_append.mp hq with hq | hq
      · exact not_mem_of_mem_splitOn (hs ▸ List.mem_append_left _ hq) hmem
      · obtain rfl := List.mem_singleton.mp hq
        have hin : q ++ p ∈ splitOn sep s := hs ▸ by simp
        exact not_mem_of_mem_splitOn hin (List.mem_append_left p hmem)
    have hglued := splitOn_glue (splitOn_join (by simp) hlevel) hpat
    rw [hs] at hglued
    have hwhole := congrArg (join [sep]) hglued
    rw [join_splitOn, join_splitOn] at hwhole
    exact ⟨_, hwhole⟩

theorem suffix_last {pat p : Text} {ps : List Text} :
    (∃ front, [front ++ pat] <:+ ps ++ [p]) ↔ pat <:+ p := by
  constructor
  · rintro ⟨front, init, h⟩
    exact ⟨front, List.singleton_inj.mp (List.append_inj_right' h rfl)⟩
  · rintro ⟨front, rfl⟩
    exact ⟨front, List.suffix_append ps _⟩

theorem join_feed {ls : List Text} (hne : ls ≠ []) :
    join ['\n'] ls ++ ['\n'] = ls.flatMap (· ++ ['\n']) := by
  rw [← join_concat_nil hne, join_append_cons]
  simp

theorem span_of_pieces {s p : Text} {ps qs : List Text} (h : splitOn '\n' s = ps ++ p :: qs) :
    Span s (ps.flatMap (· ++ ['\n'])) p (qs.flatMap ('\n' :: ·)) where
  parts := by rw [← join_append_cons, ← h, join_splitOn]
  begins := by
    cases ps using List.reverseRec with
    | nil => exact .inl rfl
    | append_singleton ps q _ =>
      exact .inr ⟨ps.flatMap (· ++ ['\n']) ++ q, by simp [List.flatMap_append]⟩
  ends := by
    cases qs with
    | nil => exact .inl rfl
    | cons q qs => exact .inr ⟨q ++ qs.flatMap ('\n' :: ·), by simp⟩

theorem blank_flatMap_feed {ps : List Text} (h : ∀ p ∈ ps, blank p = true) :
    blank (ps.flatMap ('\n' :: ·)) = true := by
  rw [blank, List.all_flatMap, List.all_eq_true]
  intro p hp
  change blank ('\n' :: p) = true
  rw [blank_cons, h p hp]
  rfl

theorem blank_of_lines {s : Text} (h : ∀ p ∈ splitOn '\n' s, blank p = true) :
    blank s = true := by
  obtain ⟨p, ps, hps⟩ := List.exists_cons_of_ne_nil (splitOn_ne_nil '\n' s)
  rw [hps] at h
  have hparts : s = p ++ ps.flatMap ('\n' :: ·) :=
    (span_of_pieces (List.nil_append (p :: ps) ▸ hps)).parts
  rw [hparts, blank_append, h p List.mem_cons_self,
    blank_flatMap_feed fun q hq => h q (List.mem_cons_of_mem p hq)]
  rfl

theorem pieces_of_shown {s : Text} (h : blank s = false) :
    ∃ init last rest, splitOn '\n' s = init ++ last :: rest ∧ blank last = false ∧
      ∀ p ∈ rest, blank p = true := by
  have hsplit : (splitOn '\n' s).reverse.takeWhile blank ++
      (splitOn '\n' s).reverse.dropWhile blank = (splitOn '\n' s).reverse :=
    List.takeWhile_append_dropWhile
  have htaken : ∀ p ∈ (splitOn '\n' s).reverse.takeWhile blank, blank p = true :=
    List.all_eq_true.1 List.all_takeWhile
  have hhead := List.head?_dropWhile_not blank (splitOn '\n' s).reverse
  cases hdrop : (splitOn '\n' s).reverse.dropWhile blank with
  | nil =>
    rw [hdrop, List.append_nil] at hsplit
    rw [hsplit] at htaken
    rw [blank_of_lines fun p hp => htaken p (List.mem_reverse.2 hp)] at h
    cases h
  | cons last body =>
    rw [hdrop] at hsplit hhead
    have hlines := congrArg List.reverse hsplit
    rw [List.reverse_append, List.reverse_cons, List.reverse_reverse, List.append_assoc] at hlines
    exact ⟨body.reverse, last, _, hlines.symm, by simpa using hhead, fun p hp =>
      htaken p (List.mem_reverse.1 hp)⟩

theorem exists_lastLine {s : Text} (h : blank s = false) :
    ∃ front last back, LastLine s front last back := by
  obtain ⟨init, last, rest, hlines, hlast, hrest⟩ := pieces_of_shown h
  have hmem : last ∈ splitOn '\n' s := by rw [hlines]; simp
  exact ⟨_, last, _, {
    toSpan := span_of_pieces hlines
    line := not_mem_of_mem_splitOn hmem
    shown := hlast
    rest := blank_flatMap_feed hrest }⟩

end ModBuild.Text
