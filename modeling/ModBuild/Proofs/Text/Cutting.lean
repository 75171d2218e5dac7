import ModBuild.Text.Blank
import Mathlib.Data.List.Infix

/-!
# First occurrences and trimmed ends

A pattern is cut out where it occurs first, and it is missed nowhere. Trimming
takes white space and nothing else, so a text and what is left of it agree in
all other characters.
-/

set_option autoImplicit false

namespace ModBuild.Text

def FirstCut (pat s a b : Text) : Prop :=
  s = a ++ pat ++ b ∧ ∀ a' b', s = a' ++ pat ++ b' → a.length ≤ a'.length

theorem after?_eq_none_iff (pat s : Text) : after? pat s = none ↔ ¬ pat <+: s := by
  rw [← startsWith_iff, startsWith, Bool.not_eq_true, Option.isSome_eq_false_iff,
    Option.isNone_iff_eq_none]

theorem firstCut_start {pat s a b rest : Text} (h : s = pat ++ rest) :
    FirstCut pat s a b ↔ a = [] ∧ b = rest := by
  constructor
  · rintro ⟨hab, hfirst⟩
    have hnil : a = [] := List.eq_nil_of_length_eq_zero (Nat.le_zero.1 (hfirst [] rest h))
    subst hnil
    exact ⟨rfl, List.append_cancel_left (hab.symm.trans h)⟩
  · rintro ⟨rfl, rfl⟩
    exact ⟨h, fun _ _ _ => Nat.zero_le _⟩

theorem firstCut_cons {pat s a b : Text} {c : Char} (h : ¬ pat <+: c :: s) :
    FirstCut pat (c :: s) a b ↔ ∃ a', FirstCut pat s a' b ∧ c :: a' = a := by
  constructor
  · rintro ⟨hab, hfirst⟩
    cases a with
    | nil => exact absurd ⟨b, hab.symm⟩ h
    | cons d a =>
      simp only [List.cons_append, List.cons.injEq] at hab
      obtain ⟨rfl, hs⟩ := hab
      refine ⟨a, ⟨hs, fun x y hxy => ?_⟩, rfl⟩
      exact Nat.le_of_succ_le_succ (hfirst (c :: x) y (by rw [hxy]; rfl))
  · rintro ⟨a', ⟨hab, hfirst⟩, rfl⟩
    refine ⟨by rw [hab]; rfl, fun x y hxy => ?_⟩
    cases x with
    | nil => exact absurd ⟨y, hxy.symm⟩ h
    | cons d x =>
      simp only [List.cons_append, List.cons.injEq] at hxy
      exact Nat.succ_le_succ (hfirst x y hxy.2)

theorem cut?_eq_some_iff (pat s a b : Text) : cut? pat s = some (a, b) ↔ FirstCut pat s a b := by
  induction s generalizing a with
  | nil =>
    by_cases hp : pat = []
    · subst hp
      cases a <;> cases b <;> simp [cut?, FirstCut]
    · simp [cut?, FirstCut, hp]
  | cons c s ih =>
    rw [cut?]
    cases h : after? pat (c :: s) with
    | some rest =>
      rw [firstCut_start ((after?_eq_some_iff _ _ _).1 h)]
      simp [eq_comm]
    | none =>
      rw [firstCut_cons ((after?_eq_none_iff _ _).1 h)]
      simp [ih]

theorem cut?_eq_none_iff (pat s : Text) : cut? pat s = none ↔ ¬ pat <:+: s := by
  induction s with
  | nil =>
    by_cases hp : pat = [] <;> simp [cut?, hp]
  | cons c s ih =>
    rw [cut?, List.infix_cons_iff]
    cases h : after? pat (c :: s) with
    | some rest =>
      have hpre : pat <+: c :: s := ⟨rest, ((after?_eq_some_iff _ _ _).1 h).symm⟩
      simp [hpre]
    | none =>
      have hnone := (after?_eq_none_iff _ _).1 h
      simp [hnone, ih]

theorem occurs_iff (pat s : Text) : occurs pat s = true ↔ pat <:+: s := by
  rw [occurs, Option.isSome_iff_ne_none, ne_eq, cut?_eq_none_iff, Classical.not_not]

theorem replaceFirst_of_firstCut {pat s a b : Text} (h : FirstCut pat s a b) (new : Text) :
    replaceFirst pat new s = a ++ new ++ b := by
  rw [replaceFirst, (cut?_eq_some_iff pat s a b).2 h]

theorem firstCut_of_infix {pat s : Text} (h : pat <:+: s) : ∃ a b, FirstCut pat s a b := by
  cases hcut : cut? pat s with
  | none => exact absurd h ((cut?_eq_none_iff pat s).1 hcut)
  | some ab => exact ⟨ab.1, ab.2, (cut?_eq_some_iff pat s ab.1 ab.2).1 hcut⟩

theorem suffix_append_iff {α : Type} {l a b : List α} (h : ∀ c ∈ a.getLast?, c ∉ l) :
    l <:+ a ++ b ↔ l <:+ b := by
  refine ⟨fun hl => ?_, fun hl => hl.trans (List.suffix_append a b)⟩
  rcases List.suffix_or_suffix_of_suffix hl (List.suffix_append a b) with hin | ⟨x, rfl⟩
  · exact hin
  · have hx : x <:+ a := by
      obtain ⟨y, hy⟩ := hl
      rw [← List.append_assoc] at hy
      exact ⟨y, List.append_cancel_right hy⟩
    rcases List.eq_nil_or_concat' x with rfl | ⟨init, c, rfl⟩
    · exact List.suffix_refl b
    · obtain ⟨y, rfl⟩ := hx
      exact absurd (by simp) (h c (by simp [← List.append_assoc]))

theorem suffix_append_cons {c : Char} {pat : Text} (h : c ∉ pat) (a b : Text) :
    pat <:+ a ++ c :: b ↔ pat <:+ b := by
  rw [List.append_cons]
  exact suffix_append_iff (by simpa using h)

theorem infix_append_cons {c : Char} {pat : Text} (h : c ∉ pat) {a b : Text}
    (hin : pat <:+: a ++ c :: b) : pat <:+: a ∨ pat <:+: b := by
  obtain ⟨x, y, hxy⟩ := hin
  rw [List.append_assoc] at hxy
  rcases List.append_eq_append_iff.mp hxy with ⟨t, rfl, ht⟩ | ⟨t, rfl, ht⟩
  · rcases List.append_eq_append_iff.mp ht with ⟨u, rfl, -⟩ | ⟨u, rfl, hu⟩
    · exact .inl ⟨x, u, by simp⟩
    · cases u with
      | nil => exact .inl ⟨x, [], by simp⟩
      | cons d u =>
        obtain ⟨rfl, -⟩ := List.cons.inj hu
        simp at h
  · cases t with
    | nil =>
      rw [List.nil_append] at ht
      cases pat with
      | nil => exact .inl List.nil_infix
      | cons d pat =>
        obtain ⟨rfl, -⟩ := List.cons.inj ht
        simp at h
    | cons d t =>
      obtain ⟨-, rfl⟩ := List.cons.inj ht
      exact .inr ⟨t, y, by simp⟩

theorem infix_around {pat cs : Text} (hne : cs ≠ []) (hcs : ∀ c ∈ cs, c ∉ pat) {a b : Text}
    (hin : pat <:+: a ++ cs ++ b) : pat <:+: a ∨ pat <:+: b := by
  induction cs generalizing a with
  | nil => exact absurd rfl hne
  | cons c cs ih =>
    obtain ⟨hc, hcs⟩ := List.forall_mem_cons.mp hcs
    rw [List.append_assoc] at hin
    rcases infix_append_cons hc hin with ha | hrest
    · exact .inl ha
    · rcases eq_or_ne cs [] with rfl | hne
      · exact .inr hrest
      · exact (ih hne hcs (a := []) hrest).imp_left fun h => h.trans List.nil_infix

theorem blank_append (a b : Text) : blank (a ++ b) = (blank a && blank b) := List.all_append

theorem blank_cons (c : Char) (s : Text) : blank (c :: s) = (isBlank c && blank s) := rfl

theorem trim_parts (s : Text) :
    ∃ before after, s = before ++ trim s ++ after ∧ blank before = true ∧ blank after = true := by
  have htaken (t : Text) : blank (t.takeWhile isBlank) = true :=
    List.all_takeWhile
  have hstart : s = s.takeWhile isBlank ++ trimStart s := List.takeWhile_append_dropWhile.symm
  have hend (t : Text) : t = trimEnd t ++ (t.reverse.takeWhile isBlank).reverse := by
    rw [trimEnd, trimStart, ← List.reverse_append, List.takeWhile_append_dropWhile,
      List.reverse_reverse]
  refine ⟨s.takeWhile isBlank, ((trimStart s).reverse.takeWhile isBlank).reverse, ?_,
    htaken s, ?_⟩
  · rw [List.append_assoc, trim, ← hend (trimStart s)]
    exact hstart
  · rw [blank, List.all_reverse]
    exact htaken _

theorem mem_of_mem_trim {c : Char} {s : Text} (h : c ∈ trim s) : c ∈ s := by
  obtain ⟨before, after, hs, -⟩ := trim_parts s
  rw [hs]
  simp [h]

theorem filter_trim {p : Char → Bool} (hp : ∀ c, isBlank c = true → p c = false) (s : Text) :
    (trim s).filter p = s.filter p := by
  obtain ⟨before, after, hs, hb, ha⟩ := trim_parts s
  have hnone (t : Text) (ht : blank t = true) : t.filter p = [] :=
    List.filter_eq_nil_iff.2 fun c hc => by simp [hp c (List.all_eq_true.1 ht c hc)]
  calc (trim s).filter p = before.filter p ++ (trim s).filter p ++ after.filter p := by
        rw [hnone before hb, hnone after ha, List.nil_append, List.append_nil]
    _ = s.filter p := by rw [← List.filter_append, ← List.filter_append, ← hs]

theorem trim_append_blank (a : Text) {b : Text} (hb : blank b = true) : trim (a ++ b) = trim a := by
  by_cases ha : blank a = true
  · rw [(trim_eq_nil_iff a).2 ha, trim_eq_nil_iff, blank_append, ha, hb]
    rfl
  · have hne : (a.dropWhile isBlank).isEmpty = false := by
      rw [List.isEmpty_eq_false_iff]
      exact fun h => ha ((trimStart_eq_nil_iff a).1 h)
    have hrev : ∀ c ∈ b.reverse, isBlank c = true := fun c hc =>
      List.all_eq_true.1 hb c (List.mem_reverse.1 hc)
    rw [trim, trim, trimStart, List.dropWhile_append, hne, if_neg Bool.false_ne_true, trimEnd,
      List.reverse_append, trimStart, List.dropWhile_append_of_pos hrev]
    rfl

theorem trim_append_eq_iff (a b : Text) : trim (a ++ b) = trim a ↔ blank b = true := by
  constructor
  · intro h
    have hinv : ∀ c, isBlank c = true → (!isBlank c) = false := fun c hc => by rw [hc]; rfl
    have hchars := congrArg (List.filter fun c => !isBlank c) h
    rw [filter_trim hinv, filter_trim hinv, List.filter_append, List.append_right_eq_self] at hchars
    exact List.all_eq_true.2 fun c hc => by simpa using List.filter_eq_nil_iff.1 hchars c hc
  · exact trim_append_blank a

def Strips (s core : Text) : Prop :=
  ∃ before after, s = before ++ core ++ after ∧ blank before = true ∧ blank after = true ∧
    (∀ c ∈ core.head?, isBlank c = false) ∧ ∀ c ∈ core.getLast?, isBlank c = false

theorem trimStart_of_head {s : Text} (h : ∀ c ∈ s.head?, isBlank c = false) : trimStart s = s := by
  cases s with
  | nil => rfl
  | cons c s =>
    have hc : isBlank c = false := h c rfl
    simp [trimStart, hc]

theorem head?_trimStart {s : Text} {c : Char} (h : c ∈ (trimStart s).head?) :
    isBlank c = false := by
  have hnot := List.head?_dropWhile_not isBlank s
  rw [← trimStart, Option.mem_def.1 h] at hnot
  simpa using hnot

theorem strips_iff (s core : Text) : Strips s core ↔ trim s = core := by
  constructor
  · rintro ⟨before, after, rfl, hbefore, hafter, hhead, hlast⟩
    rw [trim_append_blank _ hafter, trim, trimStart,
      List.dropWhile_append_of_pos (List.all_eq_true.1 hbefore), ← trimStart,
      trimStart_of_head hhead, trimEnd, trimStart_of_head (by rwa [List.head?_reverse]),
      List.reverse_reverse]
  · rintro rfl
    obtain ⟨before, after, hs, hbefore, hafter⟩ := trim_parts s
    refine ⟨before, after, hs, hbefore, hafter, fun c hc => ?_, fun c hc => ?_⟩
    · -- What is left of the front once the end is trimmed too begins as it did.
      obtain ⟨rest, hrest⟩ : trim s <+: trimStart s := by
        rw [trim, trimEnd, ← List.reverse_suffix, List.reverse_reverse]
        exact List.dropWhile_suffix isBlank
      refine head?_trimStart (s := s) ?_
      rw [← hrest, List.head?_append, Option.mem_def.1 hc]
      rfl
    · rw [trim, trimEnd, List.getLast?_reverse] at hc
      exact head?_trimStart hc

end ModBuild.Text
