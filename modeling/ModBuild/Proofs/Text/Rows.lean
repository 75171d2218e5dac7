import ModBuild.Proofs.Text.Cutting
import ModBuild.Proofs.Text.Lines
import ModBuild.Text.Digit

/-!
# Rows

A row ends at a line feed, at a carriage return, or at the two in a row; what
follows the last end is a row, too. Texts that are put together share a row
where they meet, and a line feed between them parts them. Replacing a pattern
puts the new text between pieces of the old one.
-/

set_option autoImplicit false

namespace ModBuild.Text

def rows (s : Text) : List Text := splitOn '\n' (unifyBreaks s)

def Unbroken (s : Text) : Prop := '\n' ∉ s ∧ '\r' ∉ s

instance (s : Text) : Decidable (Unbroken s) := inferInstanceAs (Decidable (_ ∧ _))

theorem rows_ne_nil (s : Text) : rows s ≠ [] := splitOn_ne_nil _ _

theorem rows_eq_cons (s : Text) : ∃ q qs, rows s = q :: qs :=
  List.exists_cons_of_ne_nil (rows_ne_nil s)

theorem rows_unbroken {s : Text} (h : Unbroken s) : rows s = [s] := by
  rw [rows, unifyBreaks_eq_self h.2, splitOn_eq_singleton h.1]

theorem unifyBreaks_cons {c : Char} {s : Text} (h : ∀ rest, c = '\r' → s ≠ '\n' :: rest) :
    unifyBreaks (c :: s) = (if c = '\r' then '\n' else c) :: unifyBreaks s :=
  unifyBreaks.eq_3 c s fun rest hc hs => h rest hc hs

theorem unifyBreaks_append {a b : Text} (h : a.getLast? = some '\r' → b.head? ≠ some '\n') :
    unifyBreaks (a ++ b) = unifyBreaks a ++ unifyBreaks b := by
  fun_induction unifyBreaks a with
  | case1 => rfl
  | case2 s ih =>
    rw [List.cons_append, List.cons_append, unifyBreaks, ih, List.cons_append]
    intro hlast
    apply h
    cases s with
    | nil => cases hlast
    | cons c s => rwa [List.getLast?_cons_cons, List.getLast?_cons_cons]
  | case3 c s hnot ih =>
    rw [List.cons_append, unifyBreaks_cons, ih, List.cons_append]
    · intro hlast
      apply h
      cases s with
      | nil => cases hlast
      | cons d s => rwa [List.getLast?_cons_cons]
    · rintro rest rfl hs
      cases s with
      | nil => exact h rfl (by rw [show b = _ from hs]; rfl)
      | cons d s => exact hnot s rfl (by rw [(List.cons.inj hs).1])

theorem unifyBreaks_feed (a : Text) : ∃ v, unifyBreaks (a ++ ['\n']) = v ++ ['\n'] ∧
    (unifyBreaks a = v ∨ unifyBreaks a = v ++ ['\n']) := by
  by_cases ha : a.getLast? = some '\r'
  · obtain ⟨b, rfl⟩ := List.getLast?_eq_some_iff.mp ha
    refine ⟨unifyBreaks b, ?_, .inr (unifyBreaks_append (by simp))⟩
    rw [List.append_assoc, unifyBreaks_append (by simp)]
    rfl
  · exact ⟨unifyBreaks a, unifyBreaks_append fun h => absurd h ha, .inl rfl⟩

theorem unifyBreaks_append_feed (a b : Text) :
    unifyBreaks (a ++ '\n' :: b) = unifyBreaks (a ++ ['\n']) ++ unifyBreaks b := by
  rw [← List.singleton_append, ← List.append_assoc]
  exact unifyBreaks_append (by simp)

theorem rows_append {a b p q : Text} {ps qs : List Text} (ha : rows a = ps ++ [p])
    (hb : rows b = q :: qs) (h : a.getLast? = some '\r' → b.head? ≠ some '\n') :
    rows (a ++ b) = ps ++ (p ++ q) :: qs := by
  rw [rows, unifyBreaks_append h]
  exact splitOn_glue ha hb

theorem rows_unbroken_append {p s q : Text} {qs : List Text} (hp : Unbroken p)
    (hs : rows s = q :: qs) : rows (p ++ s) = (p ++ q) :: qs := by
  have hone : rows p = [] ++ [p] := rows_unbroken hp
  exact rows_append hone hs fun h => absurd (List.mem_of_getLast? h) hp.2

theorem rows_carriage (a : Text) : rows (a ++ ['\r']) = rows a ++ [[]] := by
  have ha : unifyBreaks (a ++ ['\r']) = unifyBreaks a ++ '\n' :: [] := unifyBreaks_append (by simp)
  rw [rows, ha, splitOn_append_sep]
  rfl

theorem getLast?_ne_carriage {s p : Text} {ps : List Text} (hs : rows s = ps ++ [p])
    (hp : ps ≠ [] → p ≠ []) : s.getLast? ≠ some '\r' := by
  intro h
  obtain ⟨a, rfl⟩ := List.getLast?_eq_some_iff.mp h
  rw [rows_carriage] at hs
  obtain ⟨rfl, hnil⟩ := List.append_inj' hs rfl
  exact hp (rows_ne_nil a) (List.singleton_inj.mp hnil).symm

theorem rows_append_feed (a b : Text) :
    rows (a ++ '\n' :: b) = (rows (a ++ ['\n'])).dropLast ++ rows b := by
  obtain ⟨v, hv, -⟩ := unifyBreaks_feed a
  have hends : rows (a ++ ['\n']) = splitOn '\n' v ++ [[]] := by
    rw [rows, hv, splitOn_append_sep]
    rfl
  rw [hends, List.dropLast_concat, rows, unifyBreaks_append_feed, hv, List.append_assoc,
    List.singleton_append, splitOn_append_sep]
  rfl

theorem rows_feed (a : Text) :
    (rows (a ++ ['\n'])).dropLast = rows a ∨ rows a = (rows (a ++ ['\n'])).dropLast ++ [[]] := by
  obtain ⟨v, hv, ha⟩ := unifyBreaks_feed a
  have hends : (rows (a ++ ['\n'])).dropLast = splitOn '\n' v := by
    rw [rows, hv, splitOn_append_sep]
    exact List.dropLast_concat
  rw [hends, rows]
  rcases ha with rfl | ha
  · exact .inl rfl
  · rw [ha, splitOn_append_sep]
    exact .inr rfl

theorem mem_tail_rows_of_ended {a row : Text} (h : row ∈ (rows (a ++ ['\n'])).dropLast.tail) :
    row ∈ (rows a).tail := by
  rcases rows_feed a with ha | ha
  · rwa [ha] at h
  · rw [ha]
    generalize (rows (a ++ ['\n'])).dropLast = ps at h
    cases ps with
    | nil => simp at h
    | cons p ps => exact List.mem_append_left _ h

theorem rows_ended {a : Text} (h : a.getLast? ≠ some '\r') :
    (rows (a ++ ['\n'])).dropLast = rows a := by
  have hfeed : unifyBreaks (a ++ ['\n']) = unifyBreaks a ++ '\n' :: [] :=
    unifyBreaks_append fun hr => absurd hr h
  rw [rows, hfeed, splitOn_append_sep]
  exact List.dropLast_concat

theorem rows_feeds (ls : List Text) : (rows (ls.flatMap (· ++ ['\n']))).dropLast =
    ls.flatMap fun l => (rows (l ++ ['\n'])).dropLast := by
  induction ls with
  | nil => rfl
  | cons l ls ih =>
    rw [List.flatMap_cons, List.flatMap_cons, List.append_assoc, List.singleton_append,
      rows_append_feed, List.dropLast_append_of_ne_nil (rows_ne_nil _), ih]

theorem forall_rows_feed {Q : Text → Prop} (hQ : Q []) (a b : Text) :
    (∀ row ∈ rows (a ++ '\n' :: b), Q row) ↔ (∀ row ∈ rows a, Q row) ∧ ∀ row ∈ rows b, Q row := by
  rw [rows_append_feed, List.forall_mem_append]
  rcases rows_feed a with ha | ha
  · rw [ha]
  · rw [ha, List.forall_mem_append]
    simp [hQ]

theorem forall_rows_join {Q : Text → Prop} (hQ : Q []) {ls : List Text} (hne : ls ≠ []) :
    (∀ row ∈ rows (join ['\n'] ls), Q row) ↔ ∀ l ∈ ls, ∀ row ∈ rows l, Q row := by
  induction ls with
  | nil => exact absurd rfl hne
  | cons l ls ih =>
    cases ls with
    | nil => simp [join]
    | cons m ls =>
      have hrest := ih (List.cons_ne_nil m ls)
      rw [join] at hrest ⊢
      rw [List.intercalate_cons_cons, List.append_assoc, List.singleton_append,
        forall_rows_feed hQ, hrest, List.forall_mem_cons (a := l)]

theorem replaceAll_none {pat s : Text} (h : cut? pat s = none) (new : Text) :
    replaceAll pat new s = s := by
  rw [replaceAll]
  split
  · rfl
  · split
    · rfl
    · next hcut => exact absurd (h.symm.trans hcut) (by simp)

theorem replaceAll_some {pat s a b : Text} (hne : pat ≠ []) (h : cut? pat s = some (a, b))
    (new : Text) : replaceAll pat new s = a ++ new ++ replaceAll pat new b := by
  rw [replaceAll, if_neg hne]
  split
  · next hcut => exact absurd (h.symm.trans hcut) (by simp)
  · next hcut =>
    obtain ⟨rfl, rfl⟩ := Prod.mk.inj (Option.some.inj (h.symm.trans hcut))
    rfl

theorem replaceAll_pieces (pat new s : Text) : ∃ pieces, pieces ≠ [] ∧ s = join pat pieces ∧
    replaceAll pat new s = join new pieces := by
  fun_induction replaceAll pat new s with
  | case1 s hpat => exact ⟨[s], by simp [join]⟩
  | case2 s hpat hnone => exact ⟨[s], by simp [join]⟩
  | case3 s hpat a b hcut ih =>
    obtain ⟨pieces, hne, hb, hnew⟩ := ih
    obtain ⟨p, ps, rfl⟩ := List.exists_cons_of_ne_nil hne
    refine ⟨a :: p :: ps, List.cons_ne_nil _ _, ?_, ?_⟩
    · rw [cut?_append hcut, join, List.intercalate_cons_cons, ← join, ← hb]
    · rw [hnew, join, join, List.intercalate_cons_cons]

theorem unbroken_replaceAll {new s : Text} (pat : Text) (hnew : Unbroken new) (hs : Unbroken s) :
    Unbroken (replaceAll pat new s) := by
  obtain ⟨pieces, -, hjoin, hreplaced⟩ := replaceAll_pieces pat new s
  have hkept {c : Char} (hc : c ∉ new) (hcs : c ∉ s) : c ∉ replaceAll pat new s := by
    rw [hreplaced]
    intro hmem
    rcases mem_join hmem with hmem | ⟨p, hp, hmem⟩
    · exact hc hmem
    · exact hcs (by rw [hjoin]; exact mem_of_join hp hmem)
  exact ⟨hkept hnew.1 hs.1, hkept hnew.2 hs.2⟩

theorem infix_of_replaceAll {mark new : Text} (pat : Text) {s : Text} (hne : new ≠ [])
    (hnew : ∀ c ∈ new, c ∉ mark) (h : mark <:+: replaceAll pat new s) : mark <:+: s := by
  fun_induction replaceAll pat new s with
  | case1 s hpat => exact h
  | case2 s hpat hnone => exact h
  | case3 s hpat a b hcut ih =>
    rw [cut?_append hcut]
    rcases infix_around hne hnew h with ha | hb
    · exact ha.trans ⟨[], pat ++ b, by simp⟩
    · exact (ih hb).trans ⟨a ++ pat, [], by simp⟩

theorem unbroken_of_mem_lines {s line : Text} (h : line ∈ lines s) : Unbroken line := by
  have hend := not_end_of_mem_lines h
  exact ⟨fun hc => absurd (hend _ hc) (by decide), fun hc => absurd (hend _ hc) (by decide)⟩

theorem unbroken_ofNat (n : Nat) : Unbroken (ofNat n) := by
  have hdigit {c : Char} (hc : c ∈ ofNat n) : c.isDigit = true :=
    Nat.isDigit_of_mem_toDigits (by decide) (by decide) hc
  exact ⟨fun hc => absurd (hdigit hc) (by decide), fun hc => absurd (hdigit hc) (by decide)⟩

end ModBuild.Text
