import ModBuild.Tree

/-!
# What changed between two trees

Two listings in the order of their locations are gone through side by side, so that each location is
looked at once, however much the trees hold. A difference says what stood at a location and what
stands there now; `Tree.mem_differences_iff` says that these are the places where the trees differ.
-/

set_option autoImplicit false

namespace ModBuild

structure Difference where
  location : Location
  before : Option Entry
  after : Option Entry

namespace Entries

def Ordered (es : Entries) : Prop := es.Pairwise fun a b => a.1 < b.1

def differences : Entries → Entries → List Difference
  | [], bs => bs.map fun (l, e) => ⟨l, none, some e⟩
  | (l, e) :: as, [] => ((l, e) :: as).map fun (l, e) => ⟨l, some e, none⟩
  | (l, a) :: as, (m, b) :: bs =>
    if l < m then ⟨l, some a, none⟩ :: differences as ((m, b) :: bs)
    else if m < l then ⟨m, none, some b⟩ :: differences ((l, a) :: as) bs
    else if a = b then differences as bs
    else ⟨l, some a, some b⟩ :: differences as bs
termination_by as bs => as.length + bs.length

theorem lookup_cons_self (l : Location) (e : Entry) (es : Entries) :
    List.lookup l ((l, e) :: es) = some e := by
  rw [List.lookup_cons, beq_self_eq_true]

theorem lookup_cons_of_ne {l m : Location} (h : l ≠ m) (e : Entry) (es : Entries) :
    List.lookup l ((m, e) :: es) = es.lookup l := by
  rw [List.lookup_cons, beq_eq_false_iff_ne.2 h]

theorem lookup_eq_none_of_lt {l : Location} {es : Entries} (h : ∀ a ∈ es, l < a.1) :
    es.lookup l = none := by
  induction es with
  | nil => rfl
  | cons a es ih =>
    have hne : l ≠ a.1 := fun hl => List.lt_irrefl l (hl ▸ h a List.mem_cons_self)
    rw [lookup_cons_of_ne hne a.2]
    exact ih fun b hb => h b (List.mem_cons_of_mem _ hb)

theorem lookup_eq_some_iff {es : Entries} (ho : es.Ordered) (l : Location) (e : Entry) :
    es.lookup l = some e ↔ (l, e) ∈ es := by
  induction es with
  | nil => simp
  | cons a es ih =>
    obtain ⟨ha, hes⟩ := List.pairwise_cons.1 ho
    obtain ⟨m, x⟩ := a
    by_cases hm : l = m
    · subst hm
      rw [lookup_cons_self]
      simp only [List.mem_cons, Prod.mk.injEq, true_and, Option.some.injEq]
      exact ⟨fun h => .inl h.symm,
        fun h => h.elim Eq.symm fun h => absurd (ha _ h) (List.lt_irrefl l)⟩
    · rw [lookup_cons_of_ne hm, ih hes]
      simp [hm]

theorem mem_differences_iff {as bs : Entries} (ha : as.Ordered) (hb : bs.Ordered) (d : Difference) :
    d ∈ differences as bs ↔
      d.before = as.lookup d.location ∧ d.after = bs.lookup d.location ∧ d.before ≠ d.after := by
  obtain ⟨k, x, y⟩ := d
  fun_induction differences as bs with
  | case1 bs =>
    have := lookup_eq_some_iff hb k
    simp only [List.mem_map, Difference.mk.injEq, List.lookup_nil]
    constructor
    · rintro ⟨⟨l, e⟩, hm, rfl, rfl, rfl⟩
      exact ⟨rfl, ((this e).2 hm).symm, nofun⟩
    · rintro ⟨rfl, hy, hne⟩
      cases y with
      | none => exact absurd rfl hne
      | some e => exact ⟨(k, e), (this e).1 hy.symm, rfl, rfl, rfl⟩
  | case2 l e as =>
    have := lookup_eq_some_iff ha k
    simp only [List.mem_map, Difference.mk.injEq, List.lookup_nil]
    constructor
    · rintro ⟨⟨l, e⟩, hm, rfl, rfl, rfl⟩
      exact ⟨((this e).2 hm).symm, rfl, nofun⟩
    · rintro ⟨hx, rfl, hne⟩
      cases x with
      | none => exact absurd rfl hne
      | some e => exact ⟨(k, e), (this e).1 hx.symm, rfl, rfl, rfl⟩
  | case3 l a as m b bs hlm ih =>
    obtain ⟨ha', ha⟩ := List.pairwise_cons.1 ha
    obtain ⟨hb', -⟩ := List.pairwise_cons.1 hb
    have hfar (z) (hz : z ∈ (m, b) :: bs) : l < z.1 := by
      rcases List.mem_cons.1 hz with rfl | hz
      · exact hlm
      · exact List.lt_trans hlm (hb' z hz)
    rw [List.mem_cons, ih ha hb]
    by_cases hk : k = l
    · subst hk
      rw [lookup_cons_self, lookup_eq_none_of_lt ha', lookup_eq_none_of_lt hfar]
      constructor
      · rintro (h | ⟨rfl, rfl, h⟩)
        · obtain ⟨-, rfl, rfl⟩ := Difference.mk.inj h
          exact ⟨rfl, rfl, nofun⟩
        · exact absurd rfl h
      · rintro ⟨rfl, rfl, -⟩
        exact .inl rfl
    · rw [lookup_cons_of_ne hk]
      simp [hk]
  | case4 l a as m b bs hlm hml ih =>
    obtain ⟨ha', -⟩ := List.pairwise_cons.1 ha
    obtain ⟨hb', hb⟩ := List.pairwise_cons.1 hb
    have hfar (z) (hz : z ∈ (l, a) :: as) : m < z.1 := by
      rcases List.mem_cons.1 hz with rfl | hz
      · exact hml
      · exact List.lt_trans hml (ha' z hz)
    rw [List.mem_cons, ih ha hb]
    by_cases hk : k = m
    · subst hk
      rw [lookup_cons_self, lookup_eq_none_of_lt hb', lookup_eq_none_of_lt hfar]
      constructor
      · rintro (h | ⟨rfl, rfl, h⟩)
        · obtain ⟨-, rfl, rfl⟩ := Difference.mk.inj h
          exact ⟨rfl, rfl, nofun⟩
        · exact absurd rfl h
      · rintro ⟨rfl, rfl, -⟩
        exact .inl rfl
    · rw [lookup_cons_of_ne hk b]
      simp [hk]
  | case5 l as m b bs hlm hml ih =>
    have hlm : l = m := List.le_antisymm hml hlm
    subst hlm
    obtain ⟨ha', ha⟩ := List.pairwise_cons.1 ha
    obtain ⟨hb', hb⟩ := List.pairwise_cons.1 hb
    rw [ih ha hb]
    by_cases hk : k = l
    · subst hk
      rw [lookup_cons_self, lookup_cons_self, lookup_eq_none_of_lt ha', lookup_eq_none_of_lt hb']
      constructor <;> (rintro ⟨rfl, rfl, h⟩; exact absurd rfl h)
    · rw [lookup_cons_of_ne hk, lookup_cons_of_ne hk]
  | case6 l a as m b bs hlm hml hab ih =>
    have hlm : l = m := List.le_antisymm hml hlm
    subst hlm
    obtain ⟨ha', ha⟩ := List.pairwise_cons.1 ha
    obtain ⟨hb', hb⟩ := List.pairwise_cons.1 hb
    rw [List.mem_cons, ih ha hb]
    by_cases hk : k = l
    · subst hk
      rw [lookup_cons_self, lookup_cons_self, lookup_eq_none_of_lt ha', lookup_eq_none_of_lt hb']
      constructor
      · rintro (h | ⟨rfl, rfl, h⟩)
        · obtain ⟨-, rfl, rfl⟩ := Difference.mk.inj h
          exact ⟨rfl, rfl, fun h => hab (Option.some.inj h)⟩
        · exact absurd rfl h
      · rintro ⟨rfl, rfl, -⟩
        exact .inl rfl
    · rw [lookup_cons_of_ne hk, lookup_cons_of_ne hk]
      simp [hk]

end Entries

namespace Tree

theorem ordered_entries (t : Tree) : t.entries.Ordered := Forest.ordered_entries t.proper

theorem lookup_entries (t : Tree) {l : Location} (hl : l ≠ []) : t.entries.lookup l = t.get? l :=
  Option.ext fun e => by
    rw [Entries.lookup_eq_some_iff t.ordered_entries, mem_entries_iff]
    exact and_iff_right hl

def differences (before after : Tree) : List Difference := before.entries.differences after.entries

theorem mem_differences_iff (before after : Tree) (d : Difference) :
    d ∈ differences before after ↔
      d.before = before.get? d.location ∧ d.after = after.get? d.location ∧ d.before ≠ d.after := by
  rw [differences, Entries.mem_differences_iff before.ordered_entries after.ordered_entries]
  by_cases hl : d.location = []
  · have (t : Tree) : t.entries.lookup [] = none :=
      Option.eq_none_iff_forall_ne_some.2 fun e h =>
        ((mem_entries_iff t [] e).1 ((Entries.lookup_eq_some_iff t.ordered_entries [] e).1 h)).1 rfl
    rw [hl, this, this, get?_nil, get?_nil]
    constructor <;> (rintro ⟨hx, hy, h⟩; exact absurd (hx.trans hy.symm) h)
  · rw [lookup_entries before hl, lookup_entries after hl]

end Tree

end ModBuild
