import ModBuild.Path

/-!
# Forests

A forest is what a directory holds: names in increasing order, each with its entry and with what the
entry holds itself. Everything in a forest stands in a directory because there is no other place for
it. The main statements say what stands at a location after `put` and `prune`, that the locations
determine the forest (`Forest.eq_of_get?`), and that `entries` lists what stands where.
-/

set_option autoImplicit false

namespace ModBuild

inductive Entry where
  | directory
  | file (bytes : ByteArray)

instance : DecidableEq Entry
  | .directory, .directory => isTrue rfl
  | .directory, .file _ => isFalse nofun
  | .file _, .directory => isFalse nofun
  | .file a, .file b =>
    if h : a.data = b.data then isTrue (congrArg Entry.file (ByteArray.ext h))
    else isFalse fun e => h (congrArg ByteArray.data (Entry.file.inj e))

/-- The names in a directory, each with its entry and what that holds. -/
inductive Forest where
  | nil
  | cons (name : Name) (entry : Entry) (inner rest : Forest)

abbrev Entries := List (Location × Entry)

namespace Forest

/-! ### Names -/

def names : Forest → List Name
  | nil => []
  | cons n _ _ rest => n :: rest.names

def item? (n : Name) : Forest → Option (Entry × Forest)
  | nil => none
  | cons m e g rest => if m = n then some (e, g) else item? n rest

def set : Forest → Name → Entry → Forest → Forest
  | nil, n, e, g => cons n e g nil
  | cons m x h rest, n, e, g =>
    if n < m then cons n e g (cons m x h rest)
    else if m = n then cons n e g rest
    else cons m x h (rest.set n e g)

def erase (n : Name) : Forest → Forest
  | nil => nil
  | cons m x h rest => if m = n then rest else cons m x h (erase n rest)

def Proper : Forest → Prop
  | nil => True
  | cons n e g rest =>
    (e ≠ .directory → g = nil) ∧ g.Proper ∧ (∀ m ∈ rest.names, n < m) ∧ rest.Proper

theorem item?_set (n m : Name) (e : Entry) (g f : Forest) :
    (f.set n e g).item? m = if n = m then some (e, g) else f.item? m := by
  induction f with
  | nil => rfl
  | cons k x h rest _ ih =>
    rw [set]
    split
    · rw [item?]
    · split
      · next hk =>
        subst hk
        rw [item?, item?]
        split <;> rfl
      · next hk =>
        rw [item?, item?, ih]
        split
        · next hm => rw [if_neg fun hn => hk (hm.trans hn.symm)]
        · rfl

theorem mem_names_iff (n : Name) (f : Forest) : n ∈ f.names ↔ f.item? n ≠ none := by
  induction f with
  | nil => simp [names, item?]
  | cons m e g rest _ ih =>
    rw [names, List.mem_cons, item?, ih]
    by_cases h : m = n
    · simp [h]
    · simp [h, Ne.symm h]

theorem item?_eq_none_of_lt {n : Name} {f : Forest} (h : ∀ m ∈ f.names, n < m) :
    f.item? n = none := by
  by_cases hn : f.item? n = none
  · exact hn
  · exact absurd (h n ((mem_names_iff n f).2 hn)) (List.lt_irrefl n.text)

theorem mem_names_set {n m : Name} {e : Entry} {g f : Forest} (h : m ∈ (f.set n e g).names) :
    m = n ∨ m ∈ f.names := by
  rw [mem_names_iff, item?_set] at h
  by_cases hn : n = m
  · exact .inl hn.symm
  · rw [if_neg hn] at h
    exact .inr ((mem_names_iff m f).2 h)

theorem mem_names_of_erase {n m : Name} {f : Forest} (h : m ∈ (f.erase n).names) :
    m ∈ f.names := by
  induction f with
  | nil => exact h
  | cons k x g rest _ ih =>
    rw [erase] at h
    split at h
    · exact List.mem_cons_of_mem _ h
    · rcases List.mem_cons.1 h with rfl | h
      · exact List.mem_cons_self
      · exact List.mem_cons_of_mem _ (ih h)

theorem item?_erase {f : Forest} (hf : f.Proper) (n m : Name) :
    (f.erase n).item? m = if n = m then none else f.item? m := by
  induction f with
  | nil => simp [erase, item?]
  | cons k x g rest _ ih =>
    obtain ⟨-, -, hk, hr⟩ := hf
    rw [erase]
    by_cases hkn : k = n
    · subst hkn
      rw [if_pos rfl, item?]
      by_cases hkm : k = m
      · subst hkm
        rw [if_pos rfl, item?_eq_none_of_lt hk]
      · rw [if_neg hkm, if_neg hkm]
    · rw [if_neg hkn, item?, item?, ih hr]
      by_cases hkm : k = m
      · subst hkm
        rw [if_pos rfl, if_pos rfl, if_neg (Ne.symm hkn)]
      · rw [if_neg hkm, if_neg hkm]

theorem proper_set {f g : Forest} (n : Name) (e : Entry) (hf : f.Proper) (hg : g.Proper)
    (he : e ≠ .directory → g = nil) : (f.set n e g).Proper := by
  induction f with
  | nil => exact ⟨he, hg, fun _ hm => by simp [names] at hm, trivial⟩
  | cons k x h rest _ ih =>
    obtain ⟨hx, hh, hk, hr⟩ := hf
    rw [set]
    split
    · next hlt =>
      refine ⟨he, hg, fun m hm => ?_, hx, hh, hk, hr⟩
      rcases List.mem_cons.1 hm with rfl | hm
      · exact hlt
      · exact List.lt_trans (α := Char) hlt (hk m hm)
    · next hlt =>
      split
      · next hkn => exact ⟨he, hg, hkn ▸ hk, hr⟩
      · next hkn =>
        refine ⟨hx, hh, fun m hm => ?_, ih hr⟩
        rcases mem_names_set hm with rfl | hm
        · exact Std.lt_of_le_of_ne (Std.not_lt.1 hlt) hkn
        · exact hk m hm

theorem proper_erase {f : Forest} (n : Name) (hf : f.Proper) : (f.erase n).Proper := by
  induction f with
  | nil => trivial
  | cons k x h rest _ ih =>
    obtain ⟨hx, hh, hk, hr⟩ := hf
    rw [erase]
    split
    · exact hr
    · exact ⟨hx, hh, fun m hm => hk m (mem_names_of_erase hm), ih hr⟩

theorem proper_of_item? {n : Name} {f g : Forest} {e : Entry} (hf : f.Proper)
    (h : f.item? n = some (e, g)) : g.Proper ∧ (e ≠ .directory → g = nil) := by
  induction f with
  | nil => simp [item?] at h
  | cons k x i rest _ ih =>
    obtain ⟨hx, hi, -, hr⟩ := hf
    rw [item?] at h
    split at h
    · simp only [Option.some.injEq, Prod.mk.injEq] at h
      obtain ⟨rfl, rfl⟩ := h
      exact ⟨hi, hx⟩
    · exact ih hr h

/-! ### Locations -/

def follow : Location → Entry × Forest → Option (Entry × Forest)
  | [], x => some x
  | n :: l, (_, f) => (f.item? n).bind (follow l)

def get? (f : Forest) (l : Location) : Option Entry := (follow l (.directory, f)).map Prod.fst

def put : Location → Entry → Forest → Forest
  | [], _, f => f
  | [n], e, f => f.set n e ((f.item? n).elim nil Prod.snd)
  | n :: m :: l, e, f =>
    match f.item? n with
    | some (k, g) => f.set n k (put (m :: l) e g)
    | none => f

def prune : Location → Forest → Forest
  | [], _ => nil
  | [n], f => f.erase n
  | n :: m :: l, f =>
    match f.item? n with
    | some (k, g) => f.set n k (prune (m :: l) g)
    | none => f

theorem follow_append (a b : Location) (x : Entry × Forest) :
    follow (a ++ b) x = (follow a x).bind (follow b) := by
  induction a generalizing x with
  | nil => rfl
  | cons n a ih =>
    obtain ⟨e, f⟩ := x
    rw [List.cons_append, follow, follow, Option.bind_assoc]
    exact congrArg _ (funext ih)

theorem proper_of_follow {l : Location} {e k : Entry} {f g : Forest} (hf : f.Proper)
    (he : e ≠ .directory → f = nil) (h : follow l (e, f) = some (k, g)) :
    g.Proper ∧ (k ≠ .directory → g = nil) := by
  induction l generalizing e f with
  | nil =>
    simp only [follow, Option.some.injEq, Prod.mk.injEq] at h
    obtain ⟨rfl, rfl⟩ := h
    exact ⟨hf, he⟩
  | cons n l ih =>
    obtain ⟨⟨x, i⟩, hx, hi⟩ := Option.bind_eq_some_iff.1 h
    obtain ⟨h₁, h₂⟩ := proper_of_item? hf hx
    exact ih h₁ h₂ hi

theorem get?_nil (f : Forest) : f.get? [] = some .directory := rfl

theorem get?_cons_nil (f : Forest) (n : Name) : f.get? [n] = (f.item? n).map Prod.fst := by
  rw [get?, follow]
  cases f.item? n <;> rfl

theorem get?_cons_cons (f : Forest) (n m : Name) (l : Location) :
    f.get? (n :: m :: l) = (f.item? n).bind fun x => x.2.get? (m :: l) := by
  rw [get?, follow]
  cases f.item? n <;> rfl

theorem get?_nil_cons (n : Name) (l : Location) : nil.get? (n :: l) = none := rfl

theorem get?_parent {f : Forest} (hf : f.Proper) {l : Location} {e : Entry} (hl : l ≠ [])
    (h : f.get? l = some e) : f.get? l.dropLast = some .directory := by
  rw [get?, ← List.dropLast_concat_getLast hl, follow_append] at h
  obtain ⟨x, hx, -⟩ := Option.map_eq_some_iff.1 h
  obtain ⟨⟨k, g⟩, hk, hg⟩ := Option.bind_eq_some_iff.1 hx
  rw [get?, hk]
  by_cases hd : k = .directory
  · rw [hd]
    rfl
  · rw [(proper_of_follow hf (fun h => absurd rfl h) hk).2 hd] at hg
    simp [follow, item?] at hg

theorem get?_put {f : Forest} {l : Location} (e : Entry) (hl : l ≠ [])
    (h : f.get? l.dropLast ≠ none) (m : Location) :
    (put l e f).get? m = if l = m then some e else f.get? m := by
  induction l generalizing f m with
  | nil => exact absurd rfl hl
  | cons n l ih =>
    cases m with
    | nil => simp [get?_nil]
    | cons a m =>
      cases l with
      | nil =>
        rw [put]
        cases m with
        | nil =>
          rw [get?_cons_nil, get?_cons_nil, item?_set]
          by_cases hna : n = a <;> simp [hna]
        | cons b m =>
          rw [get?_cons_cons, get?_cons_cons, item?_set, if_neg (c := [n] = a :: b :: m) (by simp)]
          by_cases hna : n = a
          · subst hna
            cases f.item? n <;> simp [get?_nil_cons]
          · rw [if_neg hna]
      | cons b l =>
        rw [put]
        cases hn : f.item? n with
        | none =>
          rw [List.dropLast_cons_of_ne_nil (List.cons_ne_nil _ _), get?, follow, hn] at h
          exact absurd rfl h
        | some x =>
          obtain ⟨k, g⟩ := x
          have hg : g.get? (b :: l).dropLast ≠ none := by
            rw [List.dropLast_cons_of_ne_nil (List.cons_ne_nil _ _), get?, follow, hn] at h
            cases hd : (b :: l).dropLast with
            | nil => simp [get?_nil]
            | cons c d => rwa [hd] at h
          cases m with
          | nil =>
            rw [get?_cons_nil, get?_cons_nil, item?_set, if_neg (c := n :: b :: l = [a]) (by simp)]
            by_cases hna : n = a
            · subst hna
              simp [hn]
            · rw [if_neg hna]
          | cons c m =>
            rw [get?_cons_cons, get?_cons_cons, item?_set]
            by_cases hna : n = a
            · subst hna
              rw [if_pos rfl, hn, Option.bind_some, Option.bind_some,
                ih (List.cons_ne_nil _ _) hg]
              simp
            · rw [if_neg hna, if_neg (by simp [hna])]

theorem get?_prune {f : Forest} (hf : f.Proper) {l : Location} (hl : l ≠ []) (m : Location) :
    (prune l f).get? m = if l <+: m then none else f.get? m := by
  induction l generalizing f m with
  | nil => exact absurd rfl hl
  | cons n l ih =>
    cases m with
    | nil => simp [get?_nil]
    | cons a m =>
      simp only [List.cons_prefix_cons]
      cases l with
      | nil =>
        rw [prune]
        by_cases hna : n = a
        · subst hna
          rw [if_pos ⟨rfl, List.nil_prefix⟩]
          cases m <;> simp [get?_cons_nil, get?_cons_cons, item?_erase hf]
        · rw [if_neg (by simp [hna])]
          cases m <;> simp [get?_cons_nil, get?_cons_cons, item?_erase hf, hna]
      | cons b l =>
        rw [prune]
        cases hn : f.item? n with
        | none =>
          dsimp only
          split
          · next h =>
            obtain ⟨rfl, h⟩ := h
            cases m <;> simp [get?_cons_nil, get?_cons_cons, hn]
          · rfl
        | some x =>
          obtain ⟨k, g⟩ := x
          dsimp only
          cases m with
          | nil =>
            rw [get?_cons_nil, get?_cons_nil, item?_set,
              if_neg (c := n = a ∧ b :: l <+: []) (by simp)]
            by_cases hna : n = a
            · subst hna
              simp [hn]
            · rw [if_neg hna]
          | cons c m =>
            rw [get?_cons_cons, get?_cons_cons, item?_set]
            by_cases hna : n = a
            · subst hna
              rw [if_pos rfl, hn, Option.bind_some, Option.bind_some,
                ih (proper_of_item? hf hn).1 (List.cons_ne_nil _ _)]
              simp
            · rw [if_neg hna, if_neg (by simp [hna])]

theorem proper_put {f : Forest} {l : Location} (e : Entry) (hf : f.Proper)
    (h : f.get? l.dropLast = some .directory)
    (keeps : f.get? l = some .directory → e = .directory) : (put l e f).Proper := by
  induction l generalizing f with
  | nil => exact hf
  | cons n l ih =>
    cases l with
    | nil =>
      rw [put]
      rw [get?_cons_nil] at keeps
      cases hn : f.item? n with
      | none => exact proper_set n e hf trivial fun _ => rfl
      | some x =>
        obtain ⟨k, g⟩ := x
        obtain ⟨h₁, h₂⟩ := proper_of_item? hf hn
        rw [hn] at keeps
        refine proper_set n e hf h₁ fun he => h₂ fun hk => he (keeps (by rw [hk]; rfl))
    | cons b l =>
      rw [put]
      rw [List.dropLast_cons_of_ne_nil (List.cons_ne_nil _ _), get?, follow] at h
      cases hn : f.item? n with
      | none => exact hf
      | some x =>
        obtain ⟨k, g⟩ := x
        obtain ⟨h₁, h₂⟩ := proper_of_item? hf hn
        rw [get?_cons_cons, hn] at keeps
        rw [hn] at h
        have hg : k = .directory ∧ g.get? (b :: l).dropLast = some .directory := by
          cases hd : (b :: l).dropLast with
          | nil =>
            rw [hd] at h
            exact ⟨Option.some.inj h, rfl⟩
          | cons c d =>
            rw [hd] at h
            refine ⟨?_, h⟩
            by_cases hk : k = .directory
            · exact hk
            · rw [h₂ hk] at h
              simp [follow, item?] at h
        exact proper_set n k hf (ih h₁ hg.2 keeps) fun hk => absurd hg.1 hk

theorem proper_prune {f : Forest} (l : Location) (hf : f.Proper) : (prune l f).Proper := by
  induction l generalizing f with
  | nil => trivial
  | cons n l ih =>
    cases l with
    | nil => exact proper_erase n hf
    | cons b l =>
      rw [prune]
      cases hn : f.item? n with
      | none => exact hf
      | some x =>
        obtain ⟨k, g⟩ := x
        obtain ⟨h₁, h₂⟩ := proper_of_item? hf hn
        refine proper_set n k hf (ih h₁) fun hk => ?_
        rw [h₂ hk]
        cases l <;> rfl

theorem eq_of_get? {s t : Forest} (hs : s.Proper) (ht : t.Proper)
    (h : ∀ l, s.get? l = t.get? l) : s = t := by
  induction s generalizing t with
  | nil =>
    cases t with
    | nil => rfl
    | cons n e g rest =>
      have := h [n]
      simp [get?_cons_nil, item?] at this
  | cons n e g rest ihg ihr =>
    cases t with
    | nil =>
      have := h [n]
      simp [get?_cons_nil, item?] at this
    | cons n' e' g' rest' =>
      obtain ⟨-, hg, hn, hr⟩ := hs
      obtain ⟨-, hg', hn', hr'⟩ := ht
      have hnn : n = n' := by
        have h₁ := h [n]
        have h₂ := h [n']
        simp only [get?_cons_nil, item?, if_true] at h₁ h₂
        by_cases hnn : n = n'
        · exact hnn
        · rw [if_neg (Ne.symm hnn)] at h₁
          rw [if_neg hnn] at h₂
          have m₁ : n ∈ rest'.names := (mem_names_iff n rest').2 fun hi => by simp [hi] at h₁
          have m₂ : n' ∈ rest.names := (mem_names_iff n' rest).2 fun hi => by simp [hi] at h₂
          exact absurd (List.lt_trans (α := Char) (hn n' m₂) (hn' n m₁)) (List.lt_irrefl n.text)
      subst hnn
      have he : e = e' := by simpa [get?_cons_nil, item?] using h [n]
      have hgg : g = g' := ihg hg hg' fun l => by
        cases l with
        | nil => rfl
        | cons m l => simpa [get?_cons_cons, item?] using h (n :: m :: l)
      have hrr : rest = rest' := ihr hr hr' fun l => by
        cases l with
        | nil => rfl
        | cons m l =>
          by_cases hm : n = m
          · subst hm
            have h₁ := item?_eq_none_of_lt hn
            have h₂ := item?_eq_none_of_lt hn'
            cases l <;> simp [get?_cons_nil, get?_cons_cons, h₁, h₂]
          · have := h (m :: l)
            cases l <;> simpa [get?_cons_nil, get?_cons_cons, item?, hm] using this
      rw [he, hgg, hrr]

/-! ### Listing -/

def entries : Forest → Entries
  | nil => []
  | cons n e g rest => ([n], e) :: g.entries.map (fun (l, x) => (n :: l, x)) ++ rest.entries

theorem mem_entries_iff {f : Forest} (hf : f.Proper) (l : Location) (e : Entry) :
    (l, e) ∈ f.entries ↔ l ≠ [] ∧ f.get? l = some e := by
  induction f generalizing l e with
  | nil =>
    cases l with
    | nil => simp [entries]
    | cons n l => simp [entries, get?_nil_cons]
  | cons n x g rest ihg ihr =>
    obtain ⟨-, hg, hn, hr⟩ := hf
    rw [entries, List.mem_append, List.mem_cons, List.mem_map, ihr hr]
    cases l with
    | nil => simp
    | cons m l =>
      by_cases hm : n = m
      · subst hm
        have hnone := item?_eq_none_of_lt hn
        cases l with
        | nil =>
          simp only [get?_cons_nil, hnone, item?]
          constructor
          · rintro ((h | ⟨⟨a, b⟩, h₁, h₂⟩) | ⟨-, h⟩)
            · simp_all
            · simp only [Prod.mk.injEq, List.cons.injEq, true_and] at h₂
              exact absurd h₂.1 ((ihg hg _ _).1 h₁).1
            · simp at h
          · rintro ⟨-, h⟩
            left; left
            simp_all
        | cons b l =>
          simp only [get?_cons_cons, hnone, item?]
          constructor
          · rintro ((h | ⟨⟨a, y⟩, h₁, h₂⟩) | ⟨-, h⟩)
            · simp at h
            · simp only [Prod.mk.injEq, List.cons.injEq, true_and] at h₂
              obtain ⟨rfl, rfl⟩ := h₂
              exact ⟨by simp, by simpa using ((ihg hg _ _).1 h₁).2⟩
            · simp at h
          · rintro ⟨-, h⟩
            exact .inl (.inr ⟨(b :: l, e), (ihg hg _ _).2 ⟨by simp, by simpa using h⟩, rfl⟩)
      · have : ∀ a : Location × Entry, ¬ (n :: a.1, a.2) = (m :: l, e) := fun a h => hm (by
          simp only [Prod.mk.injEq, List.cons.injEq] at h
          exact h.1.1)
        cases l <;> simp [get?_cons_nil, get?_cons_cons, item?, hm, Ne.symm hm]

theorem ordered_entries {f : Forest} (hf : f.Proper) :
    f.entries.Pairwise fun a b => a.1 < b.1 := by
  induction f with
  | nil => exact List.Pairwise.nil
  | cons n x g rest ihg ihr =>
    obtain ⟨-, hg, hn, hr⟩ := hf
    rw [entries]
    have later (b : Location × Entry) (hb : b ∈ rest.entries) (l : Location) :
        n :: l < b.1 := by
      obtain ⟨lb, e⟩ := b
      obtain ⟨hne, hge⟩ := (mem_entries_iff hr lb e).1 hb
      cases lb with
      | nil => exact absurd rfl hne
      | cons m l' =>
        have hm : m ∈ rest.names := (mem_names_iff m rest).2 fun hi => by
          cases l' <;> simp [get?_cons_nil, get?_cons_cons, hi] at hge
        exact List.cons_lt_cons_iff.2 (.inl (hn m hm))
    refine List.pairwise_append.2 ⟨List.pairwise_cons.2 ⟨?_, ?_⟩, ihr hr, ?_⟩
    · intro b hb
      obtain ⟨⟨l, e⟩, hl, rfl⟩ := List.mem_map.1 hb
      have hne := ((mem_entries_iff hg l e).1 hl).1
      refine List.cons_lt_cons_iff.2 (.inr ⟨rfl, ?_⟩)
      cases l with
      | nil => exact absurd rfl hne
      | cons _ _ => exact List.nil_lt_cons _ _
    · exact List.pairwise_map.2 ((ihg hg).imp fun h => List.cons_lt_cons_iff.2 (.inr ⟨rfl, h⟩))
    · intro a ha b hb
      rcases List.mem_cons.1 ha with rfl | ha
      · exact later b hb []
      · obtain ⟨⟨l, e⟩, -, rfl⟩ := List.mem_map.1 ha
        exact later b hb l

end Forest

end ModBuild
