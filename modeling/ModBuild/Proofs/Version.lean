import ModBuild.Proofs.Workspace.Effect
import ModBuild.Version
import Mathlib.Data.Char
import Mathlib.Data.List.Induction
import Mathlib.Data.List.Lex
import Mathlib.Data.List.Nodup
import Mathlib.Data.List.TakeWhile
import Mathlib.Data.Nat.Digits.Defs
import Mathlib.Data.Prod.Lex

/-!
# The latest of several versions

Versions are compared by their keys and so linearly ordered: of several names that have versions
there is always one whose version no other exceeds. Names of one version are not told apart: the
sort keeps them in the order in which they are given, and the one given last comes out. Where all
parts are decimal numerals the order is that of the numbers, compared one after the other, a missing
one before every other.
-/

set_option autoImplicit false

namespace ModBuild.Text

theorem decimalValue?_ascii {c : Char} (h : c.isDigit = true) :
    decimalValue? c = some (c.toNat - '0'.toNat) := by
  have hrange : 0x30 ≤ c.toNat ∧ c.toNat < 0x30 + 10 := by
    simp only [Char.isDigit, Bool.and_eq_true, decide_eq_true_eq, ge_iff_le,
      UInt32.le_iff_toNat_le] at h
    exact ⟨h.1, Nat.lt_succ_of_le h.2⟩
  rw [decimalValue?, decimalZeros, List.find?_cons_of_pos (by simpa using hrange)]
  rfl

theorem ofDigits_eq (ds : List Nat) : ofDigits ds = Nat.ofDigits 10 ds.reverse := by
  induction ds using List.reverseRecOn with
  | nil => rfl
  | append_singleton ds d ih =>
    rw [List.reverse_concat, Nat.ofDigits_cons, ← ih, ofDigits, List.foldl_concat, Nat.add_comm]
    rfl

theorem length_of_mem_splitOn {sep : Char} {s p : Text} (h : p ∈ splitOn sep s) :
    p.length ≤ s.length := by
  induction s generalizing p with
  | nil =>
    rw [splitOn, List.mem_singleton] at h
    rw [h]
  | cons c s ih =>
    rw [splitOn] at h
    split at h
    · rcases List.mem_cons.mp h with rfl | h
      · exact Nat.zero_le _
      · exact (ih h).trans (Nat.le_succ _)
    · split at h
      · next hnil => exact absurd hnil (splitOn_ne_nil sep s)
      · next piece pieces hs =>
        rw [hs] at ih
        rcases List.mem_cons.mp h with rfl | h
        · exact Nat.succ_le_succ (ih (by simp))
        · exact (ih (by simp [h])).trans (Nat.le_succ _)

end ModBuild.Text

namespace ModBuild.Version

/-! ## The keys of versions -/

def Part.key : Part → ℕ ×ₗ ℕ ×ₗ List Char
  | .word text => toLex (0, toLex (0, text))
  | .number value => toLex (1, toLex (value, []))

/-- The key of a version: the keys of its parts, the first that differs deciding. -/
def key (version : List Part) : List (ℕ ×ₗ ℕ ×ₗ List Char) := version.map Part.key

theorem Part.key_injective : Function.Injective Part.key := by
  rintro (a | m) (b | n) h <;> simp_all [Part.key]

theorem key_injective : Function.Injective key := Part.key_injective.list_map

theorem Part.le_iff_key_le : ∀ a b : Part, le a b = true ↔ a.key ≤ b.key
  | .word a, .word b => by
    simp [le, key, Prod.Lex.toLex_le_toLex, Text.le_eq_true_iff]
  | .word _, .number _ => by simp [le, key, Prod.Lex.toLex_le_toLex]
  | .number _, .word _ => by simp [le, key, Prod.Lex.toLex_le_toLex]
  | .number m, .number n => by
    simp [le, key, Prod.Lex.toLex_le_toLex, ← le_iff_lt_or_eq]

theorem le_iff_key_le (as bs : List Part) : le as bs = true ↔ key as ≤ key bs := by
  rw [← not_lt]
  induction as generalizing bs with
  | nil => simp [le, key]
  | cons a as ih =>
    cases bs with
    | nil => simp [le, key]
    | cons b bs =>
      rw [key, key, List.map_cons, List.map_cons, List.cons_lt_cons_iff, le, ← key, ← key]
      by_cases hab : a = b
      · simp [hab, ih]
      · have hkey : a.key ≠ b.key := fun h => hab (Part.key_injective h)
        rw [if_neg hab, Part.le_iff_key_le]
        simp [Ne.symm hkey]

theorem le_total (as bs : List Part) : le as bs = true ∨ le bs as = true := by
  rw [le_iff_key_le, le_iff_key_le]
  exact LinearOrder.le_total (key as) (key bs)

theorem le_trans {as bs cs : List Part} (h₁ : le as bs = true) (h₂ : le bs cs = true) :
    le as cs = true := by
  rw [le_iff_key_le] at *
  exact h₁.trans h₂

/-! ## The choice among names -/

def Readable (name : Text) : Prop := ∃ version, read name = .ok version

def NotAfter (a b : Text) : Prop :=
  ∃ va vb, read a = .ok va ∧ read b = .ok vb ∧ le va vb = true

theorem NotAfter.trans {a b c : Text} (h₁ : NotAfter a b) (h₂ : NotAfter b c) : NotAfter a c := by
  obtain ⟨va, vb, ha, hb, hab⟩ := h₁
  obtain ⟨vb', vc, hb', hc, hbc⟩ := h₂
  rw [hb] at hb'
  cases hb'
  exact ⟨va, vc, ha, hc, le_trans hab hbc⟩

def keyed (names : List Text) : Except Refusal (List (List Part × Text)) :=
  names.mapM fun name => return (← read name, name)

def byVersion (a b : List Part × Text) : Bool := le a.1 b.1

theorem latest_eq (names : List Text) : latest? names =
    (keyed names).map fun pairs => ((pairs.mergeSort byVersion).map Prod.snd).getLast? := by
  rw [latest?, sort]
  change ((keyed names >>= _) >>= _) = _
  cases keyed names <;> rfl

@[simp] theorem latest_nil : latest? [] = .ok none := by
  rw [latest_eq, keyed, List.mapM_nil]
  change Except.ok ((([] : List (List Part × Text)).mergeSort byVersion).map Prod.snd).getLast? = _
  rw [List.mergeSort_nil]
  rfl

theorem keyed_cons (name : Text) (names : List Text) : keyed (name :: names) =
    (read name).bind fun version => (keyed names).map ((version, name) :: ·) := by
  rw [keyed, List.mapM_cons]
  cases read name with
  | error e => rfl
  | ok version =>
    change (keyed names >>= _) = (keyed names).map _
    cases keyed names <;> rfl

theorem keyed_ok {names : List Text} (h : ∀ n ∈ names, Readable n) :
    ∃ pairs, keyed names = .ok pairs ∧ pairs.map Prod.snd = names ∧
      ∀ x ∈ pairs, read x.2 = .ok x.1 := by
  induction names with
  | nil => exact ⟨[], rfl, rfl, by simp⟩
  | cons n names ih =>
    obtain ⟨⟨version, hn⟩, hnames⟩ := List.forall_mem_cons.mp h
    obtain ⟨pairs, hkeyed, hsnd, hread⟩ := ih hnames
    refine ⟨(version, n) :: pairs, ?_, by rw [List.map_cons, hsnd],
      List.forall_mem_cons.mpr ⟨hn, hread⟩⟩
    rw [keyed_cons, hn, hkeyed]
    rfl

theorem readable_of_keyed {names : List Text} {pairs : List (List Part × Text)}
    (h : keyed names = .ok pairs) {n : Text} (hn : n ∈ names) : Readable n := by
  obtain ⟨pair, -, hread⟩ := (mapM_answers h).1 n hn
  cases hr : read n with
  | error e => rw [hr] at hread; cases hread
  | ok version => exact ⟨version, hr⟩

theorem refused_of_keyed {names : List Text} {e : Refusal} (h : keyed names = .error e) :
    ∃ n ∈ names, read n = .error e := by
  obtain ⟨n, hn, hread⟩ := mapM_failed h
  refine ⟨n, hn, ?_⟩
  cases hr : read n with
  | error e' => rw [hr] at hread; cases hread; rfl
  | ok version => rw [hr] at hread; cases hread

theorem refused_of_latest {names : List Text} {e : Refusal} (h : latest? names = .error e) :
    ∃ n ∈ names, read n = .error e := by
  rw [latest_eq] at h
  cases hk : keyed names with
  | error e' => rw [hk] at h; cases h; exact refused_of_keyed hk
  | ok pairs => rw [hk] at h; cases h

theorem latest_ok_iff {names : List Text} :
    (∃ v, latest? names = .ok v) ↔ ∀ n ∈ names, Readable n := by
  constructor
  · rintro ⟨v, h⟩ n hn
    rw [latest_eq] at h
    cases hk : keyed names with
    | error e => rw [hk] at h; cases h
    | ok pairs => exact readable_of_keyed hk hn
  · intro h
    obtain ⟨pairs, hk, -⟩ := keyed_ok h
    exact ⟨_, by rw [latest_eq, hk]; rfl⟩

theorem byVersion_trans (a b c : List Part × Text) (h₁ : byVersion a b = true)
    (h₂ : byVersion b c = true) : byVersion a c = true := le_trans h₁ h₂

theorem byVersion_total (a b : List Part × Text) : (byVersion a b || byVersion b a) = true :=
  Bool.or_eq_true_iff.mpr (le_total a.1 b.1)

theorem latest_ok {names : List Text} (h : ∀ n ∈ names, Readable n) (hne : names ≠ []) :
    ∃ v ∈ names, latest? names = .ok (some v) ∧ ∀ n ∈ names, NotAfter n v := by
  obtain ⟨pairs, hkeyed, hsnd, hread⟩ := keyed_ok h
  have hperm := List.mergeSort_perm pairs byVersion
  have hsorted := List.pairwise_mergeSort byVersion_trans byVersion_total pairs
  have hfull : pairs.mergeSort byVersion ≠ [] := by
    intro hnil
    rw [hnil, List.nil_perm] at hperm
    rw [hperm] at hsnd
    exact hne hsnd.symm
  obtain ⟨init, x, hx⟩ := (List.eq_nil_or_concat' _).resolve_left hfull
  rw [hx] at hperm hsorted
  have hmem (y : List Part × Text) : y ∈ pairs ↔ y ∈ init ∨ y = x := by
    rw [← hperm.mem_iff, List.mem_append, List.mem_singleton]
  have hread' := hread x ((hmem x).mpr (.inr rfl))
  refine ⟨x.2, ?_, ?_, ?_⟩
  · rw [← hsnd]
    exact List.mem_map_of_mem ((hmem x).mpr (.inr rfl))
  · rw [latest_eq, hkeyed]
    simp [Except.map, hx]
  · intro n hn
    rw [← hsnd, List.mem_map] at hn
    obtain ⟨y, hy, rfl⟩ := hn
    refine ⟨y.1, x.1, hread y hy, hread', ?_⟩
    rcases (hmem y).mp hy with hinit | rfl
    · exact (List.pairwise_append.mp hsorted).2.2 y hinit x (by simp)
    · exact (le_total y.1 y.1).elim id id

theorem latest_given_last {names : List Text} {v : Text} (hdistinct : (names ++ [v]).Nodup)
    (hlatest : ∀ n ∈ names ++ [v], NotAfter n v) : latest? (names ++ [v]) = .ok (some v) := by
  have hreadable : ∀ n ∈ names ++ [v], Readable n := fun n hn => by
    obtain ⟨vn, -, hn, -⟩ := hlatest n hn
    exact ⟨vn, hn⟩
  obtain ⟨pairs, hkeyed, hsnd, hread⟩ := keyed_ok hreadable
  obtain ⟨front, back, rfl, hfront, hback⟩ := List.map_eq_append_iff.mp hsnd
  obtain ⟨last, rfl, rfl⟩ := List.map_eq_singleton_iff.mp hback
  have hperm := List.mergeSort_perm (front ++ [last]) byVersion
  have hfull : (front ++ [last]).mergeSort byVersion ≠ [] := by
    intro hnil
    rw [hnil, List.nil_perm] at hperm
    simp at hperm
  obtain ⟨init, x, hx⟩ := (List.eq_nil_or_concat' _).resolve_left hfull
  have hlast : x = last := by
    by_contra hne
    have hmem : x ∈ front ++ [last] := hperm.mem_iff.mp (by rw [hx]; simp)
    have hxfront : x ∈ front := by simpa [hne] using hmem
    obtain ⟨vx, vl, hvx, hvl, hle⟩ := hlatest x.2 (by
      rw [← hsnd]
      exact List.mem_map_of_mem hmem)
    rw [hread x hmem] at hvx
    rw [hread last (by simp)] at hvl
    cases hvx
    cases hvl
    -- the sort is stable, so what is given after `x` and is not before it stays after it
    have hpair : List.Sublist [x, last] (init ++ [x]) := by
      rw [← hx]
      exact List.pair_sublist_mergeSort byVersion_trans byVersion_total hle
        ((List.singleton_sublist.mpr hxfront).append (List.Sublist.refl [last]))
    have hnodup : (init ++ [x]).Nodup := by
      rw [← hx, hperm.nodup_iff]
      rw [← hsnd] at hdistinct
      exact List.Nodup.of_map Prod.snd hdistinct
    rw [← List.reverse_sublist, List.reverse_concat, List.sublist_cons_iff] at hpair
    rcases hpair with hinit | ⟨rest, hrest, -⟩
    · have hx' : x ∈ init := by simpa using hinit.subset (by simp : x ∈ [x, last].reverse)
      exact (List.nodup_append.mp hnodup).2.2 x hx' x (by simp) rfl
    · exact hne (List.cons.inj hrest).1.symm
  rw [latest_eq, hkeyed]
  simp [Except.map, hx, hlast]

/-! ## Decimal versions -/

def Dotted (name : Text) : Prop :=
  ∀ part ∈ Text.splitOn '.' name, part ≠ [] ∧ ∀ c ∈ part, c.isDigit = true

instance (name : Text) : Decidable (Dotted name) :=
  decidable_of_iff (∀ part ∈ Text.splitOn '.' name, part ≠ [] ∧ part.all Char.isDigit = true)
    (by simp only [Dotted, List.all_eq_true])

def numeral (part : Text) : Nat :=
  Nat.ofDigits 10 (part.map fun c => c.toNat - '0'.toNat).reverse

def numbers (name : Text) : List Nat := (Text.splitOn '.' name).map numeral

theorem readPart_numeral {part : Text} (hne : part ≠ []) (h : ∀ c ∈ part, c.isDigit = true)
    (hlen : part.length ≤ digitLimit) : readPart part = .ok (.number (numeral part)) := by
  have hvalue : ∀ c ∈ part, Text.decimalValue? c = some (c.toNat - '0'.toNat) :=
    fun c hc => Text.decimalValue?_ascii (h c hc)
  have hall : part.all Text.isDigit = true :=
    List.all_eq_true.mpr fun c hc => by rw [Text.isDigit, hvalue c hc]; rfl
  have hleading : part.takeWhile (fun c => (Text.decimalValue? c).isSome) = part :=
    List.takeWhile_eq_self_iff.mpr fun c hc => by rw [hvalue c hc]; rfl
  have hmap : part.mapM Text.decimalValue? = some (part.map fun c => c.toNat - '0'.toNat) :=
    mapM_eq_pure hvalue
  rw [readPart, if_neg (by simp [hne, hall])]
  simp only [hleading, hmap, if_neg (Nat.not_lt.mpr hlen)]
  rw [Text.ofDigits_eq, numeral]

theorem read_dotted {name : Text} (h : Dotted name) (hlen : name.length ≤ digitLimit) :
    read name = .ok ((numbers name).map .number) := by
  rw [read, numbers, List.map_map]
  refine mapM_eq_pure fun part hpart => ?_
  obtain ⟨hne, hdigits⟩ := h part hpart
  exact readPart_numeral hne hdigits ((Text.length_of_mem_splitOn hpart).trans hlen)

theorem le_numbers (ms ns : List Nat) :
    le (ms.map .number) (ns.map .number) = true ↔ ms ≤ ns := by
  rw [← not_lt]
  induction ms generalizing ns with
  | nil => simp [le]
  | cons m ms ih =>
    cases ns with
    | nil => simp [le]
    | cons n ns =>
      rw [List.map_cons, List.map_cons, le, List.cons_lt_cons_iff]
      by_cases hmn : m = n
      · simp [hmn, ih]
      · simp [hmn, Part.le]
        omega

end ModBuild.Version
