import ModBuild.Tree
import Mathlib.Data.List.Induction
import Mathlib.Data.List.Sort

/-!
# The files of a tree

What a build changes is seen in the files alone: which locations hold one, and
its bytes. Changes of files are lists of locations with what each is given, and
a later change of a location wins. Directories matter only for where a path can
be followed to, and that they are kept is all that it takes.
-/

set_option autoImplicit false

namespace ModBuild

/-- What locations are given, one after the other; nothing given to a location
takes its file away. -/
abbrev Changes := List (Location × Option ByteArray)

def overlay : Changes → (Location → Option ByteArray) → Location → Option ByteArray
  | [], files, l => files l
  | (m, c) :: rest, files, l => overlay rest (fun k => if m = k then c else files k) l

theorem overlay_append (a b : Changes) (files : Location → Option ByteArray) :
    overlay (a ++ b) files = overlay b (overlay a files) := by
  induction a generalizing files with
  | nil => rfl
  | cons x a ih => exact ih _

theorem overlay_congr (c : Changes) (f g : Location → Option ByteArray) (l : Location)
    (h : f l = g l) : overlay c f l = overlay c g l := by
  induction c generalizing f g with
  | nil => exact h
  | cons x c ih =>
    apply ih
    simp only [h]

theorem overlay_untouched (c : Changes) (files : Location → Option ByteArray) (l : Location)
    (h : ∀ x ∈ c, x.1 ≠ l) : overlay c files l = files l := by
  induction c generalizing files with
  | nil => rfl
  | cons x c ih =>
    have hx : x.1 ≠ l := h x (by simp)
    rw [overlay, ih _ (fun y hy => h y (by simp [hy])), if_neg hx]

theorem overlay_given (c : Changes) (l : Location) (hm : ∃ x ∈ c, x.1 = l) :
    ∃ x ∈ c, x.1 = l ∧ ∀ files, overlay c files l = x.2 := by
  induction c with
  | nil => simp at hm
  | cons x c ih =>
    by_cases hl : ∃ y ∈ c, y.1 = l
    · obtain ⟨y, hy, e, hv⟩ := ih hl
      exact ⟨y, by simp [hy], e, fun files => hv _⟩
    · have hno : ∀ y ∈ c, y.1 ≠ l := fun y hy e => hl ⟨y, hy, e⟩
      obtain ⟨y, hy, e⟩ := hm
      have hxl : x.1 = l := by
        rcases List.mem_cons.mp hy with rfl | hy
        · exact e
        · exact absurd e (hno y hy)
      refine ⟨x, by simp, hxl, fun files => ?_⟩
      rw [overlay, overlay_untouched c _ l hno, if_pos hxl]

theorem overlay_at (c : Changes) (files : Location → Option ByteArray) (l : Location)
    (hm : ∃ x ∈ c, x.1 = l) : ∃ x ∈ c, x.1 = l ∧ overlay c files l = x.2 := by
  obtain ⟨x, hx, e, hv⟩ := overlay_given c l hm
  exact ⟨x, hx, e, hv files⟩

theorem overlay_twice (c : Changes) (files : Location → Option ByteArray) (l : Location) :
    overlay c (overlay c files) l = overlay c files l := by
  by_cases hm : ∃ x ∈ c, x.1 = l
  · obtain ⟨x, -, -, hx⟩ := overlay_given c l hm
    rw [hx, hx]
  · exact overlay_untouched c _ l fun x hx e => hm ⟨x, hx, e⟩

def Entry.bytes? : Option Entry → Option ByteArray
  | some (.file bytes) => some bytes
  | _ => none

theorem Entry.bytes_eq_some (e : Option Entry) (b : ByteArray) :
    bytes? e = some b ↔ e = some (.file b) := by
  rcases e with _ | _ | b' <;> simp [bytes?]

namespace Tree

def file? (t : Tree) (l : Location) : Option ByteArray := Entry.bytes? (t.get? l)

theorem file_eq_some (t : Tree) (l : Location) (b : ByteArray) :
    t.file? l = some b ↔ t.get? l = some (.file b) := Entry.bytes_eq_some _ b

theorem file_update {s t : Tree} {l : Location} {e : Option Entry}
    (h : ∀ m, t.get? m = if l = m then e else s.get? m) (m : Location) :
    t.file? m = if l = m then Entry.bytes? e else s.file? m := by
  rw [file?, h]
  split <;> rfl

theorem get_of_file {s t : Tree} {l : Location} (hf : s.file? l = t.file? l)
    (hd : s.get? l = some .directory ↔ t.get? l = some .directory) : s.get? l = t.get? l := by
  rw [file?, file?] at hf
  generalize s.get? l = x at hf hd ⊢
  generalize t.get? l = y at hf hd ⊢
  rcases x with _ | _ | b <;> rcases y with _ | _ | b' <;> simp_all [Entry.bytes?]

theorem get_on_way {t : Tree} {l way : Location} (hway : way ≠ []) (h : t.get? (l ++ way) ≠ none) :
    t.get? l = some .directory := by
  induction way using List.reverseRecOn with
  | nil => exact absurd rfl hway
  | append_singleton way n ih =>
    obtain ⟨e, he⟩ := Option.ne_none_iff_exists'.mp h
    have hp := parent_isDirectory (by simp) he
    rw [← List.append_assoc, List.dropLast_concat] at hp
    by_cases hw : way = []
    · simpa [hw] using hp
    · exact ih hw (by simp [hp])

theorem get_below_none {t : Tree} {l way : Location} (hway : way ≠ [])
    (h : t.get? l ≠ some .directory) : t.get? (l ++ way) = none := by
  by_cases hn : t.get? (l ++ way) = none
  · exact hn
  · exact absurd (get_on_way hway hn) h

theorem file_below_file {t : Tree} {l way : Location} {b : ByteArray} (hway : way ≠ [])
    (h : t.file? l = some b) : t.get? (l ++ way) = none := by
  apply get_below_none hway
  rw [(t.file_eq_some l b).mp h]
  simp

theorem writeFile_ok {t t' : Tree} {l : Location} {b : ByteArray} (h : t.writeFile l b = .ok t') :
    t.get? l ≠ some .directory ∧
      ∀ m, t'.get? m = if l = m then some (.file b) else t.get? m := by
  rw [writeFile] at h
  split at h
  · cases h
  · next hd =>
    split at h
    · next hp =>
      have hl : l ≠ [] := fun e => hd (by rw [e]; rfl)
      cases h
      exact ⟨hd, get?_put t l _ hp _ hl⟩
    · cases h

theorem makeDirectory_ok {t t' : Tree} {l : Location} (h : t.makeDirectory l = .ok t') :
    t.get? l = none ∧ ∀ m, t'.get? m = if l = m then some .directory else t.get? m := by
  rw [makeDirectory] at h
  split at h
  · next hn =>
    split at h
    · next hp =>
      have hl : l ≠ [] := fun e => by rw [e, get?_nil] at hn; cases hn
      cases h
      exact ⟨hn, get?_put t l _ hp _ hl⟩
    · cases h
  · cases h

theorem removeFile_ok {t t' : Tree} {l : Location} (h : t.removeFile l = .ok t') :
    t.file? l ≠ none ∧ ∀ m, t'.get? m = if l = m then none else t.get? m := by
  rw [removeFile] at h
  split at h
  · cases h
  · cases h
  · next b hb =>
    have hfile : t.file? l = some b := (t.file_eq_some l b).mpr hb
    have hl : l ≠ [] := fun e => by rw [e, get?_nil] at hb; cases hb
    cases h
    constructor
    · simp [hfile]
    · intro m
      rw [get?_prune t l m hl]
      by_cases hm : l = m
      · simp [hm]
      · by_cases hp : l <+: m
        · obtain ⟨way, rfl⟩ := hp
          have hway : way ≠ [] := fun e => hm (by simp [e])
          simp [hm, file_below_file hway hfile]
        · simp [hm, hp]

instance : Std.Irrefl fun a b : Location × Entry => a.1 < b.1 := ⟨fun a => List.lt_irrefl a.1⟩

instance : Std.Antisymm fun a b : Location × Entry => a.1 < b.1 :=
  ⟨fun _ _ hab hba => absurd hba (List.lt_asymm hab)⟩

theorem below_congr {s t : Tree} {l m : Location}
    (h : ∀ way, way ≠ [] → s.get? (l ++ way) = t.get? (m ++ way)) : s.below l = t.below m := by
  apply (s.ordered_below l).eq_of_mem_iff (t.ordered_below m)
  intro ⟨way, e⟩
  rw [mem_below_iff, mem_below_iff]
  constructor
  · rintro ⟨hw, he⟩
    exact ⟨hw, by rw [← h way hw, he]⟩
  · rintro ⟨hw, he⟩
    exact ⟨hw, by rw [h way hw, he]⟩

def filesBelow (t : Tree) (l : Location) : List Location :=
  (t.below l).filterMap fun x => (Entry.bytes? (some x.2)).map fun _ => x.1

theorem mem_filesBelow (t : Tree) (l way : Location) :
    way ∈ t.filesBelow l ↔ way ≠ [] ∧ t.file? (l ++ way) ≠ none := by
  rw [filesBelow, List.mem_filterMap]
  constructor
  · rintro ⟨⟨way', e⟩, hm, he⟩
    rw [mem_below_iff] at hm
    obtain ⟨b, hb, rfl⟩ := Option.map_eq_some_iff.mp he
    refine ⟨hm.1, ?_⟩
    rw [file?, hm.2, hb]
    simp
  · rintro ⟨hw, hf⟩
    obtain ⟨b, hb⟩ := Option.ne_none_iff_exists'.mp hf
    rw [file_eq_some] at hb
    exact ⟨(way, .file b), (mem_below_iff t l way _).mpr ⟨hw, hb⟩, rfl⟩

theorem ordered_filesBelow (t : Tree) (l : Location) :
    (t.filesBelow l).Pairwise fun a b => a < b := by
  rw [filesBelow, List.pairwise_filterMap]
  apply (t.ordered_below l).imp
  intro x y hxy a ha b hb
  obtain ⟨-, -, rfl⟩ := Option.map_eq_some_iff.mp ha
  obtain ⟨-, -, rfl⟩ := Option.map_eq_some_iff.mp hb
  exact hxy

instance : Std.Irrefl fun a b : Location => a < b := ⟨fun a => List.lt_irrefl a⟩

instance : Std.Antisymm fun a b : Location => a < b :=
  ⟨fun _ _ hab hba => absurd hba (List.lt_asymm hab)⟩

theorem filesBelow_congr {s t : Tree} {l : Location}
    (h : ∀ way, s.file? (l ++ way) = t.file? (l ++ way)) : s.filesBelow l = t.filesBelow l := by
  apply (s.ordered_filesBelow l).eq_of_mem_iff (t.ordered_filesBelow l)
  intro way
  rw [mem_filesBelow, mem_filesBelow, h way]

theorem reach_of_way {t t' : Tree} {l m : Location} {ss : List Segment}
    (h : ∀ way, way <+: ss → t.get? (Path.settle l way) = some .directory →
      t'.get? (Path.settle l way) = some .directory)
    (hr : t.reach l ss = .ok m) : t'.reach l ss = .ok m := by
  induction ss generalizing l with
  | nil => rwa [reach_nil] at hr ⊢
  | cons s ss ih =>
    rw [reach_cons] at hr ⊢
    split at hr
    · cases hr
    · cases hr
    · next hd =>
      have hd' : t'.get? l = some .directory := h [] List.nil_prefix hd
      rw [hd']
      cases s with
      | up =>
        exact ih (fun way hway => h (.up :: way) (List.cons_prefix_cons.mpr ⟨rfl, hway⟩)) hr
      | name n =>
        dsimp only at hr ⊢
        split at hr
        · cases hr
        · next hn =>
          rw [if_neg hn]
          exact ih
            (fun way hway => h (.name n :: way) (List.cons_prefix_cons.mpr ⟨rfl, hway⟩)) hr

theorem reach_append {t : Tree} {l m : Location} {a : List Segment} (b : List Segment)
    (h : t.reach l a = .ok m) : t.reach l (a ++ b) = t.reach m b := by
  induction a generalizing l with
  | nil =>
    rw [reach_nil] at h
    cases h
    rfl
  | cons s a ih =>
    rw [List.cons_append, reach_cons]
    rw [reach_cons] at h
    split at h
    · cases h
    · cases h
    · cases s with
      | up => exact ih h
      | name n =>
        dsimp only at h ⊢
        split at h
        · cases h
        · next hn =>
          rw [if_neg hn]
          exact ih h

/-- Names lead below where they start. What they do not lead to is not there,
unless one of them is too long. -/
theorem reach_names (t : Tree) (l way : Location) :
    t.reach l (way.map .name) = .ok (l ++ way) ∨
      t.reach l (way.map .name) = .error .nameTooLong ∨
      (∃ f, t.reach l (way.map .name) = .error f) ∧ t.get? (l ++ way) = none := by
  induction way generalizing l with
  | nil =>
    left
    simp [reach_nil]
  | cons n way ih =>
    by_cases hd : t.get? l = some .directory
    · have hnext := ih (l ++ [n])
      rw [List.map_cons, reach_cons, hd]
      dsimp only
      split
      · exact .inr (.inl rfl)
      · simpa using hnext
    · have hnone : t.get? (l ++ n :: way) = none := get_below_none (List.cons_ne_nil n way) hd
      right; right
      refine ⟨?_, hnone⟩
      rw [List.map_cons, reach_cons]
      split
      · exact ⟨_, rfl⟩
      · exact ⟨_, rfl⟩
      · next h => exact absurd h hd

theorem reach_names_of_get {t t' : Tree} {l m way : Location}
    (h : t'.reach l (way.map .name) = .ok m) (hget : t.get? (l ++ way) ≠ none) :
    t.reach l (way.map .name) = .ok m := by
  induction way generalizing l with
  | nil => rwa [List.map_nil, reach_nil] at h ⊢
  | cons n way ih =>
    have hd : t.get? l = some .directory := get_on_way (List.cons_ne_nil n way) hget
    rw [List.map_cons, reach_cons] at h ⊢
    rw [hd]
    split at h
    · cases h
    · cases h
    · dsimp only at h ⊢
      split at h
      · cases h
      · next hn =>
        rw [if_neg hn]
        apply ih h
        simpa using hget

end Tree

end ModBuild
