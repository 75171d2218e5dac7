import ModBuild.Text.Order

/-!
# Names, paths and locations

A name is what a directory can call one of its entries. A path is what a user or a tool writes: an
anchor and segments, where a segment is a name or a step up. A location is where a path leads when
every step up is taken: the list of names from the root of the file system.
-/

set_option autoImplicit false

namespace ModBuild

/-- What a directory entry can be called: not empty, no dot or two dots, and without a slash. -/
def Name.Valid (t : Text) : Prop := t ≠ [] ∧ t ≠ ['.'] ∧ t ≠ ['.', '.'] ∧ '/' ∉ t

instance (t : Text) : Decidable (Name.Valid t) := by unfold Name.Valid; infer_instance

structure Name where
  text : Text
  valid : Name.Valid text

namespace Name

theorem text_injective {a b : Name} (h : a.text = b.text) : a = b := by
  cases a; cases b; simp_all

instance : DecidableEq Name := fun a b =>
  decidable_of_iff (a.text == b.text) (beq_iff_eq.trans ⟨text_injective, congrArg text⟩)

instance : LT Name := ⟨fun a b => a.text < b.text⟩

instance : LE Name := ⟨fun a b => ¬ b.text < a.text⟩

instance : DecidableLT Name := fun a b =>
  decidable_of_iff (Text.before a.text b.text) Text.before_eq_true_iff

instance : DecidableLE Name := fun a b => inferInstanceAs (Decidable (¬ b < a))

instance : Std.IsLinearOrder Name where
  le_refl a := List.le_refl a.text
  le_trans _ _ _ h₁ h₂ := List.le_trans (α := Char) h₁ h₂
  le_antisymm _ _ h₁ h₂ := text_injective (List.le_antisymm (α := Char) h₁ h₂)
  le_total a b := List.le_total (α := Char) a.text b.text

instance : Std.LawfulOrderLT Name where
  lt_iff _ _ :=
    ⟨fun h => ⟨List.lt_asymm (α := Char) h, fun h' => h' h⟩, fun h => Classical.not_not.1 h.2⟩

end Name

/-- Where an entry is: the names on the way to it from the root of the file system. -/
abbrev Location := List Name

inductive Segment where
  | up
  | name (name : Name)
  deriving DecidableEq

namespace Segment

/-- The segment that a text between two slashes stands for; an empty text and a dot are none. -/
def ofText? (t : Text) : Option Segment :=
  if t = ['.', '.'] then some .up
  else if h : Name.Valid t then some (.name ⟨t, h⟩) else none

def text : Segment → Text
  | .up => ['.', '.']
  | .name n => n.text

theorem ofText?_text (s : Segment) : ofText? s.text = some s := by
  cases s with
  | up => rfl
  | name n => simp [ofText?, text, n.valid, n.valid.2.2.1]

theorem text_ne_nil (s : Segment) : s.text ≠ [] := by
  cases s with
  | up => simp [text]
  | name n => exact n.valid.1

theorem slash_not_mem_text (s : Segment) : '/' ∉ s.text := by
  cases s with
  | up => simp [text]
  | name n => exact n.valid.2.2.2

end Segment

/-- Where a path starts. Two slashes in front are an anchor of their own; one, or more than two, are
the root. -/
inductive Anchor where
  | relative
  | root
  | doubleRoot
  deriving DecidableEq

namespace Anchor

def ofText : Text → Anchor
  | '/' :: '/' :: '/' :: _ => .root
  | '/' :: '/' :: _ => .doubleRoot
  | '/' :: _ => .root
  | _ => .relative

def text : Anchor → Text
  | .relative => []
  | .root => ['/']
  | .doubleRoot => ['/', '/']

end Anchor

/-- A path as it is written, without empty segments and single dots. -/
structure Path where
  anchor : Anchor
  segments : List Segment
  deriving DecidableEq

namespace Path

/-- Reads a path. Doubled slashes, single dots and a slash at the end do not count. -/
def parse (t : Text) : Path :=
  ⟨Anchor.ofText t, (Text.splitOn '/' t).filterMap Segment.ofText?⟩

def print (p : Path) : Text :=
  if p.anchor = .relative ∧ p.segments = [] then ['.']
  else p.anchor.text ++ Text.join ['/'] (p.segments.map Segment.text)

def isAbsolute (p : Path) : Bool := p.anchor != .relative

/-- A path taken from the end of another one; an absolute path stays as it is. -/
def append (p q : Path) : Path := if q.isAbsolute then q else ⟨p.anchor, p.segments ++ q.segments⟩

instance : HDiv Path Text Path := ⟨fun p t => p.append (parse t)⟩

def parent (p : Path) : Path := ⟨p.anchor, p.segments.dropLast⟩

def name (p : Path) : Text := (p.segments.getLast?.map Segment.text).getD []

def withName (p : Path) (t : Text) : Path :=
  ⟨p.anchor, p.segments.dropLast ++ (Segment.ofText? t).toList⟩

/-- The last dot of the name and what follows it, when there is something on both sides of it. -/
def suffix (p : Path) : Text :=
  match Text.cutAt? '.' p.name.reverse with
  | some (c :: ext, _ :: _) => '.' :: (c :: ext).reverse
  | _ => []

def depth (p : Path) : Nat := p.segments.length + (if p.isAbsolute then 1 else 0)

def isWithin (p base : Path) : Bool :=
  p.anchor == base.anchor && base.segments.isPrefixOf p.segments

def ofLocation (l : Location) : Path := ⟨.root, l.map .name⟩

/-- Where the steps lead from a location; a step up from the root stays there. -/
def settle : Location → List Segment → Location
  | l, [] => l
  | l, .up :: rest => settle l.dropLast rest
  | l, .name n :: rest => settle (l ++ [n]) rest

def location (cwd : Location) (p : Path) : Location :=
  settle (if p.isAbsolute then [] else cwd) p.segments

def absolute (cwd : Location) (p : Path) : Path :=
  if p.isAbsolute then p else (ofLocation cwd).append p

theorem settle_append (l : Location) (a b : List Segment) :
    settle l (a ++ b) = settle (settle l a) b := by
  induction a generalizing l with
  | nil => rfl
  | cons s a ih => cases s <;> exact ih _

theorem settle_names (l m : Location) : settle l (m.map .name) = l ++ m := by
  induction m generalizing l with
  | nil => simp [settle]
  | cons n m ih => simp [settle, ih]

theorem location_ofLocation (cwd l : Location) : location cwd (ofLocation l) = l := by
  simp [location, ofLocation, isAbsolute, settle_names]

theorem filterMap_ofText?_map_text (ss : List Segment) :
    (ss.map Segment.text).filterMap Segment.ofText? = ss := by
  induction ss with
  | nil => rfl
  | cons s ss ih => rw [List.map_cons, List.filterMap_cons_some s.ofText?_text, ih]

theorem filterMap_splitOn_join (ss : List Segment) :
    (Text.splitOn '/' (Text.join ['/'] (ss.map Segment.text))).filterMap Segment.ofText? = ss := by
  cases ss with
  | nil => rfl
  | cons s ss =>
    have hs : ∀ t ∈ (s :: ss).map Segment.text, '/' ∉ t := fun t ht => by
      obtain ⟨x, -, rfl⟩ := List.mem_map.1 ht
      exact x.slash_not_mem_text
    rw [Text.splitOn_join (mt List.map_eq_nil_iff.1 (List.cons_ne_nil _ _)) hs,
      filterMap_ofText?_map_text]

theorem exists_join_eq_cons (s : Segment) (ss : List Segment) :
    ∃ c t, Text.join ['/'] ((s :: ss).map Segment.text) = c :: t ∧ c ≠ '/' := by
  cases h : s.text with
  | nil => exact absurd h s.text_ne_nil
  | cons c t =>
    have hc : c ≠ '/' := fun e => s.slash_not_mem_text (by simp [h, e])
    cases ss with
    | nil => exact ⟨c, t, by simp [Text.join, h], hc⟩
    | cons q ss =>
      exact ⟨c, _, by simp only [Text.join, List.map_cons, h, List.intercalate_cons_cons]; rfl, hc⟩

theorem parse_print (p : Path) : parse p.print = p := by
  obtain ⟨anchor, ss⟩ := p
  cases ss with
  | nil => cases anchor <;> decide
  | cons s ss =>
    have hj := filterMap_splitOn_join (s :: ss)
    obtain ⟨c, t, ht, hc⟩ := exists_join_eq_cons s ss
    rw [parse, print, if_neg (fun h => List.cons_ne_nil _ _ h.2), ht]
    rw [ht] at hj
    have skip (u : Text) : (Text.splitOn '/' ('/' :: u)).filterMap Segment.ofText? =
        (Text.splitOn '/' u).filterMap Segment.ofText? := by
      rw [Text.splitOn, if_pos rfl, List.filterMap_cons_none rfl]
    cases anchor
    · simp [Anchor.text, Anchor.ofText, hc, hj]
    · simp [Anchor.text, Anchor.ofText, hc, skip, hj]
    · simp [Anchor.text, Anchor.ofText, hc, skip, hj]

end Path

end ModBuild
