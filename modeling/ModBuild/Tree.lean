import ModBuild.Tree.Forest

/-!
# Trees of files

A file tree is what the root directory holds. The root itself is always a directory and has no entry
of its own. A tree is determined by what stands at its locations (`Tree.ext_get?`), and each
operation is described by what `get?` finds afterwards.
-/

set_option autoImplicit false

namespace ModBuild

inductive Fault where
  | notFound
  | alreadyExists
  | notADirectory
  | isADirectory
  | nameTooLong
  deriving DecidableEq, Repr

structure Tree where
  forest : Forest
  proper : forest.Proper

namespace Tree

def empty : Tree := ⟨.nil, trivial⟩

instance : Inhabited Tree := ⟨empty⟩

def root (t : Tree) : Entry × Forest := (.directory, t.forest)

def get? (t : Tree) (l : Location) : Option Entry := t.forest.get? l

theorem ext_get? {s t : Tree} (h : ∀ l, s.get? l = t.get? l) : s = t := by
  obtain ⟨s, hs⟩ := s
  obtain ⟨t, ht⟩ := t
  have : s = t := Forest.eq_of_get? hs ht h
  subst this
  rfl

theorem get?_nil (t : Tree) : t.get? [] = some .directory := rfl

theorem parent_isDirectory {t : Tree} {l : Location} {e : Entry} (hl : l ≠ [])
    (h : t.get? l = some e) : t.get? l.dropLast = some .directory :=
  Forest.get?_parent t.proper hl h

/-- Puts an entry into a directory of the tree. A directory is not overwritten by a file. -/
def put (t : Tree) (l : Location) (e : Entry) (parent : t.get? l.dropLast = some .directory)
    (keeps : t.get? l = some .directory → e = .directory) : Tree where
  forest := t.forest.put l e
  proper := Forest.proper_put e t.proper parent keeps

theorem get?_put (t : Tree) (l : Location) (e : Entry)
    (parent : t.get? l.dropLast = some .directory)
    (keeps : t.get? l = some .directory → e = .directory) (hl : l ≠ []) (m : Location) :
    (t.put l e parent keeps).get? m = if l = m then some e else t.get? m :=
  Forest.get?_put e hl (fun h => by rw [get?, h] at parent; exact nomatch parent) m

def prune (t : Tree) (l : Location) : Tree := ⟨t.forest.prune l, Forest.proper_prune l t.proper⟩

theorem get?_prune (t : Tree) (l m : Location) (hl : l ≠ []) :
    (t.prune l).get? m = if l <+: m then none else t.get? m :=
  Forest.get?_prune t.proper hl m

def writeFile (t : Tree) (l : Location) (bytes : ByteArray) : Except Fault Tree :=
  if hd : t.get? l = some .directory then .error .isADirectory
  else if hp : t.get? l.dropLast = some .directory then
    .ok (t.put l (.file bytes) hp fun h => absurd h hd)
  else .error .notFound

def makeDirectory (t : Tree) (l : Location) : Except Fault Tree :=
  if t.get? l = none then
    if hp : t.get? l.dropLast = some .directory then .ok (t.put l .directory hp fun _ => rfl)
    else .error .notFound
  else .error .alreadyExists

def removeFile (t : Tree) (l : Location) : Except Fault Tree :=
  match t.get? l with
  | none => .error .notFound
  | some .directory => .error .isADirectory
  | some (.file _) => .ok (t.prune l)

def relative? (base l : Location) : Option Location :=
  if base.isPrefixOf l then some (l.drop base.length) else none

def entries (t : Tree) : Entries := t.forest.entries

def below (t : Tree) (base : Location) : Entries :=
  (Forest.follow base t.root).elim [] fun x => x.2.entries

theorem mem_entries_iff (t : Tree) (l : Location) (e : Entry) :
    (l, e) ∈ t.entries ↔ l ≠ [] ∧ t.get? l = some e :=
  Forest.mem_entries_iff t.proper l e

theorem mem_below_iff (t : Tree) (base way : Location) (e : Entry) :
    (way, e) ∈ t.below base ↔ way ≠ [] ∧ t.get? (base ++ way) = some e := by
  rw [below, get?, Forest.get?, Forest.follow_append, root]
  cases h : Forest.follow base (.directory, t.forest) with
  | none => simp
  | some x =>
    obtain ⟨k, g⟩ := x
    rw [Option.elim_some,
      Forest.mem_entries_iff (Forest.proper_of_follow t.proper (fun h => absurd rfl h) h).1]
    cases way with
    | nil => simp
    | cons n way => rfl

theorem ordered_below (t : Tree) (base : Location) :
    (t.below base).Pairwise fun a b => a.1 < b.1 := by
  rw [below, root]
  cases h : Forest.follow base (.directory, t.forest) with
  | none => exact List.Pairwise.nil
  | some x =>
    exact Forest.ordered_entries (Forest.proper_of_follow t.proper (fun h => absurd rfl h) h).1

/-- How many bytes a name may have, and a written path, its end included. -/
def nameLimit : Nat := 255

def pathLimit : Nat := 4096

def byteLength (t : Text) : Nat := t.foldl (fun n c => n + c.utf8Size) 0

/-- Follows segments from where the names in `up` lead, the last one first; `here` is what stands
there. Every location that a step starts from has to be a directory; where the last step leads need
not exist. -/
def walk (t : Tree) : List Name → Option (Entry × Forest) → List Segment → Except Fault Location
  | up, _, [] => .ok up.reverse
  | _, none, _ :: _ => .error .notFound
  | _, some (.file _, _), _ :: _ => .error .notADirectory
  | up, some (.directory, _), .up :: rest =>
    walk t up.tail (Forest.follow up.tail.reverse t.root) rest
  | up, some (.directory, g), .name n :: rest =>
    if nameLimit < byteLength n.text then .error .nameTooLong else walk t (n :: up) (g.item? n) rest

def reach (t : Tree) (l : Location) (ss : List Segment) : Except Fault Location :=
  t.walk l.reverse (Forest.follow l t.root) ss

theorem reach_nil (t : Tree) (l : Location) : t.reach l [] = .ok l := by
  rw [reach, walk, List.reverse_reverse]

theorem reach_cons (t : Tree) (l : Location) (s : Segment) (ss : List Segment) :
    t.reach l (s :: ss) =
      match t.get? l with
      | none => .error .notFound
      | some (.file _) => .error .notADirectory
      | some .directory =>
        match s with
        | .up => t.reach l.dropLast ss
        | .name n =>
          if nameLimit < byteLength n.text then .error .nameTooLong else t.reach (l ++ [n]) ss := by
  rw [reach, get?, Forest.get?, ← root]
  cases h : Forest.follow l t.root with
  | none => rfl
  | some x =>
    obtain ⟨_ | _, g⟩ := x
    · cases s with
      | up => simp [walk, reach]
      | name n =>
        have : Forest.follow (l ++ [n]) t.root = g.item? n := by
          rw [Forest.follow_append, h, Option.bind_some, Forest.follow]
          cases g.item? n <;> rfl
        simp [walk, reach, this]
    · rfl

def resolve (t : Tree) (cwd : Location) (p : Path) : Except Fault Location :=
  if pathLimit ≤ byteLength p.print then .error .nameTooLong
  else t.reach (if p.isAbsolute then [] else cwd) p.segments

theorem reach_eq_settle {t : Tree} {l m : Location} {ss : List Segment}
    (h : t.reach l ss = .ok m) : m = Path.settle l ss := by
  induction ss generalizing l with
  | nil =>
    rw [reach_nil] at h
    exact (Except.ok.inj h).symm
  | cons s ss ih =>
    rw [reach_cons] at h
    split at h
    · simp at h
    · simp at h
    · cases s with
      | up => exact ih h
      | name n =>
        dsimp only at h
        split at h
        · simp at h
        · exact ih h

theorem resolve_eq_location {t : Tree} {cwd l : Location} {p : Path}
    (h : t.resolve cwd p = .ok l) : l = p.location cwd := by
  rw [resolve] at h
  split at h
  · simp at h
  · exact reach_eq_settle h

end Tree

end ModBuild
