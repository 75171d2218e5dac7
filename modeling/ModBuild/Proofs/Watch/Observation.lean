import ModBuild.Proofs.Watch.Removal
import ModBuild.Watch.Watcher

/-!
# From changes to events

The events of a batch are those that remove nothing, and then the removals. A
deleted path becomes a removal whatever else the batch says of it, and a written
one becomes a write unless it is a directory.
-/

set_option autoImplicit false

namespace ModBuild

theorem Path.absolute_isAbsolute (current : Location) (p : Path) :
    (p.absolute current).isAbsolute = true := by
  rw [absolute]
  split
  · assumption
  · next hrel =>
    rw [append, if_neg hrel]
    rfl

namespace Watch

def Event.Adds (e : Event) : Prop := e.kind = .addDir ∨ e.kind = .add ∨ e.kind = .change

def Event.Removes (e : Event) : Prop := e.kind = .unlink ∨ e.kind = .unlinkDir

def Change.absolute (current : Location) (c : Change) : Path :=
  (Path.parse c.path).absolute current

def Change.removal (known : List Text) (current : Location) (c : Change) : Event :=
  if known.contains (c.absolute current).print then ⟨.unlinkDir, (c.absolute current).print⟩
  else ⟨.unlink, (c.absolute current).print⟩

def Sighting.addition? : Sighting → Option Event
  | .newDirectory p => some ⟨.addDir, p⟩
  | .write p k => some ⟨k, p⟩
  | _ => none

def Sighting.removal? : Sighting → Option Event
  | .removedFile p => some ⟨.unlink, p⟩
  | .removedDirectory p => some ⟨.unlinkDir, p⟩
  | _ => none

namespace Watcher

variable {known : List Text} {w w' : Workspace} {c : Change} {x : Sighting}

theorem sight_deleted (hk : c.kind = .deleted) (h : sight known w c = .ok x) :
    x = if known.contains (c.absolute w.current).print
      then .removedDirectory (c.absolute w.current).print
      else .removedFile (c.absolute w.current).print := by
  unfold sight at h
  rw [hk] at h
  exact (Except.ok.inj h).symm

theorem sight_written (hk : c.kind ≠ .deleted) (h : sight known w c = .ok x) :
    (w.isDirectory (c.absolute w.current) = .ok true ∧
        (x = .newDirectory (c.absolute w.current).print ∨ x = .nothing)) ∨
      ∃ k, (k = .add ∨ k = .change) ∧ x = .write (c.absolute w.current).print k := by
  unfold sight at h
  have hpath : (Path.parse c.path).absolute w.current = c.absolute w.current := rfl
  simp only [hpath] at h
  cases hd : w.isDirectory (c.absolute w.current) with
  | error f => cases hc : c.kind <;> rw [hc, hd] at h <;> first | exact absurd hc hk | cases h
  | ok b =>
    cases b with
    | true =>
      left
      refine ⟨rfl, ?_⟩
      cases hc : c.kind with
      | added => rw [hc, hd] at h; cases h; exact .inl rfl
      | modified => rw [hc, hd] at h; cases h; exact .inr rfl
      | deleted => exact absurd hc hk
    | false =>
      right
      cases hc : c.kind with
      | added => rw [hc, hd] at h; cases h; exact ⟨.add, .inl rfl, rfl⟩
      | modified => rw [hc, hd] at h; cases h; exact ⟨.change, .inr rfl, rfl⟩
      | deleted => exact absurd hc hk

theorem mem_sighted {α : Type} {f : Sighting → Option α} {g : α → Sighting}
    (hfg : ∀ s a, f s = some a ↔ s = g a) (sightings : List Sighting) (a : α) :
    a ∈ sightings.filterMap f ↔ g a ∈ sightings := by
  rw [List.mem_filterMap]
  simp [hfg]

theorem removal_of_sight (h : sight known w c = .ok x) (e : Event) :
    x.removal? = some e ↔ c.kind = .deleted ∧ e = c.removal known w.current := by
  by_cases hk : c.kind = .deleted
  · rw [sight_deleted hk h, Change.removal]
    split
    · simp [Sighting.removal?, hk, eq_comm]
    · simp [Sighting.removal?, hk, eq_comm]
  · rcases sight_written hk h with ⟨-, rfl | rfl⟩ | ⟨k, -, rfl⟩
    · simp [Sighting.removal?, hk]
    · simp [Sighting.removal?, hk]
    · simp [Sighting.removal?, hk]

theorem addition_of_sight (h : sight known w c = .ok x) {e : Event}
    (he : x.addition? = some e) : e.Adds := by
  by_cases hk : c.kind = .deleted
  · rw [sight_deleted hk h] at he
    split at he
    · cases he
    · cases he
  · rcases sight_written hk h with ⟨-, rfl | rfl⟩ | ⟨k, hk', rfl⟩
    · cases he
      exact .inl rfl
    · cases he
    · cases he
      exact .inr hk'

theorem arrange_splits (sightings : List Sighting) :
    ∃ adds removals, arrange sightings = adds ++ removals ∧
      (∀ e, e ∈ adds ↔ ∃ x ∈ sightings, x.addition? = some e) ∧
      ∀ e, e ∈ removals ↔ ∃ x ∈ sightings, x.removal? = some e := by
  have hnew := mem_sighted (f := Sighting.newDirectory?) (g := .newDirectory)
    (fun s p => by cases s <;> simp [Sighting.newDirectory?]) sightings
  have hwrite := mem_sighted (f := Sighting.write?) (g := fun x => .write x.1 x.2)
    (fun s x => by cases s <;> simp [Sighting.write?, Prod.ext_iff]) sightings
  have hfile := mem_sighted (f := Sighting.removedFile?) (g := .removedFile)
    (fun s p => by cases s <;> simp [Sighting.removedFile?]) sightings
  have hdirectory := mem_sighted (f := Sighting.removedDirectory?) (g := .removedDirectory)
    (fun s p => by cases s <;> simp [Sighting.removedDirectory?]) sightings
  -- the first two parts of the order add, the last two take away
  refine ⟨_, _, List.append_assoc _ _ _, ?_, ?_⟩
  · intro e
    rw [List.mem_append, List.mem_map, List.mem_map]
    simp only [List.mem_mergeSort, hnew, hwrite]
    constructor
    · rintro (⟨p, hp, rfl⟩ | ⟨x, hx, rfl⟩)
      · exact ⟨_, hp, rfl⟩
      · exact ⟨_, hx, rfl⟩
    · intro ⟨x, hx, he⟩
      cases x with
      | newDirectory p => exact .inl ⟨p, hx, Option.some.inj he⟩
      | write p k => exact .inr ⟨(p, k), hx, Option.some.inj he⟩
      | removedFile p => cases he
      | removedDirectory p => cases he
      | nothing => cases he
  · intro e
    rw [List.mem_append, List.mem_map, List.mem_map]
    simp only [Text.sorted, List.mem_mergeSort, hfile, hdirectory]
    constructor
    · rintro (⟨p, hp, rfl⟩ | ⟨p, hp, rfl⟩)
      · exact ⟨_, hp, rfl⟩
      · exact ⟨_, hp, rfl⟩
    · intro ⟨x, hx, he⟩
      cases x with
      | newDirectory p => cases he
      | write p k => cases he
      | removedFile p => exact .inl ⟨p, hx, Option.some.inj he⟩
      | removedDirectory p => exact .inr ⟨p, hx, Option.some.inj he⟩
      | nothing => cases he

end Watcher

/-- A batch that can be told apart changes nothing and becomes the events of what
it adds and those of what it deletes. -/
theorem observe_splits {watcher watcher' : Watcher} {changes : List Change} {events : List Event}
    {w w' : Workspace} (h : watcher.observe changes w = .ok (events, watcher') w') :
    w' = w ∧ ∃ adds removals, events = adds ++ removals ∧ (∀ e ∈ adds, e.Adds) ∧
      (∀ e, e ∈ removals ↔
        ∃ c ∈ changes, c.kind = .deleted ∧ e = c.removal watcher.known w.current) ∧
      ∀ c ∈ changes, c.kind ≠ .deleted → w.isDirectory (c.absolute w.current) ≠ .ok true →
        ∃ k, (k = .add ∨ k = .change) ∧ ⟨k, (c.absolute w.current).print⟩ ∈ adds := by
  unfold Watcher.observe at h
  obtain ⟨sightings, v, hask, h⟩ := Action.bind_eq_ok.mp h
  obtain ⟨hsight, rfl⟩ := Action.ask_eq_ok.mp hask
  obtain ⟨heq, rfl⟩ := Action.pure_eq_ok.mp h
  obtain ⟨rfl, -⟩ := Prod.mk.inj heq
  obtain ⟨hleft, hright⟩ := mapM_answers hsight
  obtain ⟨adds, removals, harrange, hadds, hremovals⟩ := Watcher.arrange_splits sightings
  refine ⟨rfl, adds, removals, harrange, ?_, ?_, ?_⟩
  · intro e he
    obtain ⟨x, hx, hadd⟩ := (hadds e).mp he
    obtain ⟨c, -, hs⟩ := hright x hx
    exact Watcher.addition_of_sight hs hadd
  · intro e
    rw [hremovals]
    constructor
    · intro ⟨x, hx, hremove⟩
      obtain ⟨c, hc, hs⟩ := hright x hx
      exact ⟨c, hc, (Watcher.removal_of_sight hs e).mp hremove⟩
    · intro ⟨c, hc, hdeleted⟩
      obtain ⟨x, hx, hs⟩ := hleft c hc
      exact ⟨x, hx, (Watcher.removal_of_sight hs e).mpr hdeleted⟩
  · intro c hc hk hno
    obtain ⟨x, hx, hs⟩ := hleft c hc
    rcases Watcher.sight_written hk hs with ⟨hd, -⟩ | ⟨k, hk', rfl⟩
    · exact absurd hd hno
    · exact ⟨k, hk', (hadds _).mpr ⟨_, hx, rfl⟩⟩

end Watch

end ModBuild
