import ModBuild.CommandLine.Following
import ModBuild.Proofs.Watch.Batch
import ModBuild.Proofs.Watch.Calls
import ModBuild.Watch.Session

/-!
# What a session delivers

A session hands every event of its batches to the callback, one after the other,
and reports a failure before it goes on. Its events and what its watcher knows
come from the batches and the watched directory alone: whether callbacks fail
does not show in them as long as they leave the directory as it is.
-/

set_option autoImplicit false

namespace ModBuild.Watch

open Asset (along)

def Callback.Replies {σ : Type} (callback : Callback σ) : Prop :=
  ∀ s e w, ∃ s' result w', callback s e w = .ok (s', result) w'

structure Invocation where
  event : Event
  result : Except Failure Unit

def Invocation.report (i : Invocation) : List LogEntry :=
  match i.result with
  | .ok () => []
  | .error f => [⟨.error, failureMessage i.event, some f⟩]

def detected (events : List Event) : List LogEntry :=
  if events ≠ [] then
    [⟨.debug, "Detected ".toList ++ Text.ofNat events.length ++ " change(s)".toList, none⟩]
  else []

def noting (w : Workspace) (lines : List LogEntry) : Workspace := { w with log := w.log ++ lines }

section

variable {σ : Type}

/-- Calls of a callback that follow each other, with nothing between them but
their reports. -/
inductive Invoked (callback : Callback σ) :
    σ → Workspace → List Invocation → σ → Workspace → Prop
  | nil {s : σ} {w : Workspace} : Invoked callback s w [] s w
  | cons {s s' s'' : σ} {w v w' : Workspace} {i : Invocation} {rest : List Invocation}
      (head : callback s i.event w = .ok (s', i.result) v)
      (tail : Invoked callback s' (noting v i.report) rest s'' w') :
      Invoked callback s w (i :: rest) s'' w'

/-- A session with the calls that it makes: the events of each batch are those
that its watcher sees in it, by what it knows after the batches before, and each
is called for once. Only a batch that cannot be told apart ends it early. -/
inductive Session (callback : Callback σ) :
    σ → Watcher → Workspace → List Batch → List Invocation → Progress σ → Workspace → Prop
  | ended {s : σ} {x : Watcher} {w : Workspace} :
      Session callback s x w [] [] (s, .ok (x, [])) w
  | taken {s s' s'' : σ} {x y : Watcher} {w v v' w' : Workspace} {b : Batch}
      {batches : List Batch} {events : List Event} {calls later : List Invocation}
      {reached : Except Failure (Watcher × List Event)}
      (observed : (do b.edits; x.observe b.changes : Action _) w = .ok (events, y) v)
      (handed : Invoked callback s (noting v (detected events)) calls s' v')
      (each : calls.map Invocation.event = events)
      (rest : Session callback s' y v' batches later (s'', reached) w') :
      Session callback s x w (b :: batches) (calls ++ later)
        (s'', reached.map fun (z, more) => (z, events ++ more)) w'
  | refused {s : σ} {x : Watcher} {w v : Workspace} {b : Batch} {batches : List Batch}
      {f : Failure} (unobserved : (do b.edits; x.observe b.changes : Action _) w = .error f v) :
      Session callback s x w (b :: batches) [] (s, .error f) v

variable {callback : Callback σ}

/-- A batch whose edits come through and whose changes can then be told apart. -/
def Batch.Sound (b : Batch) : Prop :=
  ∀ w, ∃ v, b.edits w = .ok () v ∧ ∀ c ∈ b.changes, c.Answered v

/-- A session over sound batches goes through all of them, and its events are
those that it has called for. -/
theorem Session.complete {s : σ} {x : Watcher} {w w' : Workspace} {batches : List Batch}
    {calls : List Invocation} {progress : Progress σ}
    (h : Session callback s x w batches calls progress w') (hbatches : ∀ b ∈ batches, b.Sound) :
    ∃ y, progress.2 = .ok (y, calls.map Invocation.event) := by
  induction h with
  | ended => exact ⟨_, rfl⟩
  | @taken s s' s'' x y w v v' w' b batches events calls later reached observed handed each rest
      ih =>
    obtain ⟨z, hz⟩ := ih fun b hb => hbatches b (List.mem_cons_of_mem _ hb)
    have hreached : reached = .ok (z, later.map Invocation.event) := hz
    refine ⟨z, ?_⟩
    rw [hreached, List.map_append, each]
    rfl
  | @refused s x w v b batches f unobserved =>
    obtain ⟨u, hedits, hanswered⟩ := hbatches b List.mem_cons_self w
    rw [Action.bind_of_ok hedits, observe_answered hanswered] at unobserved
    cases unobserved

end

/-! ### What a session depends on -/

structure SameBelow (directory : Path) (u v : Workspace) : Prop where
  current : u.current = v.current
  entry : ∀ way, u.entry? (along directory way) = v.entry? (along directory way)

def AgreeBelow {α : Type} (directory : Path) :
    (a b : EStateM.Result Failure Workspace α) → Prop
  | .ok x u, .ok y v => x = y ∧ SameBelow directory u v
  | .error e u, .error f v => e = f ∧ SameBelow directory u v
  | _, _ => False

/-- An action that asks of nothing but a directory: where that holds the same, it
comes to the same. -/
def Local {α : Type} (directory : Path) (a : Action α) : Prop :=
  ∀ u v, SameBelow directory u v → AgreeBelow directory (a u) (a v)

def Callback.Leaves {σ : Type} (directory : Path) (callback : Callback σ) : Prop :=
  ∀ s e w x w', callback s e w = .ok x w' → SameBelow directory w w'

/-- A batch from a directory: of what is outside, its edits ask nothing and it
reports nothing that was written. -/
structure Batch.Inside (directory : Path) (b : Batch) : Prop where
  edits : Local directory b.edits
  written : ∀ c ∈ b.changes, c.kind ≠ .deleted → ∃ way, ∀ current,
    c.absolute current = along directory way

section

variable {directory : Path} {u v w : Workspace}

namespace SameBelow

theorem refl (directory : Path) (u : Workspace) : SameBelow directory u u :=
  ⟨rfl, fun _ => rfl⟩

theorem symm (h : SameBelow directory u v) : SameBelow directory v u :=
  ⟨h.current.symm, fun way => (h.entry way).symm⟩

theorem trans (h : SameBelow directory u v) (h' : SameBelow directory v w) :
    SameBelow directory u w :=
  ⟨h.current.trans h'.current, fun way => (h.entry way).trans (h'.entry way)⟩

theorem noting (directory : Path) (u : Workspace) (lines : List LogEntry) :
    SameBelow directory u (Watch.noting u lines) :=
  ⟨rfl, fun _ => rfl⟩

end SameBelow

theorem SameBelow.isDirectory {c : Change} (h : SameBelow directory u v)
    (hc : ∃ way, ∀ current, c.absolute current = along directory way) :
    u.isDirectory (c.absolute u.current) = v.isDirectory (c.absolute v.current) := by
  obtain ⟨way, hway⟩ := hc
  rw [hway, hway, Workspace.isDirectory, Workspace.isDirectory, h.entry]

theorem SameBelow.answered {c : Change} (h : SameBelow directory u v)
    (hc : c.kind ≠ .deleted → ∃ way, ∀ current, c.absolute current = along directory way) :
    c.Answered u ↔ c.Answered v :=
  forall_congr' fun hk => by rw [h.isDirectory (hc hk)]

theorem SameBelow.sighting {c : Change} (h : SameBelow directory u v)
    (hc : c.kind ≠ .deleted → ∃ way, ∀ current, c.absolute current = along directory way)
    (known : List Text) : c.sighting known u = c.sighting known v := by
  have hpath : c.absolute u.current = c.absolute v.current := by rw [h.current]
  have hstands (hk : c.kind ≠ .deleted) :
      u.Stands (c.absolute v.current) ↔ v.Stands (c.absolute v.current) := by
    rw [Workspace.Stands, Workspace.Stands, ← h.isDirectory (hc hk), hpath]
  unfold Change.sighting
  rw [hpath]
  cases hk : c.kind with
  | deleted => rfl
  | added => simp only [hstands (by simp [hk])]
  | modified => simp only [hstands (by simp [hk])]

variable {σ τ : Type} {callback : Callback σ} {callback' : Callback τ}

theorem Invoked.leaves {s s' : σ} {calls : List Invocation}
    (h : Invoked callback s u calls s' v) (hleaves : callback.Leaves directory) :
    SameBelow directory u v := by
  induction h with
  | nil => exact .refl _ _
  | cons head tail ih => exact ((hleaves _ _ _ _ _ head).trans (.noting _ _ _)).trans ih

end

theorem handing_replies (steps : Steps) : (CommandLine.handing steps).Replies := by
  intro r e w
  obtain ⟨x, hturn, hbefore, ⟨_, w', -, -, -, hanswer⟩, -⟩ := exists_record r ⟨steps, w, .event e⟩
  subst hbefore
  rw [hturn] at hanswer
  have hrespond : x.before.respond steps e w = .ok (x.after, x.result) w' :=
    hanswer steps rfl fun _ h => h
  refine ⟨x.after, x.result.map fun _ => (), w', ?_⟩
  rw [CommandLine.handing, Action.bind_of_ok hrespond]
  rfl

/-! Two batches from the sample project, a callback that fails every other time
and one that never fails. -/

end ModBuild.Watch
