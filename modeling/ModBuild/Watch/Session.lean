import ModBuild.Watch.Watcher

/-!
# Watch sessions

A session runs a watcher over batches of changes and hands every event to a callback. A callback
that fails is reported in the log and does not stop the session; a batch whose changes cannot be
told apart ends it, with the state that the callback has come to.
-/

set_option autoImplicit false

namespace ModBuild.Watch

/-- What happened before the watcher was told: what was done to the tree, and the changes that are
reported. -/
structure Batch where
  edits : Action Unit
  changes : List Change

abbrev Callback (σ : Type) := σ → Event → Action (σ × Except Failure Unit)

def failureMessage (e : Event) : Text :=
  "Build failed while handling ".toList ++ e.kind.text ++ ' ' :: e.path

def deliver {σ : Type} (callback : Callback σ) : σ → List Event → Action σ
  | s, [] => pure s
  | s, e :: rest => do
    let (s, result) ← callback s e
    match result with
    | .ok () => pure ()
    | .error failure => Action.log .error (failureMessage e) (some failure)
    deliver callback s rest

/-- How far a session has come: the state of its callback and, unless it has failed, its watcher and
the events so far. -/
abbrev Progress (σ : Type) := σ × Except Failure (Watcher × List Event)

def takeBatch {σ : Type} (callback : Callback σ) (s : σ) (w : Watcher) (b : Batch) :
    Action (Progress σ) := do
  match ← Action.attempt (do b.edits; w.observe b.changes) with
  | .error failure => return (s, .error failure)
  | .ok (events, w) =>
    if events ≠ [] then
      Action.log .debug ("Detected ".toList ++ Text.ofNat events.length ++ " change(s)".toList)
    return (← deliver callback s events, .ok (w, events))

def takeBatches {σ : Type} (callback : Callback σ) :
    σ → Watcher → List Batch → Action (Progress σ)
  | s, w, [] => return (s, .ok (w, []))
  | s, w, b :: rest => do
    match ← takeBatch callback s w b with
    | (s, .error failure) => return (s, .error failure)
    | (s, .ok (w, events)) =>
      let (s, later) ← takeBatches callback s w rest
      return (s, later.map fun (w, more) => (w, events ++ more))

end ModBuild.Watch
