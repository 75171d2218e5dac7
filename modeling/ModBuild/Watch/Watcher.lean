import ModBuild.Asset
import ModBuild.Text.Order
import ModBuild.Watch.Event

/-!
# Watchers

A watcher turns batches of changes into events. Deletions do not tell what was deleted, so it keeps
the directories that it knows. The events of a batch come in an order that never handles a file
before its new directory or a removed directory before what was in it.
-/

set_option autoImplicit false

namespace ModBuild.Watch

/-- A watcher of a directory, with the paths of the directories below it that it knows. -/
structure Watcher where
  directory : Path
  known : List Text := []
  running : Bool := false
  deriving DecidableEq

/-- A change that has been told apart: by the absolute path of what changed, and what happened to
it. -/
inductive Sighting where
  | newDirectory (path : Text)
  | write (path : Text) (kind : EventKind)
  | removedFile (path : Text)
  | removedDirectory (path : Text)
  | nothing
  deriving DecidableEq, Repr

namespace Sighting

def newDirectory? : Sighting → Option Text
  | .newDirectory p => some p
  | _ => none

def write? : Sighting → Option (Text × EventKind)
  | .write p k => some (p, k)
  | _ => none

def removedFile? : Sighting → Option Text
  | .removedFile p => some p
  | _ => none

def removedDirectory? : Sighting → Option Text
  | .removedDirectory p => some p
  | _ => none

end Sighting

namespace Watcher

def ofDirectory (current : Location) (p : Path) : Watcher := { directory := p.absolute current }

def directoriesBelow (directory : Path) (below : Entries) : List Text :=
  below.filterMap fun (way, e) =>
    match e with
    | .directory => some (Asset.along directory way).print
    | .file _ => none

def start (w : Watcher) : Action Watcher := do
  if w.running then return w
  let known ←
    if ← Action.isDirectory w.directory then
      pure (directoriesBelow w.directory (← Action.ask (·.below w.directory)))
    else pure w.known
  Action.log .info ("Watcher started for ".toList ++ w.directory.print)
  return { w with known, running := true }

def stop (w : Watcher) : Action Watcher := do
  if !w.running then return w
  Action.log .info ("Watcher stopped for ".toList ++ w.directory.print)
  return { w with running := false }

def sight (known : List Text) (s : Workspace) (c : Change) : Except Failure Sighting := do
  let p := (Path.parse c.path).absolute s.current
  match c.kind with
  | .deleted =>
    return if known.contains p.print then .removedDirectory p.print else .removedFile p.print
  | kind =>
    if ← s.isDirectory p then
      return if kind = .added then .newDirectory p.print else .nothing
    return .write p.print (if kind = .added then .add else .change)

/-- A path with a text before or after another one, the number in front deciding first. -/
def keyLe (a b : Int × Text) : Bool := a.1 < b.1 || (a.1 == b.1 && Text.le a.2 b.2)

def depth (path : Text) : Int := (Path.parse path).depth

/-- The events of a batch: new directories from the outside in, then writes, then removed files,
then removed directories from the inside out. -/
def arrange (sightings : List Sighting) : List Event :=
  let outsideIn := (sightings.filterMap Sighting.newDirectory?).mergeSort fun a b =>
    keyLe (depth a, a) (depth b, b)
  let writes := (sightings.filterMap Sighting.write?).mergeSort fun a b =>
    if a.1 = b.1 then Text.le a.2.text b.2.text else Text.le a.1 b.1
  let removed := Text.sorted (sightings.filterMap Sighting.removedFile?)
  let insideOut := (sightings.filterMap Sighting.removedDirectory?).mergeSort fun a b =>
    keyLe (-depth a, a) (-depth b, b)
  outsideIn.map (⟨.addDir, ·⟩) ++ writes.map (fun (p, k) => ⟨k, p⟩) ++ removed.map (⟨.unlink, ·⟩) ++
    insideOut.map (⟨.unlinkDir, ·⟩)

/-- The directories known after a batch: the new ones are added first, and then each removed one
goes with everything in it. -/
def knownAfter (known : List Text) (sightings : List Sighting) : List Text :=
  let grown := (sightings.filterMap Sighting.newDirectory?).foldl
    (fun known p => if known.contains p then known else known ++ [p]) known
  let removed := (sightings.filterMap Sighting.removedDirectory?).map Path.parse
  grown.filter fun d =>
    let p := Path.parse d
    !removed.any (p.isWithin ·)

def observe (w : Watcher) (changes : List Change) : Action (List Event × Watcher) := do
  let sightings ← Action.ask fun s => changes.mapM (sight w.known s)
  return (arrange sightings, { w with known := knownAfter w.known sightings })

end Watcher

end ModBuild.Watch
