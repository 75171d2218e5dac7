import ModBuild.Failure
import ModBuild.Text.Encoding
import ModBuild.Text.Lines

/-!
# Workspaces

A workspace is what a build works on: a file tree with a current directory, and the record of what
was logged, printed and run. A question about a workspace returns an answer or a failure and changes
nothing; a change returns another workspace or a failure. Actions string the two together and keep,
when they fail, what was done before.
-/

set_option autoImplicit false

namespace ModBuild

inductive Level where
  | debug
  | info
  | warning
  | error
  deriving DecidableEq, Repr

structure LogEntry where
  level : Level
  message : Text
  cause : Option Failure := none
  deriving DecidableEq, Repr

structure Command where
  arguments : List Text
  directory : Option Text
  deriving DecidableEq, Repr

structure Workspace where
  tree : Tree
  current : Location := []
  log : List LogEntry := []
  printed : List Text := []
  commands : List Command := []

namespace Workspace

def resolve (w : Workspace) (p : Path) : Except Failure Location :=
  if '\x00' ∈ p.print then .error .nullCharacter
  else
    match w.tree.resolve w.current p with
    | .ok l => .ok l
    | .error f => .error (.fault f)

/-- What stands at a path, if anything. A path that leads nowhere has nothing; only a name that is
too long is refused. -/
def entry? (w : Workspace) (p : Path) : Except Failure (Option Entry) :=
  match w.resolve p with
  | .ok l => .ok (w.tree.get? l)
  | .error (.fault .nameTooLong) => .error (.fault .nameTooLong)
  | .error _ => .ok none

def occupied (w : Workspace) (p : Path) : Except Failure Bool := do
  return (← w.entry? p).isSome

def isDirectory (w : Workspace) (p : Path) : Except Failure Bool := do
  return (← w.entry? p) == some .directory

def isFile (w : Workspace) (p : Path) : Except Failure Bool := do
  match ← w.entry? p with
  | some (.file _) => return true
  | _ => return false

def readBytes (w : Workspace) (p : Path) : Except Failure ByteArray := do
  match w.tree.get? (← w.resolve p) with
  | some (.file bytes) => return bytes
  | some .directory => throw (.fault .isADirectory)
  | none => throw (.fault .notFound)

def readText (w : Workspace) (p : Path) : Except Failure Text := do
  match Text.decode? (← w.readBytes p) with
  | some s => return Text.unifyBreaks s
  | none => throw .notText

def readText? (w : Workspace) (p : Path) : Except Failure (Option Text) := do
  if ← w.isFile p then return some (← w.readText p)
  return none

def below (w : Workspace) (p : Path) : Except Failure Entries := do
  if ← w.isDirectory p then return w.tree.below (← w.resolve p)
  return []

def filesBelow (w : Workspace) (p : Path) : Except Failure (List Location) := do
  return (← w.below p).filterMap fun (way, e) =>
    match e with
    | .file _ => some way
    | .directory => none

def onTree (w : Workspace) (p : Path) (change : Tree → Location → Except Fault Tree) :
    Except Failure Workspace := do
  match change w.tree (← w.resolve p) with
  | .ok tree => return { w with tree }
  | .error f => throw (.fault f)

def writeBytes (w : Workspace) (p : Path) (bytes : ByteArray) : Except Failure Workspace :=
  w.onTree p fun t l => t.writeFile l bytes

def writeText (w : Workspace) (p : Path) (s : Text) : Except Failure Workspace :=
  w.writeBytes p (Text.encode s)

def removeFile (w : Workspace) (p : Path) : Except Failure Workspace :=
  w.onTree p Tree.removeFile

def removeFileIfAny (w : Workspace) (p : Path) : Except Failure Workspace :=
  match w.removeFile p with
  | .error (.fault .notFound) => .ok w
  | r => r

def removeTree (w : Workspace) (p : Path) : Except Failure Workspace :=
  w.onTree p fun t l => .ok (t.prune l)

def makeDirectory (w : Workspace) (p : Path) : Except Failure Workspace :=
  w.onTree p Tree.makeDirectory

end Workspace

/-- A computation on a workspace. What it changed before a failure stays changed. -/
abbrev Action := EStateM Failure Workspace

namespace Action

def ask {α : Type} (question : Workspace → Except Failure α) : Action α := fun w =>
  match question w with
  | .ok a => .ok a w
  | .error e => .error e w

def change (step : Workspace → Except Failure Workspace) : Action Unit := fun w =>
  match step w with
  | .ok w' => .ok () w'
  | .error e => .error e w

def attempt {α : Type} (action : Action α) : Action (Except Failure α) := fun w =>
  match action w with
  | .ok a w' => .ok (.ok a) w'
  | .error e w' => .ok (.error e) w'

def andThen {α : Type} (action : Action α) (after : Action Unit) : Action α := fun w =>
  match action w with
  | .ok a w' =>
    match after w' with
    | .ok _ w'' => .ok a w''
    | .error e w'' => .error e w''
  | .error e w' =>
    match after w' with
    | .ok _ w'' => .error e w''
    | .error e' w'' => .error e' w''

def ofExcept {α : Type} (r : Except Failure α) : Action α := ask fun _ => r

def log (level : Level) (message : Text) (cause : Option Failure := none) : Action Unit :=
  modify fun w => { w with log := w.log ++ [⟨level, message, cause⟩] }

-- What is left of a line that the user has been shown.
def note (line : Text) : Action Unit := modify fun w => { w with printed := w.printed ++ [line] }

def record (command : Command) : Action Unit :=
  modify fun w => { w with commands := w.commands ++ [command] }

def readText (p : Path) : Action Text := ask (·.readText p)

def readBytes (p : Path) : Action ByteArray := ask (·.readBytes p)

def isFile (p : Path) : Action Bool := ask (·.isFile p)

def isDirectory (p : Path) : Action Bool := ask (·.isDirectory p)

def occupied (p : Path) : Action Bool := ask (·.occupied p)

def filesBelow (p : Path) : Action (List Location) := ask (·.filesBelow p)

def writeText (p : Path) (s : Text) : Action Unit := change (·.writeText p s)

def writeBytes (p : Path) (bytes : ByteArray) : Action Unit := change (·.writeBytes p bytes)

/-- Writes a text. Without one, because what is to be written has no encoding, the file is left
empty and the action fails. -/
def writeText? (p : Path) : Option Text → Action Unit
  | some s => writeText p s
  | none => do
    writeText p []
    throw .notEncodable

def removeFile (p : Path) : Action Unit := change (·.removeFile p)

def removeFileIfAny (p : Path) : Action Unit := change (·.removeFileIfAny p)

def removeTree (p : Path) : Action Unit := change (·.removeTree p)

def makeDirectory (p : Path) : Action Unit := change (·.makeDirectory p)

def forgive (p : Path) (failure : Failure) : Action Unit := do
  match failure with
  | .fault .notFound => throw failure
  | .fault _ => if !(← isDirectory p) then throw failure
  | _ => throw failure

def makeOne (p : Path) : Action Unit := do
  match ← attempt (makeDirectory p) with
  | .ok () => pure ()
  | .error failure => forgive p failure

/-- Makes the directory of the segments, which are given in reverse order, after the missing one
that it stands in. Directories on the way stay even if the last one cannot be made. -/
def makeDirectoriesFrom (anchor : Anchor) : List Segment → Action Unit
  | [] => makeOne ⟨anchor, []⟩
  | s :: outer => do
    let p : Path := ⟨anchor, (s :: outer).reverse⟩
    match ← attempt (makeDirectory p) with
    | .ok () => pure ()
    | .error (.fault .notFound) => do
      makeDirectoriesFrom anchor outer
      makeOne p
    | .error failure => forgive p failure

/-- Makes a directory and the missing ones on the way to it; one that is there is kept. -/
def makeDirectories (p : Path) : Action Unit := makeDirectoriesFrom p.anchor p.segments.reverse

end Action

end ModBuild
