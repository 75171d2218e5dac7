import ModBuild.CommandLine.Commands
import ModBuild.Tree.Difference
import Std.Time.DateTime

/-!
# The program

Reads the project from the disk into a workspace, answers the command line there, and writes back
what changed. The tools of the toolchain are run by the caller, who names the directory and the file
that they left; the changes to follow are read from standard input, one batch to an empty line.
-/

set_option autoImplicit false

namespace ModBuild.Main

def projectVariable : String := "MODBUILD_PROJECT"

def runnerVariable : String := "MODBUILD_RUNNER"

def emittedVariable : String := "MODBUILD_EMITTED"

def artifactVariable : String := "MODBUILD_ARTIFACT"

def settle (action : Action Nat) (w : Workspace) : UInt32 × Workspace :=
  match action w with
  | .ok code w => (code.toUInt32, w)
  | .error failure w => (1, { w with printed := w.printed ++ [failure.message] })

def after (action : Action Unit) (w : Workspace) : Workspace :=
  (settle (do action; return 0) w).2

partial def loadDirectory (disk : String) (p : Path) (w : Workspace) : IO Workspace := do
  let mut w := after (Action.makeDirectories p) w
  for entry in ← ((← IO.currentDir) / disk).readDir do
    let q := p / entry.fileName.toList
    if ← entry.path.isDir then w ← loadDirectory entry.path.toString q w
    else w := after (Action.writeBytes q (← IO.FS.readBinFile entry.path)) w
  return w

def loadIfAny (disk : String) (p : Path) (w : Workspace) : IO Workspace := do
  if ← ((← IO.currentDir) / disk).isDir then loadDirectory disk p w else return w

def diskPath (l : Location) : String := String.ofList (Path.ofLocation l).print

def save (old new : Tree) : IO Unit := do
  let differences := Tree.differences old new
  for d in differences.reverse do
    match d.before, d.after with
    | none, _ | some (.file _), some (.file _) => pure ()
    | some .directory, _ => IO.FS.removeDir (diskPath d.location)
    | some (.file _), _ => IO.FS.removeFile (diskPath d.location)
  for d in differences do
    match d.after with
    | none => pure ()
    | some .directory => IO.FS.createDirAll (diskPath d.location)
    | some (.file bytes) => IO.FS.writeBinFile (diskPath d.location) bytes

/-- What the tools left: the emitted files and the declarations that the environment names. Without
emitted files the tools count as failed. -/
def readScript : IO Script := do
  let artifact ← match ← IO.getEnv artifactVariable with
    | some file => some <$> IO.FS.readBinFile file
    | none => pure none
  match ← IO.getEnv emittedVariable with
  | some directory =>
    let w ← loadIfAny directory ⟨.root, []⟩ { tree := Tree.empty }
    return { outcome := { scratch := w.tree }, artifact }
  | none =>
    let message := "no emitted files are named by ".toList ++ emittedVariable.toList
    let exitCode := if artifact.isSome then 0 else 127
    return { outcome := { exitCode, stderr := Text.encode message }, artifact }

def today : IO Timestamp := do
  let now ← Std.Time.Timestamp.now
  let date := Std.Time.PlainDate.ofEpochDay now.toDaysSinceUnixEpoch
  return ⟨date.year.toInt.toNat, date.month.toNat, date.day.toNat, 0, 0, 0, 0⟩

def report (mode : CommandLine.Mode) (options : CommandLine.Options) (w : Workspace) : IO Unit := do
  for e in CommandLine.shown mode options w.log do
    IO.eprintln (String.ofList e.message)
  for line in w.printed do
    IO.println (String.ofList line)

def quiet (w : Workspace) : Workspace := { w with log := [], printed := [], commands := [] }

def change? (line : String) : Option Watch.Change :=
  match Text.cutAt? ' ' line.toList with
  | some (kind, path) =>
    if kind = "added".toList then some ⟨.added, path⟩
    else if kind = "modified".toList then some ⟨.modified, path⟩
    else if kind = "deleted".toList then some ⟨.deleted, path⟩
    else none
  | none => none

partial def readBatch (input : IO.FS.Stream) : IO (List Watch.Change × Bool) := do
  let line ← input.getLine
  if line.isEmpty then return ([], false)
  let trimmed := Text.trim line.toList
  if trimmed = [] then return ([], true)
  let (later, more) ← readBatch input
  return ((change? (String.ofList trimmed)).toList ++ later, more)

partial def follow (host : CommandLine.Host) (root : Path) (options : CommandLine.Options)
    (input : IO.FS.Stream) (f : CommandLine.Following) (w : Workspace) : IO UInt32 := do
  let (changes, more) ← readBatch input
  let seen ← loadIfAny (String.ofList root.print) root { w with tree := Tree.empty }
  let batch : Watch.Batch := ⟨pure (), changes⟩
  match f.take [batch] (quiet seen) with
  | .error failure w =>
    report .watch options { w with printed := w.printed ++ [failure.message] }
    return 1
  | .ok f w =>
    save seen.tree w.tree
    report .watch options w
    if more then follow host root options input f w
    else
      report .watch options (after (f.close host) (quiet w))
      return 0

def run (mode : CommandLine.Mode) (options : CommandLine.Options) : IO UInt32 := do
  let script ← readScript
  let start ← today
  let host : CommandLine.Host := {
    projectVariable := (← IO.getEnv projectVariable).map String.toList
    runnerVariable := (← IO.getEnv runnerVariable).map String.toList
    scratch := ((← IO.getEnv emittedVariable).getD "").toList
    run := script.run
    print := Action.note
    clock := { year := start.year, start } }
  let current := (Path.parse (← IO.currentDir).toString.toList).location []
  let layout := host.layoutOf options
  let root := layout.root.absolute current
  let empty := after (Action.makeDirectories (Path.ofLocation current)) { tree := Tree.empty }
  let w ← loadIfAny (String.ofList root.print) root { empty with current }
  match mode with
  | .watch =>
    match CommandLine.Following.begin host layout w with
    | .error failure w' =>
      report mode options { w' with printed := w'.printed ++ [failure.message] }
      return 1
    | .ok (.error code) w' =>
      report mode options w'
      return code.toUInt32
    | .ok (.ok f) w' =>
      save w.tree w'.tree
      report mode options w'
      follow host root options (← IO.getStdin) f w'
  | _ =>
    let (code, w') := settle (CommandLine.perform host mode layout) w
    save w.tree w'.tree
    report mode options w'
    return code

end ModBuild.Main

def main (arguments : List String) : IO UInt32 := do
  match ModBuild.CommandLine.parse (arguments.map String.toList) with
  | .help => return 0
  | .malformed => return 2
  | .run mode options => ModBuild.Main.run mode options
