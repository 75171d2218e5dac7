import ModBuild.ShellWords
import ModBuild.Text.Blank
import ModBuild.Toolchain

/-!
# The toolchain as processes

The transpiler and the declaration compiler are commands behind a common runner. What a command
prints is read as text before anything else is made of it. A command that ends with an exit code
other than nought has failed; otherwise what it left in its scratch directory is emitted file by
file, up to the first that is no text.
-/

set_option autoImplicit false

namespace ModBuild

/-- How a process ended, what it printed, and what it left in its scratch directory. -/
structure ProcessOutcome where
  exitCode : Int := 0
  stdout : ByteArray := .empty
  stderr : ByteArray := .empty
  scratch : Tree := Tree.empty

/-- How the tools of the toolchain are run: the words in front of their names, the directory to run
them in, the name of the scratch directory, and what running a command does. -/
structure ProcessRunner where
  words : List Text
  directory : Option Path
  scratch : Text
  run : Command → Action ProcessOutcome

namespace ProcessRunner

/-- The words of the runner: as given, or else as the environment says, or else the runner of the
package manager. An empty text is not given, but the environment may say it. -/
def words? (given environment : Option Text) : Except ShellWords.Unfinished (List Text) :=
  ShellWords.read (((given.filter (· ≠ [])) <|> environment).getD "npx".toList)

def readOutput (bytes : ByteArray) : Except Failure Text :=
  match Text.decode? bytes with
  | some s => .ok (Text.unifyBreaks s)
  | none => .error .notText

/-- Runs a tool. Its name is the first of the arguments that follow the words of the runner. A
command that cannot be run to its end is not recorded, and the exit code of one whose output is no
text is not looked at. -/
def runTool (r : ProcessRunner) (tool : Text) (arguments : List Text) : Action ProcessOutcome := do
  let words := r.words ++ tool :: arguments
  let command : Command := ⟨words, r.directory.map Path.print⟩
  Action.log .debug ("Running ".toList ++ Text.join [' '] words)
  let outcome ← r.run command
  Action.record command
  let stdout ← Action.ofExcept (readOutput outcome.stdout)
  let stderr ← Action.ofExcept (readOutput outcome.stderr)
  if outcome.exitCode = 0 then return outcome
  throw (.toolchain (.exited tool outcome.exitCode (Text.trim (stdout ++ stderr))))

def emittedPath (way : Location) : Text := Text.join ['/'] (way.map Name.text)

def emissions : Entries → Transpilation
  | [] => ⟨[], none⟩
  | (_, .directory) :: rest => emissions rest
  | (way, .file bytes) :: rest =>
    match Text.decode? bytes with
    | none => ⟨[], some .notText⟩
    | some s =>
      let path := emittedPath way
      let later := emissions rest
      { later with
        emissions := ⟨path, Text.unifyBreaks s, Text.endsWith Emission.declarationExtension path⟩ ::
          later.emissions }

def toolchain (r : ProcessRunner) : Toolchain where
  transpile config := do
    let outcome ← r.runTool "tstl".toList
      ["-p".toList, config.print, "--outDir".toList, r.scratch]
    return emissions outcome.scratch.entries
  declare config out := do
    let _ ← r.runTool "tsc".toList
      ["-p".toList, config.print, "--declaration".toList, "--emitDeclarationOnly".toList,
        "--outFile".toList, out.print]

end ProcessRunner

/-- A process whose outcome is known beforehand: besides what it leaves in its scratch directory, it
may write a file where its `--outFile` argument says. -/
structure Script where
  outcome : ProcessOutcome
  artifact : Option ByteArray := none

namespace Script

def argumentOf (flag : Text) : List Text → Option Text
  | a :: b :: rest => if a = flag then some b else argumentOf flag (b :: rest)
  | _ => none

/-- What the process does: it writes its file, if it has one and is told where, whatever it exits
with. -/
def run (s : Script) (command : Command) : Action ProcessOutcome := do
  match s.artifact, argumentOf "--outFile".toList command.arguments with
  | some bytes, some out => Action.writeBytes (Path.parse out) bytes
  | _, _ => pure ()
  return s.outcome

end Script

end ModBuild
