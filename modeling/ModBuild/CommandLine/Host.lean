import ModBuild.CommandLine.Arguments
import ModBuild.Project
import ModBuild.Toolchain.Process
import ModBuild.Clock
import ModBuild.Watch.Session

/-!
# The host of a command

What a command is given from outside, and how it speaks to the user. Failures that are expected of
projects are printed and end the command; any other one is handed on to the caller.
-/

set_option autoImplicit false

namespace ModBuild.CommandLine

/-- What a command is given from outside: the variables of the environment that matter to it, the
ways to run processes, with their scratch directory, and to show a line of markup, the clock, and,
for watching, what happens until the user ends it. -/
structure Host where
  projectVariable : Option Text := none
  runnerVariable : Option Text := none
  scratch : Text
  run : Command → Action ProcessOutcome
  print : Text → Action Unit
  clock : Clock
  batches : List Watch.Batch := []

namespace Host

/-- The layout of the project that the options name, or else the environment, or else the current
directory. An empty variable names nothing. -/
def layoutOf (host : Host) (options : Options) : Layout :=
  Layout.choose options.project (host.projectVariable.filter (· ≠ []))

def toolchainOf (host : Host) (layout : Layout) : Action Toolchain :=
  match ProcessRunner.words? none host.runnerVariable with
  | .error unfinished => throw (.command unfinished)
  | .ok words =>
    pure (ProcessRunner.toolchain ⟨words, some layout.root, host.scratch, host.run⟩)

def refuse (host : Host) (line : Text) : Action Nat := do
  host.print line
  return 1

end Host

def red (s : Text) : Text := "[red]".toList ++ s ++ "[/red]".toList

def green (s : Text) : Text := "[green]".toList ++ s ++ "[/green]".toList

def yellow (s : Text) : Text := "[yellow]".toList ++ s ++ "[/yellow]".toList

def reportManifest (host : Host) (e : Failure) : Action Nat := do
  if !e.ofManifest then throw e
  host.refuse (red e.message)

def reportExpected (host : Host) (what : Text) (e : Failure) : Action Nat := do
  if !e.expected then throw e
  host.refuse (red (what ++ ":".toList) ++ ' ' :: e.message)

end ModBuild.CommandLine
