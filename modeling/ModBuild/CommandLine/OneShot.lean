import ModBuild.Build
import ModBuild.CommandLine.Host
import ModBuild.Declaration.Compile

/-!
# Commands that run once

Building a project, and writing its declarations. Both need the manifest before they touch anything,
do their work, and end with an exit code after the lines that tell of it.
-/

set_option autoImplicit false

namespace ModBuild.CommandLine

/-- A command that runs once: what is said when it fails, and its work, which comes to the lines
that it closes with. -/
structure Task where
  failed : Text
  work : Manifest → Config → Toolchain → Action (List Text)

namespace Task

def carry (t : Task) (host : Host) (layout : Layout) (info : Manifest) : Action (List Text) := do
  let config ← Project.configure layout (some info)
  let toolchain ← host.toolchainOf layout
  t.work info config toolchain

def finish (t : Task) (host : Host) (layout : Layout) (info : Manifest) : Action Nat := do
  match ← Action.attempt (t.carry host layout info) with
  | .error e => reportExpected host t.failed e
  | .ok lines =>
    lines.forM host.print
    return 0

def run (t : Task) (host : Host) (layout : Layout) : Action Nat := do
  match ← Action.attempt (Project.loadManifest layout.manifest) with
  | .error e => reportManifest host e
  | .ok info =>
    layout.prepare
    t.finish host layout info

end Task

def summary (info : Manifest) (run : Run) : List Text :=
  let built := green "Built".toList ++ ' ' :: Text.ofNat run.modules.length ++
    " module(s) for ".toList ++ info.id
  let violations := yellow (Text.ofNat run.violations.length ++ " scope violation(s)".toList)
  if run.violations = [] then [built] else [built, violations]

def Task.build (host : Host) (layout : Layout) : Task where
  failed := "Build failed".toList
  work info config toolchain := do
    return summary info (← Build.run layout config host.clock toolchain)

def Task.declarations (host : Host) (layout : Layout) : Task where
  failed := "Declaration build failed".toList
  work info config toolchain := do
    let out? ← Declaration.compile layout config info host.clock.year toolchain
    return out?.toList.map fun out => green "Wrote".toList ++ ' ' :: out.print

def build (host : Host) (layout : Layout) : Action Nat := (Task.build host layout).run host layout

def declarations (host : Host) (layout : Layout) : Action Nat :=
  (Task.declarations host layout).run host layout

end ModBuild.CommandLine
