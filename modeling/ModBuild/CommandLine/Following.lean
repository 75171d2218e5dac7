import ModBuild.CommandLine.Host
import ModBuild.Watch.Responder

/-!
# Following a project

The watch command builds a project and then follows the changes of its sources, batch by batch,
until the user ends it. A first build that fails as projects do is logged, and the next change is
awaited.
-/

set_option autoImplicit false

namespace ModBuild.CommandLine

structure Following where
  steps : Watch.Steps
  responder : Watch.Responder
  watcher : Watch.Watcher

def stepsOf (host : Host) (layout : Layout) (toolchain : Toolchain) : Watch.Steps where
  load := do return (← Project.load layout).2
  build config := Build.run layout config host.clock toolchain
  year := host.clock.year

def handing (steps : Watch.Steps) : Watch.Callback Watch.Responder := fun r e => do
  let (r, result) ← r.respond steps e
  return (r, result.map fun _ => ())

def firstBuild (steps : Watch.Steps) (r : Watch.Responder) : Action Watch.Responder := do
  let (r, result) ← r.rebuild steps
  match result with
  | .ok _ => return r
  | .error e =>
    if !e.expected then throw e
    Action.log .error "Initial build failed; waiting for changes".toList (some e)
    return r

namespace Following

def start (host : Host) (steps : Watch.Steps) (r : Watch.Responder) : Action Following := do
  let responder ← firstBuild steps r
  let source := responder.layout.source
  host.print (green ("Watching ".toList ++ source.print) ++ " (Ctrl+C to stop)".toList)
  let watcher ← (Watch.Watcher.ofDirectory (← get).current source).start
  return { steps, responder, watcher }

def begin (host : Host) (layout : Layout) : Action (Except Nat Following) := do
  match ← Action.attempt (Project.loadManifest layout.manifest) with
  | .error e => return .error (← reportManifest host e)
  | .ok _ =>
    layout.prepare
    let toolchain ← host.toolchainOf layout
    let steps := stepsOf host layout toolchain
    match ← Action.attempt (Watch.Responder.create steps layout) with
    | .error e => return .error (← reportManifest host e)
    | .ok r => return .ok (← start host steps r)

def take (f : Following) (batches : List Watch.Batch) : Action Following := do
  let (responder, reached) ← Watch.takeBatches (handing f.steps) f.responder f.watcher batches
  let (watcher, _) ← Action.ofExcept reached
  return { f with responder, watcher }

def close (host : Host) (f : Following) : Action Unit := do
  let _ ← f.watcher.stop
  host.print "Stopped.".toList

end Following

def watch (host : Host) (layout : Layout) : Action Nat := do
  match ← Following.begin host layout with
  | .error code => return code
  | .ok f =>
    (← f.take host.batches).close host
    return 0

end ModBuild.CommandLine
