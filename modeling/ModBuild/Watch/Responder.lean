import ModBuild.Build
import ModBuild.Watch.Event

/-!
# Responders

A responder answers events in the sources: a changed TypeScript file starts a full build, a changed
Lua file is copied to its place in the output, and removals are repeated there. Each event is
decided on the project as it is, and then carried out.
-/

set_option autoImplicit false

namespace ModBuild.Watch

/-- How a responder loads the configuration and builds, and the year that banners show. -/
structure Steps where
  load : Action Config
  build : Config → Action Run
  year : Nat

structure Responder where
  layout : Layout
  config : Config
  runs : List Run := []
  deriving DecidableEq

inductive Reaction where
  | ignore
  | rebuild (source : Path)
  | copy (source target : Path)
  | removeFile (target : Path)
  | removeDirectory (target : Path)
  | createDirectory (target : Path)
  deriving DecidableEq

/-- The way from the sources to where an event path leads, if that is below them. Backslashes are
slashes, and a relative path starts at the root of the project. -/
def wayOf? (layout : Layout) (current : Location) (path : Text) : Option Location :=
  let written := Path.parse (path.map fun c => if c = '\\' then '/' else c)
  let p := if written.isAbsolute then written else layout.root.append written
  if '\x00' ∈ p.print ++ layout.source.print then none
  else
    match Tree.relative? (layout.source.location current) (p.location current) with
    | some (n :: way) => some (n :: way)
    | _ => none

def reserved : List Text := ["header.lua".toList, "footer.lua".toList]

def written (way : Location) : Text := Path.print ⟨.relative, way.map .name⟩

def reactToFile (source target : Path) (w : Workspace) : Except Failure Reaction := do
  if !(← w.isFile source) then return .ignore
  let name := Text.lower source.name
  if Text.lower source.suffix = ".lua".toList then return .copy source target
  if Text.endsWith Emission.declarationExtension name then return .ignore
  return if Text.endsWith Asset.typeScriptExtension name then .rebuild source else .ignore

/-- What the output has for a removed file: nothing for a declaration, the Lua module for
TypeScript, and the file of the same name for all else. -/
def targetOfRemoved? (target : Path) : Option Path :=
  let name := Text.lower target.name
  if Text.endsWith Emission.declarationExtension name then none
  else if Text.endsWith Asset.typeScriptExtension name then
    let stem := target.name.take (target.name.length - Asset.typeScriptExtension.length)
    some (target.withName (stem ++ ".lua".toList))
  else some target

def react (layout : Layout) (e : Event) (w : Workspace) : Except Failure Reaction := do
  match wayOf? layout w.current e.path with
  | none => return .ignore
  | some way =>
    if reserved.contains (Text.lower (written way)) then return .ignore
    let source := Asset.along layout.source way
    let target := Asset.along layout.output way
    match e.kind with
    | .add => reactToFile source target w
    | .change => reactToFile source target w
    | .unlink =>
      match targetOfRemoved? target with
      | none => return .ignore
      | some p => return if ← w.isFile p then .removeFile p else .ignore
    | .unlinkDir => return if ← w.isDirectory target then .removeDirectory target else .ignore
    | .addDir => return if ← w.occupied target then .ignore else .createDirectory target

namespace Responder

def create (steps : Steps) (layout : Layout) : Action Responder := do
  return { layout, config := ← steps.load }

/-- Loads the configuration and builds. The responder keeps what it loaded even if the build fails,
and a run only if it succeeds. -/
def rebuild (steps : Steps) (r : Responder) : Action (Responder × Except Failure Run) := do
  match ← Action.attempt steps.load with
  | .error e => return (r, .error e)
  | .ok config =>
    let r := { r with config }
    match ← Action.attempt (steps.build config) with
    | .error e => return (r, .error e)
    | .ok run => return ({ r with runs := r.runs ++ [run] }, .ok run)

def perform (steps : Steps) (r : Responder) : Reaction → Action Unit
  | .ignore => pure ()
  | .rebuild _ => pure ()
  | .copy source target => Asset.copy source target r.config steps.year
  | .removeFile target => do
    Action.removeFile target
    Action.log .info ("Deleted file: ".toList ++ target.print)
  | .removeDirectory target => do
    Action.removeTree target
    Action.log .info ("Deleted directory: ".toList ++ target.print)
  | .createDirectory target => do
    Action.makeDirectories target
    Action.log .info ("Created directory: ".toList ++ target.print)

def respond (steps : Steps) (r : Responder) (e : Event) :
    Action (Responder × Except Failure (Option Run)) := do
  match ← Action.attempt (Action.ask (react r.layout e)) with
  | .error failure => return (r, .error failure)
  | .ok (.rebuild source) =>
    Action.log .info ("File changed: ".toList ++ source.print)
    let (r, result) ← rebuild steps r
    return (r, result.map some)
  | .ok reaction =>
    let result ← Action.attempt (perform steps r reaction)
    return (r, result.map fun _ => none)

end Responder

end ModBuild.Watch
