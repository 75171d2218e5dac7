import ModBuild.Asset
import ModBuild.Version

/-!
# Host libraries

The libraries that bind a mod to its host lie among the typings, one directory a version; the latest
one is copied to the shared output, and so is the runtime library of the transpiler.
-/

set_option autoImplicit false

namespace ModBuild.Library

def names : List Text :=
  ["PipeWrench".toList, "PipeWrench-Events".toList, "PipeWrench-Utils".toList]

def fileName (library : Text) : Text := library ++ ".lua".toList

def versions (listing : Entries) (library : Text) : List Text :=
  listing.filterMap fun (way, _) =>
    match way with
    | [version, file] => if file.text = fileName library then some version.text else none
    | _ => none

def latest? (typings : Path) (library : Text) : Action (Option Path) := do
  let directory := typings / library
  let listing ← Action.ask (·.below directory)
  match Version.latest? (versions listing library) with
  | .error refusal => throw (.version refusal)
  | .ok version => return version.map fun v => directory / v / fileName library

def copyLatest (layout : Layout) (config : Config) (year : Nat) (library : Text) :
    Action (Option Path) := do
  match ← latest? layout.typings library with
  | none =>
    Action.log .debug ("No typings found for ".toList ++ library)
    return none
  | some source =>
    let target := layout.outputDirectory .shared / fileName library
    Asset.copy source target config year
    return some target

def copyRuntime (layout : Layout) (config : Config) (year : Nat) : Action (Option Path) := do
  let source := layout.scripts / Emission.runtimeFile
  if ← Action.isFile source then
    let target := layout.outputDirectory .shared / Emission.runtimeFile
    Asset.copy source target config year
    return some target
  return none

def copyAll (layout : Layout) (config : Config) (year : Nat) : Action (List Path) := do
  let shared ← names.mapM (copyLatest layout config year)
  let runtime ← copyRuntime layout config year
  return (shared ++ [runtime]).filterMap id

end ModBuild.Library
