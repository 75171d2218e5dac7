import ModBuild.Layout

/-!
# Assets

Files of the sources that are no TypeScript are copied to the output as they are, Lua modules
between their banners.
-/

set_option autoImplicit false

namespace ModBuild.Asset

def copy (source destination : Path) (config : Config) (year : Nat) : Action Unit := do
  Action.log .info ("Copying \"".toList ++ source.print ++ "\" to \"".toList ++ destination.print ++
    "\"..".toList)
  Action.makeDirectories destination.parent
  if Banner.applies destination then
    let s ← Action.readText source
    Action.writeText? destination (Banner.wrap? config year s)
  else
    let bytes ← Action.readBytes source
    Action.writeBytes destination bytes

def typeScriptExtension : Text := ".ts".toList

/-- Whether an entry with this name is left to the transpiler, with everything in it. -/
def transpiled (n : Name) : Bool := Text.endsWith typeScriptExtension (Text.lower n.text)

def along (base : Path) (way : Location) : Path := base.append ⟨.relative, way.map .name⟩

def copyTree (source destination : Path) (config : Config) (year : Nat) : Action (List Path) := do
  let ways := (← Action.filesBelow source).filter fun way => !way.any transpiled
  ways.forM fun way => copy (along source way) (along destination way) config year
  return ways.map (along destination)

end ModBuild.Asset
