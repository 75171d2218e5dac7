import ModBuild.Declaration.Merge
import ModBuild.Layout
import ModBuild.Toolchain

/-!
# Compiling declarations

The compiler writes the consolidated declarations where the merged file goes; what it wrote there is
read back, merged with the declaration files of the sources and written over.
-/

set_option autoImplicit false

namespace ModBuild.Declaration

def collectIn (layout : Layout) (scope : Scope) : Action (List SourceFile) := do
  let directory := layout.sourceDirectory scope
  let ways := (← Action.filesBelow directory).filter fun way =>
    (way.getLast?.map fun n => Text.endsWith Emission.declarationExtension n.text).getD false
  ways.mapM fun way => do
    let relative : Path := ⟨.relative, way.map .name⟩
    let s ← Action.readText (directory.append relative)
    return ⟨((Path.parse "src".toList / scope.text).append relative).print, s⟩

def collect (layout : Layout) : Action (List SourceFile) := do
  return (← Scope.directories.mapM (collectIn layout)).flatten

def readConsolidated (out : Path) : Action (List Text) := do
  match ← Action.ask (·.readText? out) with
  | some s => return consolidated s
  | none => return []

/-- Writes the merged declarations of a mod, and returns where, or removes the file when there is
nothing to export. -/
def compile (layout : Layout) (config : Config) (info : Manifest) (year : Nat)
    (toolchain : Toolchain) : Action (Option Path) := do
  let out := layout.mergedDeclarations info.id
  Action.log .info ("Compiling project declarations.. (file: ".toList ++ out.print ++ ")".toList)
  Action.makeDirectories out.parent
  toolchain.declare layout.tsconfig out
  let lines ← readConsolidated out
  let files ← collect layout
  if nothingToExport lines files then
    Action.log .info "No declarations to export.".toList
    Action.removeFileIfAny out
    return none
  else
    Action.log .info "Refactoring project declarations..".toList
    Action.writeText? out ((Banner.Tokens.ofConfig? config year).map (merged lines files config))
    return some out

end ModBuild.Declaration
