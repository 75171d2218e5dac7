import ModBuild.Library
import ModBuild.Toolchain

/-!
# Builds

A build writes the output tree in three layers: the assets of the sources, the host libraries, and
the modules that the transpiler emits. While the transpiler runs, every scope directory of the
sources holds a placeholder, so that the scopes stay in the emitted paths; the placeholders that the
build made are gone afterwards, whatever happened.
-/

set_option autoImplicit false

namespace ModBuild

/-- What a build did: the modules it wrote, the violations in them, and how long it took once it has
ended. -/
structure Run where
  modules : List Text := []
  violations : List Violation := []
  elapsed : Option Int := none
  deriving DecidableEq, Repr

def Run.finished (r : Run) : Bool := r.elapsed.isSome

namespace Build

def placeholderFile : Text := "_.ts".toList

def placeholder (layout : Layout) (scope : Scope) : Path :=
  layout.sourceDirectory scope / placeholderFile

def hold (layout : Layout) (scope : Scope) : Action Bool := do
  if ← Action.occupied (placeholder layout scope) then return false
  else
    Action.makeDirectories (placeholder layout scope).parent
    Action.writeText (placeholder layout scope) []
    return true

/-- Holds the scopes in their order up to the first that cannot be held, and hands over those that
have got a placeholder here. -/
def holdAll (layout : Layout) : List Scope → Action (List Scope × Except Failure Unit)
  | [] => return ([], .ok ())
  | scope :: rest => do
    match ← Action.attempt (hold layout scope) with
    | .error failure => return ([], .error failure)
    | .ok made =>
      let (others, held) ← holdAll layout rest
      return (if made then scope :: others else others, held)

/-- Takes placeholders away in their order, up to the first that cannot be removed. -/
def release (layout : Layout) (made : List Scope) : Action Unit :=
  made.forM fun scope => Action.removeFileIfAny (placeholder layout scope)

/-- Runs an action while every scope directory in the list holds a placeholder. Those that were made
for it go on every way out. -/
def withPlaceholders {α : Type} (layout : Layout) (action : Action α) (scopes : List Scope) :
    Action α := do
  let (made, held) ← holdAll layout scopes
  Action.andThen (do Action.ofExcept held; action) (release layout made)

def process (path text : Text) (config : Config) (year : Nat) : Action Emission.Processed := do
  let processed := Emission.process path text config year
  processed.violations.forM fun v => Action.log .warning v.message
  processed.notice.toList.forM fun notice => Action.log .debug notice
  return processed

def write (layout : Layout) (config : Config) (year : Nat) (run : Run) (e : Emission) :
    Action Run := do
  match e.module? with
  | none => return run
  | some path =>
    let destination := layout.output / path
    Action.makeDirectories destination.parent
    let processed ← process path e.text config year
    Action.writeText? destination processed.text
    return { run with
      modules := run.modules ++ [path]
      violations := run.violations ++ processed.violations }

def transpile (layout : Layout) (config : Config) (year : Nat) (toolchain : Toolchain) :
    Action Run := do
  let emitted ← toolchain.transpile layout.tsconfig
  let run ← emitted.emissions.foldlM (write layout config year) {}
  match emitted.failure with
  | some failure => throw failure
  | none => return run

def lay (layout : Layout) (config : Config) (year : Nat) : Action Unit := do
  layout.prepare
  Scope.directories.forM fun scope => do
    let _ ← Asset.copyTree (layout.sourceDirectory scope) (layout.outputDirectory scope) config year
  let _ ← Library.copyAll layout config year

def run (layout : Layout) (config : Config) (clock : Clock) (toolchain : Toolchain) :
    Action Run := do
  Action.log .info "Compiling project..".toList
  lay layout config clock.year
  let written ← withPlaceholders layout (transpile layout config clock.year toolchain)
    Scope.directories
  let elapsed ← Action.ofExcept (clock.measure.mapError .clock)
  Action.log .info ("Compilation complete. Took ".toList ++ secondsText (some elapsed) ++
    " second(s).".toList)
  return { written with elapsed := some elapsed }

end Build

end ModBuild
