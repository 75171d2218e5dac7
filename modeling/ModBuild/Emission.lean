import ModBuild.Banner
import ModBuild.Require.Reference

/-!
# Emitted modules

What the transpiler emits is a path, a text and whether the text is a declaration. The path decides
the scope of the module and where it goes; in the text the calls are resolved, the bindings
deferred, and the banners put around it.
-/

set_option autoImplicit false

namespace ModBuild

structure Emission where
  path : Text
  text : Text
  isDeclaration : Bool
  deriving DecidableEq, Repr

namespace Emission

def runtimeFile : Text := "lualib_bundle.lua".toList

def declarationExtension : Text := ".d.ts".toList

def dropDots : Text → Text
  | '.' :: '/' :: rest => dropDots rest
  | s => s

/-- Where an emitted path goes in the output. Backslashes are slashes, leading dots and slashes do
not count, and the runtime library goes to the shared scope wherever it is emitted. -/
def outputPath (path : Text) : Text :=
  let slashed := dropDots (path.map fun c => if c = '\\' then '/' else c)
  if Text.endsWith runtimeFile slashed then Scope.shared.text ++ '/' :: runtimeFile
  else slashed.dropWhile (· = '/')

def verbatim : List Text :=
  [runtimeFile, "PipeWrench.lua".toList, "PipeWrench-Events.lua".toList]

/-- A module ready to be written, and what there is to tell about it. The text is missing when a
banner of it has no encoding. -/
structure Processed where
  text : Option Text
  violations : List Violation
  notice : Option Text
  deriving DecidableEq, Repr

def process (path text : Text) (config : Config) (year : Nat) : Processed :=
  if verbatim.any fun name => Text.endsWith name path then ⟨some text, [], none⟩
  else
    let required := Require.resolveAll (Scope.ofPath path) text
    let deferred := Deferral.apply config.deferralTemplate config.hostNamespace required.text
    { text := Banner.wrap? config year deferred
      violations := required.violations
      notice := Deferral.notice? config.deferralTemplate config.hostNamespace required.text }

/-- The module that an emission writes: where it goes, unless the emission is empty or a
declaration. -/
def module? (e : Emission) : Option Text :=
  let path := outputPath e.path
  if e.text = [] || e.isDeclaration || Text.endsWith declarationExtension path then none
  else some path

theorem module?_eq_some_iff {e : Emission} {path : Text} : e.module? = some path ↔
    e.text ≠ [] ∧ e.isDeclaration = false ∧ ¬ declarationExtension <:+ outputPath e.path ∧
      path = outputPath e.path := by
  rw [module?, ← Text.endsWith_iff]
  generalize outputPath e.path = written
  cases e.text <;> cases e.isDeclaration <;>
    cases Text.endsWith declarationExtension written <;> simp [eq_comm]

end Emission

end ModBuild
