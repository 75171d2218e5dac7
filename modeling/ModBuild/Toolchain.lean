import ModBuild.Emission
import ModBuild.Workspace

/-!
# Toolchains

What a build needs of a transpiler: the files that it emits for a project, one after the other, and
the consolidated declarations in a file.
-/

set_option autoImplicit false

namespace ModBuild

/-- What a transpiler emitted, and the failure that it ended with after that, if any. -/
structure Transpilation where
  emissions : List Emission
  failure : Option Failure := none
  deriving DecidableEq, Repr

/-- A transpiler, as builds see it. Both actions are given the configuration file of the project;
`declare` is also told where the declarations have to go. -/
structure Toolchain where
  transpile : Path → Action Transpilation
  declare : Path → Path → Action Unit

end ModBuild
