import ModBuild.Emission
import ModBuild.Workspace

/-!
# The layout of a project

Where everything of a project is, counted from its root.
-/

set_option autoImplicit false

namespace ModBuild

structure Layout where
  root : Path
  deriving DecidableEq

namespace Layout

def choose (given environment : Option Text) : Layout :=
  ⟨Path.parse ((given <|> environment).getD ['.'])⟩

def source (l : Layout) : Path := l.root / "src".toList

def output (l : Layout) : Path := l.root / "media".toList / "lua".toList

def dist (l : Layout) : Path := l.root / "dist".toList

def scripts (l : Layout) : Path := l.root / "scripts".toList

def typings (l : Layout) : Path := l.root / "typings".toList

def manifest (l : Layout) : Path := l.root / "mod.info".toList

def package (l : Layout) : Path := l.root / "package.json".toList

def tsconfig (l : Layout) : Path := l.root / "tsconfig.json".toList

def header (l : Layout) : Path := l.scripts / "header.txt".toList

def footer (l : Layout) : Path := l.scripts / "footer.txt".toList

def deferralTemplate (l : Layout) : Path := l.scripts / "reimport_template.lua".toList

def sourceDirectory (l : Layout) (s : Scope) : Path := l.source / s.text

def outputDirectory (l : Layout) (s : Scope) : Path := l.output / s.text

def mergedDeclarations (l : Layout) (id : Text) : Path :=
  l.dist / (id ++ Emission.declarationExtension)

def prepare (l : Layout) : Action Unit := do
  Scope.directories.forM fun s => Action.makeDirectories (l.outputDirectory s)
  Action.makeDirectories l.dist

end Layout

end ModBuild
