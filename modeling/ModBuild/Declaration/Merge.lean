import ModBuild.Banner
import ModBuild.Declaration.Specifier

/-!
# Merged declarations

The declarations of a mod are one file: a pragma, the header, what the compiler consolidated, the
declaration files of the sources and the footer. The specifiers in it are flattened, the footer
excepted.
-/

set_option autoImplicit false

namespace ModBuild.Declaration

def pragma : Text := "/** @noResolution @noSelfInFile */".toList

/-- The lines of the consolidated declarations without the empty lines and the empty modules. -/
def consolidated (s : Text) : List Text :=
  (Text.lines s).filter fun line =>
    !(Text.occurs "declare module ".toList line && Text.occurs "\x7b \x7d".toList line) && line ≠ []

structure SourceFile where
  path : Text
  content : Text
  deriving DecidableEq, Repr

def fileMark (path : Text) : Text := "/* File: ".toList ++ path ++ " */".toList

def mergedBody (consolidated : List Text) (files : List SourceFile) (header : List Text) :
    List Text :=
  [pragma, []] ++ (if header = [] then [] else header ++ [[]]) ++ consolidated ++ [[]] ++
    files.flatMap fun file => fileMark file.path :: Text.lines file.content

def merged (consolidated : List Text) (files : List SourceFile) (config : Config)
    (tokens : Banner.Tokens) : Text :=
  let header := Banner.render config.header tokens Banner.typeScriptMark
  let footer := Banner.render config.footer tokens Banner.typeScriptMark
  let body := (mergedBody consolidated files header).map flatten
  Text.join ['\n'] (body ++ footer) ++ ['\n']

def nothingToExport (consolidated : List Text) (files : List SourceFile) : Bool :=
  consolidated.isEmpty && files.isEmpty

def merge? (consolidated : List Text) (files : List SourceFile) (config : Config)
    (tokens : Banner.Tokens) : Option Text :=
  if nothingToExport consolidated files then none
  else some (merged consolidated files config tokens)

end ModBuild.Declaration
