import ModBuild.Text.Blank
import ModBuild.Text.Caseless
import ModBuild.Text.Lines

/-!
# Mod manifests

A manifest assigns values to keys, one assignment a line. The last assignment of a key counts, keys
are compared without regard to letter case, and lines that assign nothing known are ignored.
-/

set_option autoImplicit false

namespace ModBuild

inductive Field where
  | id
  | name
  | poster
  | description
  deriving DecidableEq, Repr

namespace Field

def text : Field → Text
  | .id => "id".toList
  | .name => "name".toList
  | .poster => "poster".toList
  | .description => "description".toList

end Field

structure Manifest where
  id : Text
  name : Text
  poster : Text
  description : Text
  require : List Text
  deriving DecidableEq, Repr

namespace Manifest

def assignment? (line : Text) : Option (Text × Text) :=
  (Text.cutAt? '=' line).map fun (key, value) => (Text.lower (Text.trim key), Text.trim value)

def assignments (s : Text) : List (Text × Text) := (Text.lines s).filterMap assignment?

def last? (key : Text) (as : List (Text × Text)) : Option Text :=
  (as.reverse.find? fun a => a.1 == key).map Prod.snd

def entries (value : Text) : List Text :=
  ((Text.splitOn ',' value).map Text.trim).filter (· ≠ [])

def field (as : List (Text × Text)) (f : Field) : Except Field Text :=
  match last? f.text as with
  | some value => .ok value
  | none => .error f

def parse (s : Text) : Except Field Manifest := do
  let as := assignments s
  return {
    id := ← field as .id
    name := ← field as .name
    poster := ← field as .poster
    description := ← field as .description
    require := ((last? "require".toList as).map entries).getD [] }

end Manifest

inductive ManifestDefect where
  | missingField (field : Field)
  | notFound (path : Text)
  | malformedPackage (path : Text) (defect : Text)
  | packageNotObject (path : Text)
  deriving DecidableEq, Repr

def ManifestDefect.message : ManifestDefect → Text
  | .missingField field => "mod.info has no ".toList ++ field.text ++ ".".toList
  | .notFound path => "Manifest not found: ".toList ++ path
  | .malformedPackage path defect =>
    "Invalid package.json: ".toList ++ path ++ ": ".toList ++ defect
  | .packageNotObject path =>
    "Invalid package.json: ".toList ++ path ++ ": expected an object".toList

end ModBuild
