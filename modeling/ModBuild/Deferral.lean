import ModBuild.Text.Blank
import ModBuild.Text.Digit

/-!
# Deferred bindings

A module that runs before the host has filled its namespace captures nothing there. The remedy is a
block, run once the host is ready, that assigns each captured local again; closures hold variables
and not values, so they see the new one. The block goes in front of the last statement of the
module, which is its `return`.
-/

set_option autoImplicit false

namespace ModBuild

/-- A top-level local that is read from the host's namespace, and the line it stands in, counted
from one. -/
structure Binding where
  name : Text
  initializer : Text
  line : Nat
  deriving DecidableEq, Repr

namespace Binding

def reassignment (b : Binding) : Text := b.name ++ " = ".toList ++ b.initializer

/-- The declaration in a line that begins with the keyword and mentions the namespace. A local
function and a declaration without a name or a value are none. -/
def ofLine? (space line : Text) : Option (Text × Text) :=
  match Text.after? "local ".toList line with
  | none => none
  | some declaration =>
    if !Text.occurs space line || Text.startsWith "function ".toList declaration then none
    else
      match Text.cutAt? '=' declaration with
      | none => none
      | some (name, value) =>
        if Text.blank name then none else some (Text.trim name, Text.trim value)

def collect (space s : Text) : List Binding :=
  ((Text.splitOn '\n' s).zipIdx 1).filterMap fun (line, n) =>
    (ofLine? space line).map fun (name, value) => ⟨name, value, n⟩

end Binding

namespace Deferral

def defaultNamespace : Text := "____PipeWrench.".toList

def marker : Text := "-- {IMPORTS}".toList

/-- The last line that is not blank, and the lines before it; blank lines after it are dropped. -/
def splitLast (lines : List Text) : List Text × Text :=
  match lines.reverse.dropWhile Text.blank with
  | [] => ([], [])
  | last :: body => (body.reverse, last)

def block (template : Text) (bindings : List Binding) : Text :=
  Text.replaceFirst marker (Text.join ['\n'] (bindings.map Binding.reassignment)) template

def usable? (template : Option Text) : Option Text := template.filter (· ≠ [])

/-- The module with the block in front of its last line. Without bindings or without a template it
stays as it is. -/
def apply (template : Option Text) (space s : Text) : Text :=
  match Binding.collect space s, usable? template with
  | [], _ => s
  | _, none => s
  | bindings, some template =>
    let (body, last) := splitLast (Text.splitOn '\n' s)
    Text.join ['\n'] body ++ "\n\n".toList ++ block template bindings ++ "\n\n".toList ++ last ++
      ['\n']

def notice? (template : Option Text) (space s : Text) : Option Text :=
  match Binding.collect space s, usable? template with
  | [], _ => none
  | _, some _ => none
  | bindings, none =>
    some ("Found ".toList ++ Text.ofNat bindings.length ++
      " deferred binding(s) but no reimport template is configured".toList)

end Deferral

end ModBuild
