import ModBuild.Text.Quoted

/-!
# Scopes

The host loads client, server and shared modules from separate directories; a module outside the
three has no scope. Client and server never see each other's modules, and a reference across is
reported as a violation.
-/

set_option autoImplicit false

namespace ModBuild

inductive Scope where
  | client
  | server
  | shared
  | none
  deriving DecidableEq, Repr

namespace Scope

def text : Scope → Text
  | .client => "client".toList
  | .server => "server".toList
  | .shared => "shared".toList
  | .none => "none".toList

def ofText? (t : Text) : Option Scope :=
  [Scope.client, .server, .shared, .none].find? fun s => s.text == t

def directories : List Scope := [.client, .server, .shared]

def ofPath (path : Text) : Scope :=
  let head := path.takeWhile (· ≠ '/')
  (directories.find? fun s => s.text == head).getD .none

def unknownMessage (t : Text) : Text := Text.quoted t ++ " is not a valid Scope".toList

def excludes : Scope → Scope → Bool
  | .client, .server => true
  | .server, .client => true
  | _, _ => false

theorem ofText?_text (s : Scope) : ofText? s.text = some s := by cases s <;> decide

theorem excludes_comm (a b : Scope) : excludes a b = excludes b a := by cases a <;> cases b <;> rfl

end Scope

structure Violation where
  referencing : Scope
  referenced : Scope
  reference : Text
  deriving DecidableEq, Repr

def Violation.message (v : Violation) : Text :=
  "Cannot reference code from src/".toList ++ v.referenced.text ++ " from src/".toList ++
    v.referencing.text ++ ". (Code will fail when ran)".toList

end ModBuild
