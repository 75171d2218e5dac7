import ModBuild.Text.Basic

/-!
# Watch events

Watching a directory gives plain changes: a path was added, modified or deleted. An event also tells
files from directories.
-/

set_option autoImplicit false

namespace ModBuild.Watch

inductive ChangeKind where
  | added
  | modified
  | deleted
  deriving DecidableEq, Repr

structure Change where
  kind : ChangeKind
  path : Text
  deriving DecidableEq, Repr

inductive EventKind where
  | add
  | change
  | unlink
  | addDir
  | unlinkDir
  deriving DecidableEq, Repr

namespace EventKind

def text : EventKind → Text
  | .add => "add".toList
  | .change => "change".toList
  | .unlink => "unlink".toList
  | .addDir => "addDir".toList
  | .unlinkDir => "unlinkDir".toList

def ofText? (t : Text) : Option EventKind :=
  [EventKind.add, .change, .unlink, .addDir, .unlinkDir].find? fun k => k.text == t

theorem ofText?_text (k : EventKind) : ofText? k.text = some k := by cases k <;> decide

end EventKind

structure Event where
  kind : EventKind
  path : Text
  deriving DecidableEq, Repr

end ModBuild.Watch
