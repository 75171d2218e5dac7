import ModBuild.Text.CodePoint
import ModBuild.Text.Digit
import ModBuild.Version

/-!
# JSON values and what is wrong with a document

A package file is read for the strings in it, so a number is kept as nothing more than a number. A
complaint points at a place in the document, given as the text from there on.
-/

set_option autoImplicit false

namespace ModBuild.Json

inductive Value where
  | null
  | bool (value : Bool)
  | number
  | string (points : List CodePoint)
  | array (items : List Value)
  | object (members : List (List CodePoint × Value))
  deriving Repr

namespace Value

/-- The value of a member; the last of several members of one name counts. -/
def member? (name : Text) : Value → Option Value
  | .object members => (members.reverse.find? fun m => m.1 == CodePoint.ofText name).map Prod.snd
  | _ => none

def isObject : Value → Bool
  | .object _ => true
  | _ => false

end Value

inductive Complaint where
  | value
  | propertyName
  | colon
  | comma
  | extraData
  | unterminatedString
  | controlCharacter
  | escape
  | unicodeEscape
  | byteOrderMark
  deriving DecidableEq, Repr

def Complaint.text : Complaint → Text
  | .value => "Expecting value".toList
  | .propertyName => "Expecting property name enclosed in double quotes".toList
  | .colon => "Expecting ':' delimiter".toList
  | .comma => "Expecting ',' delimiter".toList
  | .extraData => "Extra data".toList
  | .unterminatedString => "Unterminated string starting at".toList
  | .controlCharacter => "Invalid control character at".toList
  | .escape => "Invalid \\escape".toList
  | .unicodeEscape => "Invalid \\uXXXX escape".toList
  | .byteOrderMark => "Unexpected UTF-8 BOM (decode using utf-8-sig)".toList

inductive Container where
  | array
  | object
  deriving DecidableEq, Repr

inductive Defect where
  | malformed (complaint : Complaint) (rest : Text)
  | numeralTooLong (digits : Nat)
  | tooDeep (container : Container)
  deriving DecidableEq, Repr

/-- A place in a document: the characters before it, and the line and the column, from one. -/
structure Place where
  offset : Nat
  line : Nat
  column : Nat
  deriving DecidableEq, Repr

def Place.after (read : Text) : Place where
  offset := read.length
  line := read.count '\n' + 1
  column := (read.reverse.takeWhile (· ≠ '\n')).length + 1

def malformedMessage (document : Text) (complaint : Complaint) (rest : Text) : Text :=
  let place := Place.after (document.take (document.length - rest.length))
  complaint.text ++ ": line ".toList ++ Text.ofNat place.line ++ " column ".toList ++
    Text.ofNat place.column ++ " (char ".toList ++ Text.ofNat place.offset ++ ")".toList

def Container.text : Container → Text
  | .array => "array".toList
  | .object => "object".toList

def tooDeepMessage (container : Container) : Text :=
  "maximum recursion depth exceeded while decoding a JSON ".toList ++ container.text ++
    " from a unicode string".toList

end ModBuild.Json
