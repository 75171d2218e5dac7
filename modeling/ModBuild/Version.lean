import ModBuild.Text.Digit
import ModBuild.Text.Order
import ModBuild.Text.Quoted

/-!
# Versions

Typings of a host library lie in directories named for their versions. Versions are compared part by
part: numbers by value, words by their text, a word before any number, and a missing part before
every other.
-/

set_option autoImplicit false

namespace ModBuild.Version

inductive Part where
  | word (text : Text)
  | number (value : Nat)
  deriving DecidableEq, Repr

inductive Refusal where
  | tooLong (digits : Nat)
  | notDecimal (part : Text)
  deriving DecidableEq, Repr

def digitLimit : Nat := 4300

def tooLongMessage (digits : Nat) : Text :=
  "Exceeds the limit (".toList ++ Text.ofNat digitLimit ++
    " digits) for integer string conversion: value has ".toList ++ Text.ofNat digits ++
    " digits; use sys.set_int_max_str_digits() to increase the limit".toList

def Refusal.message : Refusal → Text
  | .tooLong digits => tooLongMessage digits
  | .notDecimal part =>
    "invalid literal for int() with base 10: ".toList ++ (Text.quoted part).take 200

/-- Reads a part. A part that is not empty and all digits has to be a decimal number. -/
def readPart (part : Text) : Except Refusal Part :=
  if part = [] || !part.all Text.isDigit then .ok (.word part)
  else
    let leading := part.takeWhile fun c => (Text.decimalValue? c).isSome
    if digitLimit < leading.length then .error (.tooLong leading.length)
    else
      match part.mapM Text.decimalValue? with
      | none => .error (.notDecimal part)
      | some digits => .ok (.number (Text.ofDigits digits))

def read (version : Text) : Except Refusal (List Part) :=
  (Text.splitOn '.' version).mapM readPart

namespace Part

def le : Part → Part → Bool
  | .word a, .word b => Text.le a b
  | .word _, .number _ => true
  | .number _, .word _ => false
  | .number m, .number n => m ≤ n

end Part

def le : List Part → List Part → Bool
  | [], _ => true
  | _ :: _, [] => false
  | a :: as, b :: bs => if a = b then le as bs else Part.le a b

/-- The names in the order of their versions; names of one version stay in the order in which they
are given. -/
def sort (names : List Text) : Except Refusal (List Text) := do
  let keyed ← names.mapM fun name => return (← read name, name)
  return (keyed.mergeSort fun a b => le a.1 b.1).map Prod.snd

/-- The name of the latest version; of several names of one version, the one given last. -/
def latest? (names : List Text) : Except Refusal (Option Text) :=
  return (← sort names).getLast?

end ModBuild.Version
