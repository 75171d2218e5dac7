import ModBuild.Json.Value

/-!
# Reading JSON documents

The reader takes what package files hold: the standard grammar, the three special numbers, and `\u`
escapes of lone surrogates, which are kept. Each function returns the value and the text behind it.
-/

set_option autoImplicit false

namespace ModBuild.Json

abbrev Read (α : Type) := Except Defect (α × Text)

def isSpace (c : Char) : Bool := c = ' ' || c = '\t' || c = '\n' || c = '\r'

def skipSpace (s : Text) : Text := s.dropWhile isSpace

def isAsciiDigit (c : Char) : Bool := '0' ≤ c && c ≤ '9'

def hexValue? (c : Char) : Option Nat :=
  if '0' ≤ c ∧ c ≤ '9' then some (c.toNat - '0'.toNat)
  else if 'a' ≤ c ∧ c ≤ 'f' then some (c.toNat - 'a'.toNat + 10)
  else if 'A' ≤ c ∧ c ≤ 'F' then some (c.toNat - 'A'.toNat + 10)
  else none

def hexQuad? (s : Text) : Option Nat :=
  ((s.take 4).mapM hexValue?).map fun ds => ds.foldl (16 * · + ·) 0

def isHighSurrogate (n : Nat) : Bool := 0xD800 ≤ n && n < 0xDC00

def isLowSurrogate (n : Nat) : Bool := 0xDC00 ≤ n && n < 0xE000

def ofUnit (n : Nat) : CodePoint :=
  if isHighSurrogate n || isLowSurrogate n then .surrogate n else .scalar (Char.ofNat n)

def ofPair (high low : Nat) : Char :=
  Char.ofNat (0x10000 + (high - 0xD800) * 0x400 + (low - 0xDC00))

/-- Reads the four digits behind `\u` and, when they are a high surrogate with text enough behind
them, the low one that completes the pair. At least one character has to follow the digits. `mark`
is the text from the `u` on. -/
def unicodeEscape (mark s : Text) : Read CodePoint :=
  if s.length ≤ 4 then .error (.malformed .unicodeEscape mark)
  else
    match hexQuad? s with
    | none => .error (.malformed .unicodeEscape mark)
    | some unit =>
      let rest := s.drop 4
      match isHighSurrogate unit && 6 < rest.length, rest with
      | true, '\\' :: 'u' :: digits =>
        match hexQuad? digits with
        | none => .error (.malformed .unicodeEscape ('u' :: digits))
        | some low =>
          if isLowSurrogate low then .ok (.scalar (ofPair unit low), digits.drop 4)
          else .ok (ofUnit unit, rest)
      | _, _ => .ok (ofUnit unit, rest)

def shortEscape? : Char → Option Char
  | '"' => some '"'
  | '\\' => some '\\'
  | '/' => some '/'
  | 'b' => some '\x08'
  | 'f' => some '\x0c'
  | 'n' => some '\n'
  | 'r' => some '\r'
  | 't' => some '\t'
  | _ => none

/-- Reads a string from behind its opening quote. `start` is the text from that quote on, and `fuel`
bounds the characters that are read. -/
def stringFrom (start : Text) : Nat → Text → Read (List CodePoint)
  | 0, _ => .error (.malformed .unterminatedString start)
  | _, [] => .error (.malformed .unterminatedString start)
  | fuel + 1, c :: rest =>
    if c = '"' then .ok ([], rest)
    else if c = '\\' then
      match rest with
      | [] => .error (.malformed .unterminatedString start)
      | e :: behind =>
        let escaped : Read CodePoint :=
          if e = 'u' then unicodeEscape rest behind
          else
            match shortEscape? e with
            | some x => .ok (.scalar x, behind)
            | none => .error (.malformed .escape (c :: rest))
        match escaped with
        | .error d => .error d
        | .ok (x, next) => (stringFrom start fuel next).map fun (s, r) => (x :: s, r)
    else if c.toNat ≤ 0x1F then .error (.malformed .controlCharacter (c :: rest))
    else (stringFrom start fuel rest).map fun (s, r) => (.scalar c :: s, r)

def string (s : Text) : Read (List CodePoint) :=
  stringFrom ('"' :: s) (s.length + 1) s

def fraction? : Text → Option Text
  | '.' :: d :: rest => if isAsciiDigit d then some (rest.dropWhile isAsciiDigit) else none
  | _ => none

def exponent? : Text → Option Text
  | e :: rest =>
    if e = 'e' || e = 'E' then
      let digits := match rest with
        | sign :: more => if sign = '+' || sign = '-' then more else rest
        | [] => []
      match digits with
      | d :: more => if isAsciiDigit d then some (more.dropWhile isAsciiDigit) else none
      | [] => none
    else none
  | [] => none

def number (s : Text) : Read Value :=
  let unsigned := match s with
    | '-' :: rest => rest
    | _ => s
  let digits := match unsigned with
    | '0' :: _ => ['0']
    | _ => unsigned.takeWhile isAsciiDigit
  if digits = [] then .error (.malformed .value s)
  else
    let whole := unsigned.drop digits.length
    match fraction? whole with
    | some behind => .ok (.number, (exponent? behind).getD behind)
    | none =>
      match exponent? whole with
      | some behind => .ok (.number, behind)
      | none =>
        if Version.digitLimit < digits.length then .error (.numeralTooLong digits.length)
        else .ok (.number, whole)

def words : List (Text × Value) :=
  [("null".toList, .null), ("true".toList, .bool true), ("false".toList, .bool false),
    ("NaN".toList, .number), ("Infinity".toList, .number), ("-Infinity".toList, .number)]

def word? (s : Text) : Option (Value × Text) :=
  words.findSome? fun (w, v) => (Text.after? w s).map ((v, ·))

/-- Reads the items of an array up to its closing bracket; `fuel` bounds their number. -/
def items (item : Text → Read Value) : Nat → Text → Read (List Value)
  | 0, s => .error (.malformed .value s)
  | fuel + 1, s =>
    match item s with
    | .error d => .error d
    | .ok (v, rest) =>
      match skipSpace rest with
      | ']' :: next => .ok ([v], next)
      | ',' :: next => (items item fuel (skipSpace next)).map fun (vs, r) => (v :: vs, r)
      | other => .error (.malformed .comma other)

def members (item : Text → Read Value) : Nat → Text → Read (List (List CodePoint × Value))
  | 0, s => .error (.malformed .propertyName s)
  | fuel + 1, s =>
    match s with
    | '"' :: rest =>
      match string rest with
      | .error d => .error d
      | .ok (key, behind) =>
        match skipSpace behind with
        | ':' :: value =>
          match item (skipSpace value) with
          | .error d => .error d
          | .ok (v, rest) =>
            match skipSpace rest with
            | '\x7d' :: next => .ok ([(key, v)], next)
            | ',' :: next =>
              (members item fuel (skipSpace next)).map fun (vs, r) => ((key, v) :: vs, r)
            | other => .error (.malformed .comma other)
        | other => .error (.malformed .colon other)
    | _ => .error (.malformed .propertyName s)

def value : Nat → Text → Read Value
  | depth, s =>
    match s with
    | '"' :: rest => (string rest).map fun (t, r) => (.string t, r)
    | '[' :: rest =>
      match depth with
      | 0 => .error (.tooDeep .array)
      | depth + 1 =>
        match skipSpace rest with
        | ']' :: next => .ok (.array [], next)
        | first => (items (value depth) (first.length + 1) first).map fun (vs, r) => (.array vs, r)
    | '\x7b' :: rest =>
      match depth with
      | 0 => .error (.tooDeep .object)
      | depth + 1 =>
        match skipSpace rest with
        | '\x7d' :: next => .ok (.object [], next)
        | first =>
          (members (value depth) (first.length + 1) first).map fun (vs, r) => (.object vs, r)
    | _ =>
      match word? s with
      | some (v, rest) => .ok (v, rest)
      | none => number s

def depthLimit : Nat := 980

def parse (document : Text) : Except Defect Value :=
  if Text.startsWith ['\uFEFF'] document then .error (.malformed .byteOrderMark document)
  else
    match value depthLimit (skipSpace document) with
    | .error d => .error d
    | .ok (v, rest) =>
      match skipSpace rest with
      | [] => .ok v
      | extra => .error (.malformed .extraData extra)

end ModBuild.Json
