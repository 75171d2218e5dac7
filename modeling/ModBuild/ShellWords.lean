import ModBuild.Text.Basic

/-!
# Shell words

How a command written in one text is cut into words: white space separates, quotes join, and a
backslash takes the next character as it is. Between double quotes a backslash does so only in front
of a double quote or a backslash; between single quotes it is a character like any other.
-/

set_option autoImplicit false

namespace ModBuild.ShellWords

inductive Unfinished where
  | quotation
  | escape
  deriving DecidableEq, Repr

def Unfinished.message : Unfinished → Text
  | .quotation => "No closing quotation".toList
  | .escape => "No escaped character".toList

inductive Mode where
  | outside
  | bare
  | single
  | double
  deriving DecidableEq, Repr

def isSeparator (c : Char) : Bool := c = ' ' || c = '\t' || c = '\r' || c = '\n'

def readFrom : Mode → Text → Text → Except Unfinished (List Text)
  | .outside, _, [] => .ok []
  | .bare, word, [] => .ok [word.reverse]
  | .single, _, [] => .error .quotation
  | .double, _, [] => .error .quotation
  | .single, word, c :: rest =>
    if c = '\'' then readFrom .bare word rest else readFrom .single (c :: word) rest
  | .double, _, ['\\'] => .error .escape
  | .double, word, '\\' :: c :: rest =>
    if c = '"' || c = '\\' then readFrom .double (c :: word) rest
    else readFrom .double (c :: '\\' :: word) rest
  | .double, word, c :: rest =>
    if c = '"' then readFrom .bare word rest else readFrom .double (c :: word) rest
  | _, _, ['\\'] => .error .escape
  | _, word, '\\' :: c :: rest => readFrom .bare (c :: word) rest
  | .outside, _, c :: rest =>
    if isSeparator c then readFrom .outside [] rest
    else if c = '\'' then readFrom .single [] rest
    else if c = '"' then readFrom .double [] rest
    else readFrom .bare [c] rest
  | .bare, word, c :: rest =>
    if isSeparator c then (readFrom .outside [] rest).map (word.reverse :: ·)
    else if c = '\'' then readFrom .single word rest
    else if c = '"' then readFrom .double word rest
    else readFrom .bare (c :: word) rest

def read (command : Text) : Except Unfinished (List Text) := readFrom .outside [] command

end ModBuild.ShellWords
