import ModBuild.Text.Basic

/-!
# Command-line arguments

A command line names one of three commands. Each takes a project directory and a switch for more
logging; both forms of an option are accepted, short switches may be joined, a value may be attached
or follow, and the last value counts. Asking for help wins over arguments too many and over a value
that is no path, and anything that cannot be read wins over asking for help. In front of the command
one may also ask how a shell can complete command lines.
-/

set_option autoImplicit false

namespace ModBuild.CommandLine

inductive Mode where
  | build
  | declarations
  | watch
  deriving DecidableEq, Repr

def Mode.text : Mode → Text
  | .build => "build".toList
  | .declarations => "declarations".toList
  | .watch => "watch".toList

def Mode.ofText? (t : Text) : Option Mode :=
  [Mode.build, .declarations, .watch].find? fun m => m.text == t

structure Options where
  project : Option Text := none
  verbose : Bool := false
  help : Bool := false
  surplus : Bool := false
  deriving DecidableEq, Repr

inductive Request where
  | help
  | malformed
  | run (mode : Mode) (options : Options)
  deriving DecidableEq, Repr

def isOption : Text → Bool
  | '-' :: _ :: _ => true
  | _ => false

def readShort : Text → Options → Option (Options × Bool)
  | [], o => some (o, false)
  | ['p'], o => some (o, true)
  | 'p' :: value, o => some ({ o with project := some value }, false)
  | 'v' :: rest, o => readShort rest { o with verbose := true }
  | 'h' :: rest, o => readShort rest { o with help := true }
  | _, _ => none

def readLong (name : Text) (value : Option Text) (o : Options) : Option (Options × Bool) :=
  if name = "--project".toList then
    match value with
    | some v => some ({ o with project := some v }, false)
    | none => some (o, true)
  else if value.isSome then none
  else if name = "--verbose".toList then some ({ o with verbose := true }, false)
  else if name = "--help".toList then some ({ o with help := true }, false)
  else none

def readOption (a : Text) (o : Options) : Option (Options × Bool) :=
  if Text.startsWith "--".toList a then
    match Text.cutAt? '=' a with
    | some (name, value) => readLong name (some value) o
    | none => readLong a none o
  else readShort (a.drop 1) o

/-- Reads the arguments of a command; `pending` tells that the next one is the value of the project
option. -/
def readOptions : Bool → List Text → Options → Option Options
  | pending, [], o => if pending then none else some o
  | true, a :: rest, o => readOptions false rest { o with project := some a }
  | false, a :: rest, o =>
    if a = "--".toList then some { o with surplus := o.surplus || rest != [] }
    else if isOption a then
      match readOption a o with
      | none => none
      | some (o, pending) => readOptions pending rest o
    else readOptions false rest { o with surplus := true }

def leadingOptions : List Text :=
  ["--help".toList, "--install-completion".toList, "--show-completion".toList]

def isLeading (a : Text) : Bool := leadingOptions.contains a || (a.drop 1).all (· = 'h')

def readLeading : Bool → List Text → Option (Bool × List Text)
  | help, [] => some (help, [])
  | help, a :: rest =>
    if a = "--".toList then some (help, rest)
    else if isOption a then
      if isLeading a then readLeading true rest else none
    else some (help, a :: rest)

def isPath (t : Text) : Bool := !t.contains '\x00'

def requestOf (mode : Mode) (arguments : List Text) : Request :=
  match readOptions false arguments {} with
  | none => .malformed
  | some options =>
    if options.help then .help
    else if options.surplus || !options.project.all isPath then .malformed
    else .run mode options

/-- What arguments ask for that do not begin with a command. They may stand behind a double dash and
are read once more as leading ones, for help may be among them. -/
def requestWithout (arguments : List Text) : Request :=
  match readLeading false arguments with
  | some (true, _) => .help
  | _ => .malformed

def parse (arguments : List Text) : Request :=
  match readLeading false arguments with
  | none => .malformed
  | some (true, _) => .help
  | some (false, []) => .malformed
  | some (false, command :: rest) =>
    match Mode.ofText? command with
    | some mode => requestOf mode rest
    | none => requestWithout (command :: rest)

end ModBuild.CommandLine
