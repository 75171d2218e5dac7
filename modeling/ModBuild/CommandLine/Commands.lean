import ModBuild.CommandLine.Following
import ModBuild.CommandLine.OneShot

/-!
# Commands

Answering a request, and showing the log of the command that answered it.
-/

set_option autoImplicit false

namespace ModBuild.CommandLine

def perform (host : Host) : Mode → Layout → Action Nat
  | .build => build host
  | .declarations => declarations host
  | .watch => watch host

def answer (host : Host) : Request → Action Nat
  | .help => return 0
  | .malformed => return 2
  | .run mode options => perform host mode (host.layoutOf options)

def Mode.tag : Mode → Text
  | .watch => "[WATCHER] - ".toList
  | _ => "[COMPILER] - ".toList

def shown (mode : Mode) (options : Options) (log : List LogEntry) : List LogEntry :=
  (log.filter fun e => options.verbose || e.level != .debug).map fun e =>
    { e with message := mode.tag ++ e.message }

end ModBuild.CommandLine
