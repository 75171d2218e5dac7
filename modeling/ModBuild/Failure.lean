import ModBuild.Clock
import ModBuild.Json.Value
import ModBuild.Manifest
import ModBuild.ShellWords
import ModBuild.Tree

/-!
# Failures

Every way in which an operation on a project can fail, and what is said of it. Failures of the
manifests, of the toolchain and of the file system are expected of projects: the commands report
them and end. The others are not.
-/

set_option autoImplicit false

namespace ModBuild

inductive ToolchainError where
  | exited (tool : Text) (code : Int) (output : Text)
  | reported (message : Text)
  deriving DecidableEq, Repr

def ToolchainError.message : ToolchainError → Text
  | .exited tool code output =>
    tool ++ " exited with code ".toList ++ Text.ofInt code ++ ": ".toList ++ output
  | .reported message => message

def Fault.message : Fault → Text
  | .notFound => "[Errno 2] No such file or directory".toList
  | .alreadyExists => "[Errno 17] File exists".toList
  | .notADirectory => "[Errno 20] Not a directory".toList
  | .isADirectory => "[Errno 21] Is a directory".toList
  | .nameTooLong => "[Errno 36] File name too long".toList

inductive Failure where
  | fault (fault : Fault)
  | nullCharacter
  | notText
  | notEncodable
  | manifest (error : ManifestDefect)
  | toolchain (error : ToolchainError)
  | command (error : ShellWords.Unfinished)
  | version (refusal : Version.Refusal)
  | clock (error : ClockError)
  | numeralTooLong (digits : Nat)
  | tooDeep (container : Json.Container)
  | markup (complaint : Text)
  deriving DecidableEq, Repr

namespace Failure

def message : Failure → Text
  | .fault f => f.message
  | .nullCharacter => "embedded null byte".toList
  | .notText => "the file is not encoded in UTF-8".toList
  | .notEncodable => "the text cannot be encoded in UTF-8".toList
  | .manifest e => e.message
  | .toolchain e => e.message
  | .command e => e.message
  | .version r => r.message
  | .clock e => e.message
  | .numeralTooLong digits => Version.tooLongMessage digits
  | .tooDeep container => Json.tooDeepMessage container
  | .markup complaint => complaint

def ofManifest : Failure → Bool
  | .manifest _ => true
  | _ => false

/-- Whether a command reports a failure and ends. -/
def expected : Failure → Bool
  | .manifest _ => true
  | .toolchain _ => true
  | .fault _ => true
  | _ => false

end Failure

end ModBuild
