import ModBuild.Config
import ModBuild.Path
import ModBuild.Text.Caseless
import ModBuild.Text.Lines

/-!
# Banners

A header and a footer template become comment lines around a module. The templates may name the year
and the owner of the mod; nothing of the module itself is changed.
-/

set_option autoImplicit false

namespace ModBuild.Banner

structure Tokens where
  year : Text
  owner : Text
  deriving DecidableEq, Repr

namespace Tokens

def yearMark : Text := "{LICENSE_YEAR}".toList

def ownerMark : Text := "{LICENSE_OWNER}".toList

def namesOwner (template : Option Text) : Bool := Text.occurs ownerMark (template.getD [])

/-- The tokens for the templates of a configuration. An owner that is no text can only be left out,
so there are none if a template names it. -/
def ofConfig? (config : Config) (year : Nat) : Option Tokens :=
  match CodePoint.text? config.owner with
  | some owner => some ⟨Text.ofNat year, owner⟩
  | none =>
    if namesOwner config.header || namesOwner config.footer then none
    else some ⟨Text.ofNat year, []⟩

def fill (tokens : Tokens) (line : Text) : Text :=
  Text.replaceAll ownerMark tokens.owner (Text.replaceAll yearMark tokens.year line)

end Tokens

def luaMark : Text := "---".toList

def typeScriptMark : Text := "//".toList

def comment (mark line : Text) : Text := if line = [] then mark else mark ++ ' ' :: line

def render (template : Option Text) (tokens : Tokens) (mark : Text) : List Text :=
  (Text.lines (template.getD [])).map fun line => comment mark (tokens.fill line)

def around (config : Config) (tokens : Tokens) (s : Text) : Text :=
  let header := render config.header tokens luaMark
  let footer := render config.footer tokens luaMark
  let headed := if header = [] then s else Text.join ['\n'] header ++ "\n\n".toList ++ s
  if footer = [] then headed else headed ++ '\n' :: Text.join ['\n'] footer

def wrap? (config : Config) (year : Nat) (s : Text) : Option Text :=
  (Tokens.ofConfig? config year).map fun tokens => around config tokens s

def untouched : List Text := ["shared/zomboid.lua".toList, "shared/events.lua".toList]

def applies (destination : Path) : Bool :=
  let written := Text.lower destination.print
  Text.endsWith ".lua".toList written && !untouched.any fun name => Text.endsWith name written

end ModBuild.Banner
