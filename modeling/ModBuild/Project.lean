import ModBuild.Json.Reader
import ModBuild.Layout

/-!
# What a project says of itself

Loading the manifest, the author of the package file and the templates.
-/

set_option autoImplicit false

namespace ModBuild.Project

def loadManifest (p : Path) : Action Manifest := do
  match ← Action.attempt (Action.readText p) with
  | .error (.fault .notFound) => throw (.manifest (.notFound p.print))
  | .error e => throw e
  | .ok s =>
    match Manifest.parse s with
    | .ok info => return info
    | .error field => throw (.manifest (.missingField field))

/-- The author that a package names, directly or by the name of an object; an empty name is none. -/
def authorOf (package : Json.Value) : Option (List CodePoint) :=
  let author :=
    match package.member? "author".toList with
    | some (.object members) => (Json.Value.object members).member? "name".toList
    | other => other
  match author with
  | some (.string name) => if name = [] then none else some name
  | _ => none

def parsePackage (p : Path) (s : Text) : Except Failure Json.Value :=
  match Json.parse s with
  | .error (.malformed complaint rest) =>
    .error (.manifest (.malformedPackage p.print (Json.malformedMessage s complaint rest)))
  | .error (.numeralTooLong digits) => .error (.numeralTooLong digits)
  | .error (.tooDeep container) => .error (.tooDeep container)
  | .ok v => if v.isObject then .ok v else .error (.manifest (.packageNotObject p.print))

def loadAuthor (p : Path) : Action (Option (List CodePoint)) := do
  match ← Action.ask (·.readText? p) with
  | none => return none
  | some s => return authorOf (← Action.ofExcept (parsePackage p s))

def configure (layout : Layout) (info : Option Manifest) : Action Config := do
  let author ← loadAuthor layout.package
  let owner := author.getD (CodePoint.ofText ((info.map Manifest.poster).getD []))
  let header ← Action.ask (·.readText? layout.header)
  let footer ← Action.ask (·.readText? layout.footer)
  let deferralTemplate ← Action.ask (·.readText? layout.deferralTemplate)
  return { header, footer, deferralTemplate, owner }

def load (layout : Layout) : Action (Manifest × Config) := do
  let info ← loadManifest layout.manifest
  return (info, ← configure layout (some info))

end ModBuild.Project
