import ModBuild.Require.Token
import ModBuild.Scope

/-!
# References and their paths

The host finds modules by slash-separated paths and merges the scope directories, so a dotted
reference becomes a path without the scopes in front. The first scope dropped tells where the module
lives; from client to server and back the reference is reported, but it still resolves. Resolved
calls are single-quoted, which no search for calls finds again.
-/

set_option autoImplicit false

namespace ModBuild.Require

def cutScope? (path : Text) : Option (Scope × Text) :=
  Scope.directories.findSome? fun s => (Text.after? (s.text ++ ['/']) path).map ((s, ·))

theorem eq_of_cutScope? {path rest : Text} {s : Scope} (h : cutScope? path = some (s, rest)) :
    path = s.text ++ '/' :: rest := by
  obtain ⟨x, -, hx⟩ := List.exists_of_findSome?_eq_some h
  simp only [Option.map_eq_some_iff, Prod.mk.injEq] at hx
  obtain ⟨r, hr, rfl, rfl⟩ := hx
  simpa using (Text.after?_eq_some_iff _ _ _).1 hr

def cutScopes (path : Text) : List Scope × Text :=
  match _h : cutScope? path with
  | none => ([], path)
  | some (s, rest) =>
    let (scopes, last) := cutScopes rest
    (s :: scopes, last)
termination_by path.length
decreasing_by
  rw [eq_of_cutScope? _h, List.length_append, List.length_cons]
  omega

def slashed (reference : Text) : Text := reference.map fun c => if c = '.' then '/' else c

/-- The pieces between the dots, with slashes between them. -/
theorem slashed_eq_join (reference : Text) :
    slashed reference = Text.join ['/'] (Text.splitOn '.' reference) :=
  Text.map_ite_eq_join '.' '/' reference

structure Resolved where
  path : Text
  violation : Option Violation
  deriving DecidableEq, Repr

def resolve (scope : Scope) (reference : Text) : Resolved :=
  let (scopes, path) := cutScopes (slashed reference)
  match scopes with
  | [] => ⟨path, none⟩
  | owner :: _ => ⟨path, if scope.excludes owner then some ⟨scope, owner, reference⟩ else none⟩

def hostCall (path : Text) : Text := "require('".toList ++ path ++ "')".toList

structure ResolvedText where
  text : Text
  violations : List Violation
  deriving DecidableEq, Repr

def resolveToken (scope : Scope) : Token → Text
  | .plain c => [c]
  | .call r => hostCall (resolve scope r).path

def resolveAll (scope : Scope) (s : Text) : ResolvedText where
  text := (tokens s).flatMap (resolveToken scope)
  violations := (calls s).filterMap fun c => (resolve scope c.reference).violation

end ModBuild.Require
