import ModBuild.Proofs.Scope
import ModBuild.Require.Reference

/-!
# What a reference resolves to

Resolving takes every scope in front of a reference, and there is one way only
to do that. The path is what is left behind the last of them, whoever asks for
it, and the first of them is the one that may be out of reach. A resolved path
has nothing left to be taken, so resolving it again gives it back.
-/

set_option autoImplicit false

namespace ModBuild

open Scope (Begins directories segments)

theorem Scope.excludes_iff (a b : Scope) :
    a.excludes b = true ↔ a = client ∧ b = server ∨ a = server ∧ b = client := by
  cases a <;> cases b <;> decide

namespace Require

theorem dot_not_mem_slashed (reference : Text) : '.' ∉ slashed reference :=
  Text.not_mem_map_ite (by decide) reference

theorem slashed_eq_self {path : Text} (h : '.' ∉ path) : slashed path = path :=
  Text.map_ite_eq_self '/' h

theorem begins_of_cutScope? {path rest : Text} {s : Scope} (h : cutScope? path = some (s, rest)) :
    s ∈ directories ∧ path = s.segment ++ rest := by
  obtain ⟨a, ha, hcut⟩ := List.exists_of_findSome?_eq_some h
  obtain ⟨r, -, hr⟩ := Option.map_eq_some_iff.mp hcut
  obtain ⟨rfl, rfl⟩ := Prod.mk.inj hr
  refine ⟨ha, ?_⟩
  rw [eq_of_cutScope? h, Scope.segment, List.append_assoc, List.singleton_append]

theorem cutScope?_eq_none_iff (path : Text) : cutScope? path = none ↔ ¬ Begins path := by
  rw [cutScope?, List.findSome?_eq_none_iff, Begins, not_exists]
  simp only [Option.map_eq_none_iff, not_and]
  refine forall₂_congr fun s _ => ?_
  rw [Scope.segment, ← Text.startsWith_iff, Text.startsWith, Option.not_isSome_iff_eq_none]

theorem cutScopes_of_none {path : Text} (h : cutScope? path = none) :
    cutScopes path = ([], path) := by
  fun_cases cutScopes path with
  | case1 => rfl
  | case2 s rest hsome => exact nomatch h.symm.trans hsome

theorem cutScopes_parts (path : Text) :
    (∀ s ∈ (cutScopes path).1, s ∈ directories) ∧
      path = segments (cutScopes path).1 ++ (cutScopes path).2 ∧
      ¬ Begins (cutScopes path).2 := by
  fun_induction cutScopes path with
  | case1 path hnone => exact ⟨by simp, rfl, (cutScope?_eq_none_iff path).mp hnone⟩
  | case2 path s rest hsome scopes last hcut ih =>
    rw [hcut] at ih
    obtain ⟨hs, hpath⟩ := begins_of_cutScope? hsome
    obtain ⟨hscopes, hrest, hlast⟩ := ih
    refine ⟨List.forall_mem_cons.mpr ⟨hs, hscopes⟩, ?_, hlast⟩
    rw [Scope.segments_cons, List.append_assoc, ← hrest]
    exact hpath

def trespass (scope : Scope) (reference : Text) : List Scope → Option Violation
  | [] => none
  | owner :: _ => if scope.excludes owner then some ⟨scope, owner, reference⟩ else none

theorem resolve_eq (scope : Scope) (reference : Text) : resolve scope reference =
    ⟨(cutScopes (slashed reference)).2,
      trespass scope reference (cutScopes (slashed reference)).1⟩ := by
  simp only [resolve]
  split
  · next h => rw [h, trespass]
  · next h => rw [h, trespass]

theorem trespass_eq_some_iff (scope : Scope) (reference : Text) (scopes : List Scope)
    (v : Violation) : trespass scope reference scopes = some v ↔
      ∃ owner rest, scopes = owner :: rest ∧
        (scope = .client ∧ owner = .server ∨ scope = .server ∧ owner = .client) ∧
        v = ⟨scope, owner, reference⟩ := by
  cases scopes with
  | nil => exact ⟨nofun, fun ⟨_, _, h, _⟩ => nomatch h⟩
  | cons owner rest =>
    rw [trespass, Option.ite_none_right_eq_some, Scope.excludes_iff, Option.some.injEq]
    constructor
    · rintro ⟨hpair, rfl⟩
      exact ⟨owner, rest, rfl, hpair, rfl⟩
    · rintro ⟨owner, rest, hscopes, hpair, rfl⟩
      obtain ⟨rfl, rfl⟩ := List.cons.inj hscopes
      exact ⟨hpair, rfl⟩

theorem resolve_resolved {path : Text} (hdot : '.' ∉ path) (hbegins : ¬ Begins path)
    (scope : Scope) : resolve scope path = ⟨path, none⟩ := by
  rw [resolve_eq, slashed_eq_self hdot,
    cutScopes_of_none ((cutScope?_eq_none_iff path).mpr hbegins)]
  rfl

/-- A reference, its dots read as slashes, is scopes and then a path without
dots that begins with no scope. No other scopes and path make it up, and no
scopes in front of it are more. Whichever scope it is resolved in gives the
path; the first of the scopes is reported if it and that scope are the client's
and the server's. The path is its own resolution everywhere. -/
theorem resolve_strips_scopes (reference : Text) : ∃ (scopes : List Scope) (path : Text),
    (∀ s ∈ scopes, s ∈ directories) ∧
    slashed reference = segments scopes ++ path ∧
    '.' ∉ path ∧ ¬ Begins path ∧
    (∀ (scopes' : List Scope) (path' : Text), (∀ s ∈ scopes', s ∈ directories) →
      slashed reference = segments scopes' ++ path' →
        scopes' <+: scopes ∧ (¬ Begins path' → scopes' = scopes ∧ path' = path)) ∧
    ∀ scope : Scope,
      (resolve scope reference).path = path ∧
      (∀ v, (resolve scope reference).violation = some v ↔
        ∃ owner rest, scopes = owner :: rest ∧
          (scope = .client ∧ owner = .server ∨ scope = .server ∧ owner = .client) ∧
          v = ⟨scope, owner, reference⟩) ∧
      ∀ other : Scope, resolve other (resolve scope reference).path = ⟨path, none⟩ := by
  obtain ⟨hscopes, hparts, hpath⟩ := cutScopes_parts (slashed reference)
  have hdot : '.' ∉ (cutScopes (slashed reference)).2 := by
    intro h
    apply dot_not_mem_slashed reference
    rw [hparts]
    exact List.mem_append_right _ h
  refine ⟨_, _, hscopes, hparts, hdot, hpath, ?_, fun scope => ?_⟩
  · intro scopes' path' hd h
    constructor
    · apply Scope.segments_maximal hpath hd
      rw [← hparts]
      exact ⟨path', h.symm⟩
    · intro hpath'
      exact Scope.segments_unique hd hscopes hpath' hpath (h.symm.trans hparts)
  · rw [resolve_eq]
    exact ⟨rfl, trespass_eq_some_iff scope reference _, resolve_resolved hdot hpath⟩

end Require

end ModBuild
