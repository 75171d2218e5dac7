import ModBuild.Proofs.Text.Lines
import ModBuild.Scope

/-!
# Scopes in front of a path

A scope stands in front of a path with a slash behind it. No scope has a slash
in its name, so a text begins with one scope at most, and what stands in front
of it, scope by scope, can be taken away in one way only.
-/

set_option autoImplicit false

namespace ModBuild.Scope

def segment (s : Scope) : Text := s.text ++ ['/']

def segments (scopes : List Scope) : Text := scopes.flatMap segment

def Begins (t : Text) : Prop := ∃ s ∈ directories, segment s <+: t

theorem segments_cons (s : Scope) (scopes : List Scope) :
    segments (s :: scopes) = segment s ++ segments scopes := List.flatMap_cons

theorem text_injective {a b : Scope} (h : a.text = b.text) : a = b := by
  have ha := ofText?_text a
  rwa [h, ofText?_text, Option.some.injEq, eq_comm] at ha

theorem slash_not_mem_text (s : Scope) : '/' ∉ s.text := by cases s <;> decide

theorem segment_unique {a b : Scope} {t : Text} (ha : segment a <+: t) (hb : segment b <+: t) :
    a = b := by
  obtain ⟨x, hx⟩ := ha
  obtain ⟨y, hy⟩ := hb
  rw [← hy, segment, segment, List.append_assoc, List.append_assoc, List.singleton_append,
    List.singleton_append] at hx
  exact text_injective
    ((Text.append_cons_inj (slash_not_mem_text a) (slash_not_mem_text b)).mp hx).1

theorem segments_maximal {scopes scopes' : List Scope} {rest : Text} (hrest : ¬ Begins rest)
    (hd : ∀ s ∈ scopes', s ∈ directories) (h : segments scopes' <+: segments scopes ++ rest) :
    scopes' <+: scopes := by
  induction scopes' generalizing scopes with
  | nil => exact List.nil_prefix
  | cons s scopes' ih =>
    have hs : segment s <+: segments scopes ++ rest :=
      (List.prefix_append _ _).trans (segments_cons s scopes' ▸ h)
    cases scopes with
    | nil => exact absurd ⟨s, hd s List.mem_cons_self, hs⟩ hrest
    | cons a scopes =>
      rw [segments_cons a, List.append_assoc] at hs h
      obtain rfl := segment_unique hs (List.prefix_append _ _)
      rw [segments_cons, List.prefix_append_right_inj] at h
      exact List.cons_prefix_cons.mpr ⟨rfl, ih (fun x hx => hd x (List.mem_cons_of_mem _ hx)) h⟩

theorem segments_unique {scopes scopes' : List Scope} {rest rest' : Text}
    (hd : ∀ s ∈ scopes, s ∈ directories) (hd' : ∀ s ∈ scopes', s ∈ directories)
    (hrest : ¬ Begins rest) (hrest' : ¬ Begins rest')
    (h : segments scopes ++ rest = segments scopes' ++ rest') :
    scopes = scopes' ∧ rest = rest' := by
  have hle : scopes <+: scopes' := segments_maximal hrest' hd ⟨rest, h⟩
  have hge : scopes' <+: scopes := segments_maximal hrest hd' ⟨rest', h.symm⟩
  obtain rfl := hle.eq_of_length_le hge.length_le
  exact ⟨rfl, List.append_cancel_left h⟩

end ModBuild.Scope
