import ModBuild.Deferral
import ModBuild.Proofs.Text.Cutting
import Mathlib.Data.List.Pairwise

/-!
# The lines that are deferred

A line is deferred if it declares a local that is no function, has something
in front of its first equals sign and mentions the namespace. Every deferred
line of a module gives one binding, in the order of the lines.
-/

set_option autoImplicit false

namespace ModBuild.Binding

/-- A line that declares a local from the namespace, cut at its first equals sign. -/
structure Defers (space line left right : Text) : Prop where
  line_eq : line = "local ".toList ++ left ++ '=' :: right
  first : '=' ∉ left
  mentions : space <:+: line
  plain : ¬ "function ".toList <+: left ++ '=' :: right
  named : Text.blank left = false

theorem ofLine?_eq_some_iff (space line name value : Text) :
    ofLine? space line = some (name, value) ↔
      ∃ left right, Defers space line left right ∧ name = Text.trim left ∧
        value = Text.trim right := by
  constructor
  · intro h
    rw [ofLine?] at h
    split at h
    · cases h
    · next declaration hlocal =>
      have hline := (Text.after?_eq_some_iff _ _ _).1 hlocal
      split at h
      · cases h
      · next hspace =>
        rw [Bool.not_eq_true, Bool.or_eq_false_iff, Bool.not_eq_false'] at hspace
        split at h
        · cases h
        · next left right hcut =>
          obtain ⟨hparts, hfirst⟩ := (Text.cutAt?_eq_some_iff _ _ _ _).1 hcut
          split at h
          · cases h
          · next hnamed =>
            obtain ⟨rfl, rfl⟩ := Prod.mk.inj (Option.some.inj h)
            refine ⟨left, right, ?_, rfl, rfl⟩
            exact {
              line_eq := by rw [hline, hparts, List.append_assoc]
              first := hfirst
              mentions := (Text.occurs_iff _ _).1 hspace.1
              plain := by
                rw [← hparts, ← Text.startsWith_iff, hspace.2]
                exact Bool.false_ne_true
              named := Bool.not_eq_true _ ▸ hnamed }
  · rintro ⟨left, right, h, rfl, rfl⟩
    have hlocal : Text.after? "local ".toList line = some (left ++ '=' :: right) := by
      rw [Text.after?_eq_some_iff, h.line_eq, List.append_assoc]
    have hcut : Text.cutAt? '=' (left ++ '=' :: right) = some (left, right) :=
      (Text.cutAt?_eq_some_iff _ _ _ _).2 ⟨rfl, h.first⟩
    have hspace : Text.occurs space line = true := (Text.occurs_iff _ _).2 h.mentions
    have hfunction : Text.startsWith "function ".toList (left ++ '=' :: right) = false := by
      rw [← Bool.not_eq_true, Text.startsWith_iff]
      exact h.plain
    rw [ofLine?, hlocal]
    simp only [hspace, hfunction, hcut, h.named, Bool.not_true, Bool.or_self, Bool.false_eq_true,
      if_false]

theorem mem_collect_iff (space s : Text) (b : Binding) :
    b ∈ collect space s ↔ ∃ line left right, 0 < b.line ∧
      (Text.splitOn '\n' s)[b.line-1]? = some line ∧ Defers space line left right ∧
      b.name = Text.trim left ∧ b.initializer = Text.trim right := by
  obtain ⟨name, value, n⟩ := b
  simp only [collect, List.mem_filterMap, Option.map_eq_some_iff, Prod.exists,
    ofLine?_eq_some_iff, List.mk_mem_zipIdx_iff_le_and_getElem?_sub, mk.injEq]
  constructor
  · rintro ⟨line, n', ⟨hpos, hline⟩, name', value', ⟨left, right, hdefers, hname, hvalue⟩,
      rfl, rfl, rfl⟩
    exact ⟨line, left, right, hpos, hline, hdefers, hname, hvalue⟩
  · rintro ⟨line, left, right, hpos, hline, hdefers, hname, hvalue⟩
    exact ⟨line, n, ⟨hpos, hline⟩, name, value, ⟨left, right, hdefers, hname, hvalue⟩,
      rfl, rfl, rfl⟩

theorem collect_ordered (space s : Text) :
    (collect space s).Pairwise fun a b => a.line < b.line := by
  rw [collect, List.pairwise_filterMap]
  have hnumbers : ((Text.splitOn '\n' s).zipIdx 1).Pairwise fun x y => x.2 < y.2 := by
    rw [← List.pairwise_map (f := Prod.snd) (R := (· < ·)), List.zipIdx_map_snd]
    exact List.pairwise_lt_range'
  refine hnumbers.imp ?_
  rintro ⟨line, n⟩ ⟨line', n'⟩ hlt a ha b hb
  obtain ⟨-, -, rfl⟩ := Option.map_eq_some_iff.1 ha
  obtain ⟨-, -, rfl⟩ := Option.map_eq_some_iff.1 hb
  exact hlt

end ModBuild.Binding
