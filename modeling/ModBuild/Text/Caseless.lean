import ModBuild.Text.Basic

/-!
# Letter case

Names and suffixes that are compared without regard to letter case are written here in ASCII, and
no letter outside ASCII has a lower-case form that would complete one of them. So folding the ASCII
letters decides every such comparison.
-/

set_option autoImplicit false

namespace ModBuild.Text

/-- The text with its ASCII letters in lower case. -/
def lower (s : Text) : Text := s.map Char.toLower

theorem lower_append (s t : Text) : lower (s ++ t) = lower s ++ lower t := List.map_append

theorem length_lower (s : Text) : (lower s).length = s.length := List.length_map ..

theorem eq_of_toLower {c d : Char} (hd : ¬ ('a'.toNat ≤ d.toNat ∧ d.toNat ≤ 'z'.toNat))
    (h : c.toLower = d) : c = d := by
  unfold Char.toLower at h
  split at h
  · next hupper =>
    have hnat : (c.val + ('a'.val - 'A'.val)).toNat = d.toNat := congrArg Char.toNat h
    have hlow : 'A'.val.toNat ≤ c.val.toNat := hupper.1
    have hhigh : c.val.toNat ≤ 'Z'.val.toNat := hupper.2
    have hA : 'A'.val.toNat = 65 := rfl
    have hZ : 'Z'.val.toNat = 90 := rfl
    have ha : 'a'.toNat = 97 := rfl
    have hz : 'z'.toNat = 122 := rfl
    have hstep : ('a'.val - 'A'.val).toNat = 32 := rfl
    rw [UInt32.toNat_add] at hnat
    omega
  · exact h

end ModBuild.Text
