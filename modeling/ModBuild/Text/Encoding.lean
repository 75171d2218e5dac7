import ModBuild.Text.Basic

/-!
# Encoding

Files hold bytes, and text is written to them in UTF-8. Every text can be written; only bytes that
are well-formed can be read.
-/

set_option autoImplicit false

namespace ModBuild.Text

def encode (s : Text) : ByteArray := (String.ofList s).toByteArray

def decode? (bytes : ByteArray) : Option Text := (String.fromUTF8? bytes).map String.toList

theorem decode?_encode (s : Text) : decode? (encode s) = some s := by
  have h : ((String.ofList s).toByteArray).IsValidUTF8 := (String.ofList s).isValidUTF8
  rw [decode?, encode, String.fromUTF8?, dif_pos h, Option.map_some]
  exact congrArg some String.toList_ofList

theorem encode_of_decode? {bytes : ByteArray} {s : Text} (h : decode? bytes = some s) :
    encode s = bytes := by
  rw [decode?, String.fromUTF8?] at h
  split at h
  · simp only [Option.map_some, Option.some.injEq] at h
    rw [encode, ← h, String.ofList_toList]
    rfl
  · simp at h

end ModBuild.Text
