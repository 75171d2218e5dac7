import ModBuild.Text.Printable

/-!
# Quoted text

How a message shows a text that it complains about: between quotes, with everything that could be
misread escaped. Apostrophes are the quotes unless only they occur in the text.
-/

set_option autoImplicit false

namespace ModBuild.Text

def hex (width n : Nat) : Text :=
  let ds := Nat.toDigits 16 n
  List.replicate (width - ds.length) '0' ++ ds

def escape (quote c : Char) : Text :=
  if c = quote || c = '\\' then ['\\', c]
  else if c = '\t' then "\\t".toList
  else if c = '\n' then "\\n".toList
  else if c = '\r' then "\\r".toList
  else if isPrintable c then [c]
  else if c.toNat < 0x100 then "\\x".toList ++ hex 2 c.toNat
  else if c.toNat < 0x10000 then "\\u".toList ++ hex 4 c.toNat
  else "\\U".toList ++ hex 8 c.toNat

def quoteFor (s : Text) : Char := if '\'' ∈ s ∧ '"' ∉ s then '"' else '\''

def quoted (s : Text) : Text :=
  let q := quoteFor s
  q :: s.flatMap (escape q) ++ [q]

end ModBuild.Text
