import ModBuild.Text.Digit

/-!
# Shortest decimals

A measured time is a quotient of two whole numbers, kept to 53 binary digits. It is written with the
fewest decimal digits that read back as the same 53 binary digits. All of it is exact arithmetic on
natural numbers: the numbers that read back as a given one form an interval, and the grids of 1, 2,
… 17 decimal digits are tried until one has a point in it.
-/

set_option autoImplicit false

namespace ModBuild.Decimal

/-- The number `mantissa / 2 ^ scale`; a normal one has a mantissa of 53 binary digits. -/
structure Binary where
  mantissa : Nat
  scale : Nat
  deriving DecidableEq, Repr

namespace Binary

def scaleOf (num den : Nat) : Nat :=
  let s := 52 + den.log2 - num.log2
  if num <<< s < den <<< 52 then s + 1 else s

/-- The quotient rounded to the nearest whole number, a half to the even neighbour. -/
def roundHalfEven (num den : Nat) : Nat :=
  let q := num / den
  let r := num % den
  if 2 * r < den || (2 * r == den && q % 2 == 0) then q else q + 1

def nearest (num den : Nat) : Binary :=
  let s := scaleOf num den
  let m := roundHalfEven (num <<< s) den
  if m == 1 <<< 53 then ⟨1 <<< 52, s - 1⟩ else ⟨m, s⟩

/-- Whether `num / den` reads back as this number: it is nearer to it than to its neighbours, or
half-way while the mantissa is even. The neighbour below a power of two is twice as near. -/
def reads (b : Binary) (num den : Nat) : Bool :=
  let unit := 1 <<< (b.scale + 2)
  let low := (4 * b.mantissa - (if b.mantissa == 1 <<< 52 then 1 else 2)) * den
  let high := (4 * b.mantissa + 2) * den
  if b.mantissa % 2 == 0 then low ≤ num * unit && num * unit ≤ high
  else low < num * unit && num * unit < high

end Binary

structure Decimal where
  coefficient : Nat
  exponent : Int
  deriving DecidableEq, Repr

namespace Decimal

def quotient (d : Decimal) : Nat × Nat :=
  (d.coefficient * Nat.pow 10 d.exponent.toNat, Nat.pow 10 (-d.exponent).toNat)

/-- How far a decimal number is from a binary one, in units that depend on its exponent only. -/
def distance (b : Binary) (d : Decimal) : Nat :=
  let (num, den) := d.quotient
  let x := num <<< b.scale
  let y := b.mantissa * den
  if x ≤ y then y - x else x - y

/-- The multiple of `10 ^ exponent` that reads back as `b` and lies nearest to it. -/
def onGrid? (b : Binary) (exponent : Int) : Option Decimal :=
  let q := b.mantissa * Nat.pow 10 (-exponent).toNat / (Nat.pow 10 exponent.toNat <<< b.scale)
  let fits (d : Decimal) : Bool := b.reads d.quotient.1 d.quotient.2
  let below : Decimal := ⟨q, exponent⟩
  let above : Decimal := ⟨q + 1, exponent⟩
  match fits below, fits above with
  | false, false => none
  | true, false => some below
  | false, true => some above
  | true, true =>
    if distance b below < distance b above then some below
    else if distance b above < distance b below then some above
    else if q % 2 == 0 then some below else some above

/-- How many digits a positive binary number has in front of the point; for a number below one, the
zeros behind the point count down from nought. -/
def digitsBefore (b : Binary) : Int :=
  let whole := b.mantissa >>> b.scale
  if whole == 0 then
    -((List.range b.scale).findIdx fun z => 1 <<< b.scale ≤ b.mantissa * Nat.pow 10 (z + 1) : Nat)
  else (Text.ofNat whole).length

def shortest (b : Binary) : Decimal :=
  let top := digitsBefore b
  ((List.range 17).findSome? fun (k : Nat) => onGrid? b (top - 1 - (k : Nat))).getD ⟨0, 0⟩

end Decimal

def positional (digits : Text) (point : Int) : Text :=
  if point ≤ 0 then "0.".toList ++ List.replicate (-point).toNat '0' ++ digits
  else if digits.length ≤ point.toNat then
    digits ++ List.replicate (point.toNat - digits.length) '0' ++ ".0".toList
  else digits.take point.toNat ++ '.' :: digits.drop point.toNat

def scientific (digits : Text) (power : Int) : Text :=
  let fraction := if digits.length ≤ 1 then [] else '.' :: digits.drop 1
  let sign := if power < 0 then '-' else '+'
  let places := Text.ofNat power.natAbs
  digits.take 1 ++ fraction ++ 'e' :: sign :: List.replicate (2 - places.length) '0' ++ places

/-- A decimal number is written positionally from a ten-thousandth up to below `10 ^ 16`. -/
def render (d : Decimal) : Text :=
  let digits := ((Text.ofNat d.coefficient).reverse.dropWhile (· == '0')).reverse
  let point := (Text.ofNat d.coefficient).length + d.exponent
  if -4 < point && point ≤ 16 then positional digits point else scientific digits (point - 1)

def ofQuotient (num : Int) (den : Nat) : Text :=
  if num = 0 then "0.0".toList
  else
    let body := render (Decimal.shortest (Binary.nearest num.natAbs den))
    if num < 0 then '-' :: body else body

end ModBuild.Decimal
