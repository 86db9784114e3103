import FeltWire.Binary64.Shortest

/-!
# Doubles as text

How the digits of a double are laid out: in positional notation, or as one digit
before the point and a power of ten.

## Main definitions

* `Layout`: the choices of a format
* `Layout.plain`: positional throughout, for messages
* `Layout.document`: positional for moderate exponents only and always with a
  point, for JSON
* `Binary64.text`: a number in a layout
-/

namespace FeltWire

/-- The choices that a format makes about the text of doubles: `plain` for
messages and `document` for JSON. -/
structure Layout where
  /-- Which of two equally near shortest decimals is written. -/
  tie : TieRule
  /-- The decimal exponents from the first up to, not including, the second are
  written in positional notation, and all are if there are no bounds. -/
  positional : Option (Int × Int)
  /-- Whether a whole number in positional notation gets `.0`. -/
  keepsPoint : Bool

/-- Messages write every number in positional notation and a whole one without a
point; of two nearest decimals they take the greater (`TieRule.up`). -/
def Layout.plain : Layout := ⟨.up, none, false⟩

/-- Documents write decimal exponents from -5 to 15 in positional notation,
always with a point; of two nearest decimals they take the even one
(`TieRule.toEven`). -/
def Layout.document : Layout := ⟨.toEven, some (-5, 16), true⟩

namespace Decimal

/-- The digits of the `coefficient`. -/
def digits (d : Decimal) : List Char := Nat.toDigits 10 d.coefficient

/-- The exponent of the scientific form, which has one of the `digits` before
the point. -/
def leadingExponent (d : Decimal) : Int := d.digits.length + d.exponent - 1

/-- All places of the decimal `d`, written out; `keepsPoint` adds `.0` to a
whole number. -/
def positional (d : Decimal) (keepsPoint : Bool) : List Char :=
  let whole := d.digits.length + d.exponent
  if 0 ≤ d.exponent then
    d.digits ++ List.replicate d.exponent.toNat '0' ++ (if keepsPoint then ['.', '0'] else [])
  else if 0 < whole then
    d.digits.take whole.toNat ++ '.' :: d.digits.drop whole.toNat
  else
    '0' :: '.' :: List.replicate (-whole).toNat '0' ++ d.digits

/-- One digit before the point, a point only if digits follow, and a signed
power of ten. -/
def scientific (d : Decimal) : List Char :=
  let e := d.leadingExponent
  let rest := d.digits.drop 1
  d.digits.take 1 ++ (if rest.isEmpty then [] else '.' :: rest) ++
    'e' :: (if 0 ≤ e then '+' else '-') :: Nat.toDigits 10 e.natAbs

/-- The text of a decimal, `positional` or `scientific` as the bounds of the
layout have it. -/
def text (d : Decimal) (layout : Layout) : List Char :=
  match layout.positional with
  | none => d.positional layout.keepsPoint
  | some (low, high) =>
    if low ≤ d.leadingExponent ∧ d.leadingExponent < high then d.positional layout.keepsPoint
    else d.scientific

end Decimal

/-- The text of the double `x` in a layout: the sign and the text of its
`shortest` decimal. -/
def Binary64.text (x : Binary64) (layout : Layout) : String :=
  if x.isNaN then "NaN"
  else
    let sign := if x.isNegative then ['-'] else []
    let body := if x.isFinite then (x.shortest layout.tie).text layout else ['i', 'n', 'f']
    String.ofList (sign ++ body)

end FeltWire
