import Mathlib
/-!
# FloatBits — double precision numbers by their bit patterns

The standard library's operations on `f64` that the code uses: casts from and to integers, the partial order, and the number a
text stands for.  The magnitude of a finite float is a multiple of the smallest one, so all of them are exact integer arithmetic
with one rounding.
-/
namespace Ferrowl

/-! ## Floats as integers -/

/-- `x as i64`: towards zero, saturating, with `0` for what is no number. -/
def f64AsI64 (x : BitVec 64) : Int :=
  let exponent := x.toNat / 2 ^ 52 % 2 ^ 11
  let fraction := x.toNat % 2 ^ 52
  if exponent = 2047 ∧ fraction ≠ 0 then 0
  else
    let mantissa := if exponent = 0 then fraction else 2 ^ 52 + fraction
    let magnitude : Nat := if 1075 ≤ exponent then mantissa * 2 ^ (exponent - 1075) else mantissa / 2 ^ (1075 - exponent)
    max (-2 ^ 63) (min (2 ^ 63 - 1) (if x.msb then -(magnitude : Int) else magnitude))

/-- `n / 2 ^ k`, to the nearest, ties to even. -/
def shiftRounded (n k : Nat) : Nat :=
  let q := n / 2 ^ k
  let r := n % 2 ^ k
  if 2 ^ k < 2 * r ∨ 2 ^ k = 2 * r ∧ q % 2 = 1 then q + 1 else q

/-- `i as f64` for an integer of 128 bits. -/
def i128AsF64 (i : Int) : BitVec 64 :=
  let n := i.natAbs
  if n = 0 then 0
  else
    let e := n.log2
    -- the mantissa has its leading bit, and a carry from rounding runs over into the exponent
    let mantissa := if e ≤ 52 then n * 2 ^ (52 - e) else shiftRounded n (e - 52)
    BitVec.ofNat 64 ((if i < 0 then 2 ^ 63 else 0) + (e + 1022) * 2 ^ 52 + mantissa)

/-- The integer a float is, `none` for a fraction, an infinity or what is no number. -/
def f64Whole? (x : BitVec 64) : Option Int :=
  let exponent := x.toNat / 2 ^ 52 % 2 ^ 11
  let fraction := x.toNat % 2 ^ 52
  if exponent = 2047 then none
  else
    let mantissa := if exponent = 0 then fraction else 2 ^ 52 + fraction
    let sign (n : Nat) : Int := if x.msb then -(n : Int) else n
    if 1075 ≤ exponent then some (sign (mantissa * 2 ^ (exponent - 1075)))
    else if mantissa % 2 ^ (1075 - exponent) = 0 then some (sign (mantissa / 2 ^ (1075 - exponent)))
    else none

/-! ## Order -/

/-- The place of a float in the order of the numbers, `none` for what is no number; both zeros have one place. -/
def f64Rank (x : BitVec 64) : Option Int :=
  let magnitude : Nat := x.toNat % 2 ^ 63
  if 2047 * 2 ^ 52 < magnitude then none
  else some (if x.msb then -(magnitude : Int) else magnitude)

def f32Rank (x : BitVec 32) : Option Int :=
  let magnitude : Nat := x.toNat % 2 ^ 31
  if 255 * 2 ^ 23 < magnitude then none
  else some (if x.msb then -(magnitude : Int) else magnitude)

def f64PartialCmp (x y : BitVec 64) : Option Ordering :=
  match f64Rank x, f64Rank y with
  | some a, some b => some (compare a b)
  | _, _ => none

/-! ## Text -/

/-- `n / d`, to the nearest, ties to even. -/
def divRounded (n d : Nat) : Nat :=
  let q := n / d
  let r := n % d
  if d < 2 * r ∨ d = 2 * r ∧ q % 2 = 1 then q + 1 else q

/-- The bits of the float nearest to `num / den`, an infinity when none is near. -/
def f64Nearest (num den : Nat) : Nat :=
  let units := num * 2 ^ 1074
  let scale := (units / den).log2 - 52
  -- the leading bit of the mantissa adds one to the exponent, as a carry from rounding does
  min (scale * 2 ^ 52 + divRounded units (den * 2 ^ scale)) (2047 * 2 ^ 52)

def decimalValue (digits : List Char) : Nat := digits.foldl (fun n c => 10 * n + (c.toNat - 48)) 0

/-- An exponent with its letter; no text is the exponent 0. -/
def f64Exponent : List Char → Option Int
  | [] => some 0
  | c :: cs =>
    if c = 'e' ∨ c = 'E' then
      let (negative, digits) := match cs with
        | '-' :: ds => (true, ds)
        | '+' :: ds => (false, ds)
        | ds => (false, ds)
      if digits.isEmpty || !digits.all Char.isDigit then none
      else some (if negative then -(decimalValue digits : Int) else decimalValue digits)
    else none

/-- The bits of an unsigned number: digits, at least one, with a point and an exponent where there are some. -/
def f64Number (s : List Char) : Option Nat :=
  let (whole, rest) := s.span Char.isDigit
  let (fraction, rest) := match rest with
    | '.' :: cs => cs.span Char.isDigit
    | cs => ([], cs)
  if whole.isEmpty && fraction.isEmpty then none
  else
    (f64Exponent rest).map (fun (exponent : Int) =>
      let mantissa := decimalValue (whole ++ fraction)
      let exponent : Int := exponent - (fraction.length : Int)
      if 0 ≤ exponent then f64Nearest (mantissa * 10 ^ exponent.toNat) 1
      else f64Nearest mantissa (10 ^ (-exponent).toNat))

def f64FromStr (s : List Char) : Option (BitVec 64) :=
  let (negative, body) := match s with
    | '-' :: cs => (true, cs)
    | '+' :: cs => (false, cs)
    | cs => (false, cs)
  let word := body.map Char.toLower
  let magnitude :=
    if word = "inf".toList ∨ word = "infinity".toList then some (2047 * 2 ^ 52)
    else if word = "nan".toList then some (2047 * 2 ^ 52 + 2 ^ 51)
    else f64Number body
  magnitude.map (fun m => BitVec.ofNat 64 ((if negative then 2 ^ 63 else 0) + m))

end Ferrowl
