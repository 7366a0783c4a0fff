set_option autoImplicit false

/-! # Doubles as integers times powers of two

A finite double is `m * 2 ^ q` for a significand `m` below `2 ^ 53` and a binary exponent `q`. Exact
questions about a double, such as its remainder by another or its shortest decimal form, are
questions about these two integers. -/

namespace LevelCheck.Double

/-- The sign, significand and binary exponent of a double. -/
structure Parts where
  negative : Bool
  significand : Nat
  exponent : Int
  /-- The significand is the least one of its binary exponent, so that the double below is only
  half as far away as the one above. -/
  atPower : Bool
  deriving Repr

/-- The parts of a finite double, read off its bits. -/
def parts (x : Float) : Parts :=
  let bits := x.toBits.toNat
  let negative := decide (bits >>> 63 = 1)
  let biased : Nat := (bits >>> 52) % 2048
  let fraction : Nat := bits % (1 <<< 52)
  if biased = 0 then { negative, significand := fraction, exponent := -1074, atPower := false }
  else
    { negative
      significand := (1 <<< 52) + fraction
      exponent := (biased : Int) - 1075
      atPower := decide (fraction = 0 ∧ 1 < biased) }

/-- The value `m * 2 ^ q`, negated if asked. -/
def ofParts (negative : Bool) (m : Nat) (q : Int) : Float :=
  let x := (Float.ofNat m).scaleB q
  if negative then -x else x

/-- The remainder of the division that rounds its quotient toward zero: it is exact and has the
sign of `x`. There is none for an infinite `x` or a zero `y`. -/
def remainder (x y : Float) : Float :=
  if x.isNaN || y.isNaN || x.isInf || y == 0.0 then 0.0 / 0.0
  else if y.isInf then x
  else
    let a := parts x
    let b := parts y
    let q := min a.exponent b.exponent
    let m := a.significand <<< (a.exponent - q).toNat
    let n := b.significand <<< (b.exponent - q).toNat
    ofParts a.negative (m % n) q

end LevelCheck.Double
