import LevelCheck.Double
import LevelCheck.Json.Print
set_option autoImplicit false

/-! # Shortest decimal forms of doubles

The shortest form of a double is the row of fewest digits that reads back as that double, and among
those the nearest. A row of `n` digits is a point of the decimal grid `10 ^ e`; if any point of that
grid reads back, so does one of the two neighbours of the double on it, so only these two are tried,
for one digit, two digits, up to seventeen. All comparisons are between natural numbers.

Two layouts print such a row: a positional one that never uses an exponent, and the one of JSON
numbers, which does beyond sixteen digits before the point or four zeros after it. -/

namespace LevelCheck.Decimal

/-- Where a half between two equally short forms goes. -/
inductive Tie where
  | up
  | even
  deriving DecidableEq, Repr

/-- The number `0.d₁d₂… * 10 ^ point`. -/
structure Row where
  digits : List Nat
  point : Int
  deriving Repr

/-! ## The digits -/

/-- A positive rational number `num / den`. -/
structure Ratio where
  num : Nat
  den : Nat

/-- The number times a power of ten. -/
def Ratio.shift (r : Ratio) (e : Int) : Ratio :=
  { num := r.num * Nat.pow 10 e.toNat, den := r.den * Nat.pow 10 (-e).toNat }

/-- The position of the leading digit: the `k` with `10 ^ (k - 1) ≤ r < 10 ^ k`. -/
def Ratio.leading (r : Ratio) : Int :=
  let k : Int := (JsonNumber.digitsOf r.num).length - (JsonNumber.digitsOf r.den).length
  let s := r.shift (-k)
  if s.den ≤ s.num then k + 1 else k

/-- The interval of the numbers that read back as a double, as multiples of one unit: the double
itself, the two ends, and whether the ends belong to it. -/
structure Neighbourhood where
  unit : Ratio
  value : Nat
  low : Nat
  high : Nat
  closed : Bool

/-- The interval around `m * 2 ^ q` in quarters of `2 ^ q`. It reaches half way to the doubles below
and above, and holds its ends if the significand is even. -/
def neighbourhood (p : Double.Parts) : Neighbourhood :=
  let q := p.exponent - 2
  { unit := { num := 1 <<< q.toNat, den := 1 <<< (-q).toNat }
    value := 4 * p.significand
    low := 4 * p.significand - (if p.atPower then 1 else 2)
    high := 4 * p.significand + 2
    closed := p.significand % 2 == 0 }

/-- The neighbour of the double on the grid `10 ^ e` that reads back, if one does: the nearer of two,
and of two equally near ones the one that `tie` names. -/
def onGrid? (tie : Tie) (h : Neighbourhood) (e : Int) : Option Nat :=
  let unit := h.unit.shift (-e)
  let value := h.value * unit.num
  let below := value / unit.den
  let holds (d : Nat) : Bool :=
    if h.closed then h.low * unit.num ≤ d * unit.den && d * unit.den ≤ h.high * unit.num
    else h.low * unit.num < d * unit.den && d * unit.den < h.high * unit.num
  match holds below, holds (below + 1) with
  | false, false => none
  | true, false => some below
  | false, true => some (below + 1)
  | true, true =>
    let toBelow := value - below * unit.den
    let toAbove := (below + 1) * unit.den - value
    if toBelow < toAbove then some below
    else if toAbove < toBelow then some (below + 1)
    else
      match tie with
      | .up => some (below + 1)
      | .even => some (if below % 2 = 0 then below else below + 1)

/-- Drop zeros at the end. -/
def dropZeros (digits : List Nat) : List Nat := (digits.reverse.dropWhile (· == 0)).reverse

/-- The shortest row of a positive finite double. -/
def shortest (tie : Tie) (p : Double.Parts) : Row :=
  let h := neighbourhood p
  let leading := Ratio.leading { num := h.value * h.unit.num, den := h.unit.den }
  let found := (List.range' 1 17).findSome? fun (n : Nat) =>
    (onGrid? tie h (leading - n)).map fun d => (leading - (n : Int), JsonNumber.digitsOf d)
  match found with
  | some (e, digits) => { digits := dropZeros digits, point := e + digits.length }
  | none => { digits := [0], point := 1 }

/-! ## Layouts -/

/-- The digits before and after the decimal point of a positional form; the first row is not empty. -/
def Row.positional (r : Row) : List Nat × List Nat :=
  let n : Int := r.digits.length
  if r.point ≤ 0 then ([0], List.replicate (-r.point).toNat 0 ++ r.digits)
  else if n ≤ r.point then (r.digits ++ List.replicate (r.point - n).toNat 0, [])
  else (r.digits.take r.point.toNat, r.digits.drop r.point.toNat)

/-- The positional form of a double: its shortest digits without an exponent, and no point for an
integral one. -/
def positionalText (x : Float) : String :=
  if x.isNaN then "NaN"
  else
    let p := Double.parts x
    let sign := if p.negative then ['-'] else []
    if x.isInf then String.ofList (sign ++ "inf".toList)
    else if p.significand = 0 then String.ofList (sign ++ ['0'])
    else
      let (whole, fraction) := (shortest .up p).positional
      String.ofList (sign ++ Json.digitsText whole ++
        (if fraction.isEmpty then [] else '.' :: Json.digitsText fraction))

/-- A finite double as a JSON number: always with a point or an exponent, and positional from
`0.00001` up to sixteen digits before the point. -/
def jsonNumber (x : Float) : JsonNumber :=
  let p := Double.parts x
  if p.significand = 0 then
    { negative := p.negative, whole := [0], fraction := [0], exponent := none }
  else
    let r := shortest .even p
    if -5 < r.point ∧ r.point ≤ 16 then
      let (whole, fraction) := r.positional
      { negative := p.negative, whole
        fraction := if fraction.isEmpty then [0] else fraction, exponent := none }
    else
      { negative := p.negative, whole := r.digits.take 1, fraction := r.digits.drop 1
        exponent := some (r.point - 1) }

/-! ## Reading -/

/-- The double nearest to a positional number. -/
def ofPositional (whole fraction : List Nat) : Float :=
  Float.ofScientific (JsonNumber.ofDigits (whole ++ fraction)) true fraction.length

/-- The greatest significand that fits in 64 bits. -/
def wordLimit : Nat := UInt64.size - 1

/-- Append digits to a word as long as the result fits: the word, and how many digits were left. -/
def appendWhole (word : Nat) : List Nat → Nat × Nat
  | [] => (word, 0)
  | d :: rest =>
    if 10 * word + d ≤ wordLimit then appendWhole (10 * word + d) rest
    else (word, rest.length + 1)

/-- Scale a double by a power of ten, by one multiplication or by divisions of at most `10 ^ 308`.
There is no result beyond the greatest double. -/
def scale? (x : Float) (e : Int) : Nat → Option Float
  | 0 => some x
  | steps + 1 =>
    if e = 0 then some x
    else if e.natAbs ≤ 308 then
      let power := Float.ofScientific 1 false e.natAbs
      if 0 ≤ e then
        let y := x * power
        if y.isInf then none else some y
      else some (x / power)
    else if x == 0.0 then some x
    else if 0 ≤ e then none
    else scale? (x / 1e308) (e + 308) steps

/-- The double that a JSON number is read as: its leading digits as a 64-bit word, converted to a
double and scaled by a power of ten. There is none when the magnitude is too great. -/
def ofJsonNumber? (n : JsonNumber) : Option Float :=
  let (word, dropped) := appendWhole 0 n.whole
  let (word, rest) := appendWhole word n.fraction
  let shift : Int := (dropped : Int) - ((n.fraction.length - rest : Nat) : Int)
  let signed (x : Float) : Float := if n.negative then -x else x
  let limit : Int := 2147483647
  match n.exponent with
  | some e =>
    if limit < e ∨ e < -limit then
      if word ≠ 0 ∧ 0 < e then none else some (signed 0.0)
    else
      let total := max (-limit - 1) (min limit (shift + e))
      (scale? word.toUInt64.toFloat total 8).map signed
  | none => (scale? word.toUInt64.toFloat shift 8).map signed

end LevelCheck.Decimal
