import FieldMap.Text.Basic

/-!
The shortest decimal of a binary floating point number: the fewest digits that read back as the
number, of those the nearest, and of two that are equally near the even one. The search is exact
arithmetic on the number's mantissa and exponent.
-/

namespace FieldMap.Decimal

/-- The positive number `mantissa * 2 ^ exponent`. `narrow` says that the gap to the number below is
half the gap to the number above. -/
structure Binary where
  mantissa : Nat
  exponent : Int
  narrow : Bool

/-- The decimal number `value * 10 ^ exponent`. -/
structure Digits where
  value : Nat
  exponent : Int

def Binary.ofBits (bits : Nat) : Binary :=
  let fraction : Nat := bits % 0x10000000000000
  let scale : Nat := bits / 0x10000000000000 % 0x800
  if scale = 0 then ⟨fraction, -1074, false⟩
  else ⟨0x10000000000000 + fraction, (scale : Int) - 1075, fraction = 0 && 1 < scale⟩

/-- `a * base ^ e` against `b`, as a pair of natural numbers with the same ratio. -/
def scaled (a base : Nat) (e : Int) (b : Nat) : Nat × Nat :=
  match e with
  | .ofNat n => (a * Nat.pow base n, b)
  | .negSucc n => (a, b * Nat.pow base (n + 1))

/-- The number in quarters of its last place, as numerator and denominator. -/
def Binary.ratio (x : Binary) (quarters : Nat) : Nat × Nat :=
  scaled quarters 2 (x.exponent - 2) 1

/-- Whether `d * 10 ^ e` reads back as `x`: it lies between the halfway points to the neighbours,
which count if the mantissa is even. -/
def Binary.readsBack (x : Binary) (d : Nat) (e : Int) : Bool :=
  let (num, den) := scaled d 10 e 1
  let (low, lowDen) := x.ratio (4 * x.mantissa - if x.narrow then 1 else 2)
  let (high, highDen) := x.ratio (4 * x.mantissa + 2)
  if x.mantissa % 2 = 0 then low * den ≤ num * lowDen && num * highDen ≤ high * den
  else low * den < num * lowDen && num * highDen < high * den

/-- The decimals next to `x` on the grid of `10 ^ e`: the whole part, the part left and the
denominator. -/
def Binary.onGrid (x : Binary) (e : Int) : Nat × Nat × Nat :=
  let (num, den) := x.ratio (4 * x.mantissa)
  let (n, d) := scaled num 10 (-e) den
  (n / d, n % d, d)

/-- Whether the step above is the one to round to when `part / den` of a step is left: more than
half of it is, or just half and the step below is odd. -/
def roundsUp (whole part den : Nat) : Bool :=
  den < 2 * part || (2 * part = den && whole % 2 = 1)

/-- The nearest decimal on the grid of `10 ^ e` that reads back; of two equally near the even one. -/
def Binary.nearest? (x : Binary) (e : Int) : Option Digits :=
  let (whole, part, den) := x.onGrid e
  let below := whole ≠ 0 && x.readsBack whole e
  let above := x.readsBack (whole + 1) e
  if above && (!below || roundsUp whole part den) then some ⟨whole + 1, e⟩
  else if below then some ⟨whole, e⟩
  else none

/-- Tries finer and finer grids; `fuel` bounds their number. -/
def Binary.search (x : Binary) : (fuel : Nat) → (e : Int) → Digits
  | 0, e => ⟨(x.onGrid e).1, e⟩
  | fuel + 1, e =>
    match x.nearest? e with
    | some d => d
    | none => x.search fuel (e - 1)

/-- The shortest decimal. No double is as large as `10 ^ 310`, and a grid of `10 ^ -400` holds a
decimal that reads back for every double, so the search ends before its bound. -/
def Binary.shortest (x : Binary) : Digits :=
  if x.mantissa = 0 then ⟨0, 0⟩ else x.search 710 310

def Digits.positional (d : Digits) : Text :=
  let digits := Text.ofNat d.value
  match d.exponent with
  | .ofNat n => digits ++ List.replicate n '0' ++ ".0"
  | .negSucc n =>
    let padded := List.replicate (n + 2 - digits.length) '0' ++ digits
    let places := padded.length - (n + 1)
    padded.take places ++ "." ++ padded.drop places

def Digits.magnitude (d : Digits) : Int :=
  d.exponent + (Text.ofNat d.value).length - 1

def Digits.scientific (d : Digits) : Text :=
  let digits := Text.ofNat d.value
  let power :=
    match d.magnitude with
    | .ofNat n => "e+" ++ Text.ofNat n
    | .negSucc n => "e-" ++ Text.ofNat (n + 1)
  match digits with
  | first :: second :: rest => first :: '.' :: second :: rest ++ power
  | _ => digits ++ power

def ofFloat (x : Float) : Bool × Digits :=
  let bits := x.toBits.toNat
  (bits / 0x8000000000000000 ≠ 0, (Binary.ofBits (bits % 0x8000000000000000)).shortest)

end FieldMap.Decimal
