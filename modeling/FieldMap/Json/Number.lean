import FieldMap.Decimal.Shortest
import FieldMap.Json.Basic

/-!
JSON numbers. An integer of 64 bits, signed or not, is read exactly. Every other number is read as
a double: its leading digits, as many as fit 64 bits, times or over a power of ten. A negative zero
is a double as well.
-/

namespace FieldMap.Json

structure Literal where
  negative : Bool
  whole : List Nat
  /-- Digits after the point, if there is one. -/
  fraction : Option (List Nat)
  /-- The exponent, if there is one. -/
  power : Option Int

def digit? (c : Char) : Option Nat :=
  if c.isDigit then some (c.toNat - '0'.toNat) else none

def digits : Text → List Nat × Text
  | [] => ([], [])
  | c :: cs =>
    match digit? c with
    | some d => let (ds, rest) := digits cs; (d :: ds, rest)
    | none => ([], c :: cs)

def ofDigits (ds : List Nat) : Nat :=
  ds.foldl (fun n d => 10 * n + d) 0

/-- The exponent after an `e`: an optional sign and at least one digit. -/
def power? (t : Text) : Option (Int × Text) :=
  let (negative, unsigned) :=
    match t with
    | '+' :: r => (false, r)
    | '-' :: r => (true, r)
    | _ => (false, t)
  match digits unsigned with
  | ([], _) => none
  | (ds, rest) => some (if negative then -(ofDigits ds : Int) else ofDigits ds, rest)

def withPower (negative : Bool) (whole : List Nat) (fraction : Option (List Nat)) (t : Text) :
    Option (Literal × Text) :=
  match t with
  | c :: r =>
    if c = 'e' || c = 'E' then
      (power? r).map fun (e, rest) => (⟨negative, whole, fraction, some e⟩, rest)
    else some (⟨negative, whole, fraction, none⟩, t)
  | [] => some (⟨negative, whole, fraction, none⟩, t)

/-- A number at the start of a text. A zero is not followed by another digit, and a point and an
exponent mark are followed by digits. -/
def literal? (t : Text) : Option (Literal × Text) :=
  let (negative, unsigned) :=
    match t with
    | '-' :: r => (true, r)
    | _ => (false, t)
  match digits unsigned with
  | ([], _) => none
  | (0 :: _ :: _, _) => none
  | (whole, '.' :: r) =>
    match digits r with
    | ([], _) => none
    | (fraction, rest) => withPower negative whole (some fraction) rest
  | (whole, rest) => withPower negative whole none rest

/-- Significands have 64 bits. -/
def significandBound : Nat := 0x10000000000000000

/-- Appends digits to the significand while it fits; each digit left out counts in the second
result. -/
def appendDigits (significand : Nat) : List Nat → Nat × Nat × Nat
  | [] => (significand, 0, 0)
  | d :: ds =>
    let next := 10 * significand + d
    if next < significandBound then
      let (s, taken, left) := appendDigits next ds
      (s, taken + 1, left)
    else (significand, 0, ds.length + 1)

def tenTo (n : Nat) : Float :=
  Float.ofScientific 1 false n

/-- Division by a power of ten in steps that a double can hold. -/
def divideByPower (x : Float) (n : Nat) : Float :=
  if n ≤ 308 then x / tenTo n
  else if x == 0 then x
  else divideByPower (x / tenTo 308) (n - 308)
termination_by n

def scaleDouble? (significand : Nat) (power : Int) : Option Float :=
  let x := Float.ofNat significand
  match power with
  | .ofNat n =>
    if n ≤ 308 then
      let y := x * tenTo n
      if y.isInf then none else some y
    else if significand = 0 then some x
    else none
  | .negSucc n => some (divideByPower x (n + 1))

def Literal.double? (l : Literal) : Option Float :=
  let (significand, _, left) := appendDigits 0 l.whole
  let (significand, taken, _) := appendDigits significand (l.fraction.getD [])
  let power := (left : Int) - (taken : Int) + l.power.getD 0
  (scaleDouble? significand power).map fun x => if l.negative then -x else x

/-- Doubles are shown positionally from 0.00001 up to 16 whole digits, and with a power of ten beyond
that. -/
def realText (x : Float) : Text :=
  let (negative, d) := Decimal.ofFloat x
  let text := if -5 ≤ d.magnitude && d.magnitude ≤ 15 then d.positional else d.scientific
  if negative then '-' :: text else text

/-- The value of a number: an integer if it is written as one and fits, else a double. -/
def Literal.value (l : Literal) : Json :=
  let n := ofDigits l.whole
  let fits := if l.negative then 0 < n && n ≤ 0x8000000000000000 else n < significandBound
  if l.fraction.isNone && l.power.isNone && fits then .int (if l.negative then -(n : Int) else n)
  else
    match l.double? with
    | some x => .real (realText x)
    | none => .unreadable

end FieldMap.Json
