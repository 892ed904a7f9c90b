/-!
# Binary floating-point numbers

JSON numbers with a fraction or an exponent are binary numbers of 64 bits.
This module has the values themselves, the rounding of a decimal to the nearest
value, and the shortest decimal that reads back as a given value.

* A finite value is `±m · 2^e` in normal form: `m < 2^53`, and either
  `2^52 ≤ m` or `e` is the least exponent.
* `ofDecimal` rounds to the nearest value, a tie to the even mantissa.
* `shortest` searches the decimal grids of 1, 2, … 17 digits and takes the first
  grid with a point that rounds to the value; of two points the nearer.
* `display` writes the digits positionally for moderate exponents and in
  scientific notation otherwise.
-/

namespace DeclGraph

/-- A binary floating-point number. -/
inductive Binary64 where
  | finite (negative : Bool) (mantissa : Nat) (exponent : Int)
  | infinite (negative : Bool)
  | nan
deriving DecidableEq, Repr

namespace Binary64

section Rounding

/-- The least binary exponent. -/
def leastExponent : Int := -1074

/-- The greatest binary exponent of a value in normal form. -/
def greatestExponent : Int := 971

def zero (negative : Bool) : Binary64 :=
  finite negative 0 leastExponent

/-- `num / den` rounded to the nearest natural number, a tie to the even one. -/
def roundDiv (num den : Nat) : Nat :=
  let q := num / den
  let twice := 2 * (num % den)
  if twice < den then q else if den < twice then q + 1 else q + q % 2

/-- `num / den · 2^(-e)` as a quotient of naturals. -/
def scaled (num den : Nat) (e : Int) : Nat × Nat :=
  (num * Nat.pow 2 (-e).toNat, den * Nat.pow 2 e.toNat)

/-- The value nearest to a positive quotient. -/
def ofQuotient (negative : Bool) (num den : Nat) : Binary64 :=
  let guess : Int := (Nat.log2 num : Int) - (Nat.log2 den : Int) - 53
  let (n, d) := scaled num den guess
  let e := max leastExponent (if Nat.pow 2 53 ≤ n / d then guess + 1 else guess)
  let (n, d) := scaled num den e
  let m := roundDiv n d
  let (m, e) := if m = Nat.pow 2 53 then (Nat.pow 2 52, e + 1) else (m, e)
  if greatestExponent < e then infinite negative else finite negative m e

/-- The value nearest to `±digits · 10^exponent`. -/
def ofDecimal (negative : Bool) (digits : Nat) (exponent : Int) : Binary64 :=
  let magnitude : Int := (Nat.toDigits 10 digits).length + exponent
  if digits = 0 || magnitude < -330 then zero negative
  else if 310 < magnitude then infinite negative
  else ofQuotient negative (digits * Nat.pow 10 exponent.toNat) (Nat.pow 10 (-exponent).toNat)

end Rounding

section Integers

/-- The integer a value equals, if there is one. -/
def toInt? : Binary64 → Option Int
  | finite negative m e =>
    let n := m * Nat.pow 2 e.toNat
    let d := Nat.pow 2 (-e).toNat
    if n % d = 0 then some (if negative then -((n / d : Nat) : Int) else (n / d : Nat)) else none
  | _ => none

end Integers

section Shortest

/-- `digits · 10^exponent` read from a grid of `n` digits, if one of the value's
two neighbours there rounds to the value.  The value is `v / unit`, and the
decimals that round to it lie between `lo / unit` and `hi / unit`. -/
def onGrid? (lo v hi unit : Nat) (closed : Bool) (exponent : Int) : Option Nat :=
  let up := Nat.pow 10 exponent.toNat * unit
  let down := Nat.pow 10 (-exponent).toNat
  let below := v * down / up
  let hit (d : Nat) : Bool :=
    let x := d * up
    if closed then lo * down ≤ x && x ≤ hi * down else lo * down < x && x < hi * down
  match hit below, hit (below + 1) with
  | true, true =>
    let left := v * down - below * up
    let right := (below + 1) * up - v * down
    some (if left < right || (left == right && below % 2 == 0) then below else below + 1)
  | true, false => some below
  | false, true => some (below + 1)
  | false, false => none

/-- Tries grids of `count` digits and more, at most `fuel` of them. -/
def searchGrids (lo v hi unit : Nat) (closed : Bool) (point : Int) :
    Nat → Nat → Nat × Int
  | 0, _ => (v / unit, 0)
  | fuel + 1, count =>
    match onGrid? lo v hi unit closed (point - count) with
    | some d => (d, point - count)
    | none => searchGrids lo v hi unit closed point fuel (count + 1)

/-- The number of digits before the decimal point of `num / den`; zero or less
when the first digit stands after it. -/
def decimalPoint (num den : Nat) : Int :=
  if den ≤ num then (Nat.toDigits 10 (num / den)).length
  else
    let rec go : Nat → Nat → Int
      | 0, _ => 0
      | fuel + 1, n => if den ≤ 10 * n then 0 else go fuel (10 * n) - 1
    go 400 num

/-- The shortest decimal `digits · 10^exponent` that rounds to `m · 2^e`. -/
def shortest (m : Nat) (e : Int) : Nat × Int :=
  let scale := Nat.pow 2 e.toNat
  let unit := 4 * Nat.pow 2 (-e).toNat
  let v := 4 * m * scale
  let hi := (4 * m + 2) * scale
  let lo := (if m = Nat.pow 2 52 && leastExponent < e then 4 * m - 1 else 4 * m - 2) * scale
  searchGrids lo v hi unit (m % 2 == 0) (decimalPoint v unit) 17 1

end Shortest

section Display

/-- Drops the trailing zeros of a digit string. -/
def dropTrailingZeros (ds : List Char) : List Char :=
  (ds.reverse.dropWhile (· == '0')).reverse

/-- Positional notation for a decimal point after 1 to 16 digits or up to three
zeros, scientific notation with a signed exponent of two digits otherwise. -/
def displayDigits (ds : List Char) (point : Int) : List Char :=
  if -4 < point && point ≤ 16 then
    if point ≤ 0 then '0' :: '.' :: (List.replicate (-point).toNat '0' ++ ds)
    else
      let whole := ds.take point.toNat
      let fraction := ds.drop point.toNat
      whole ++ List.replicate (point.toNat - ds.length) '0' ++
        '.' :: (if fraction.isEmpty then ['0'] else fraction)
  else
    let exponent := point - 1
    let mark := if exponent < 0 then '-' else '+'
    let es := Nat.toDigits 10 exponent.natAbs
    let mantissa :=
      match ds with
      | d :: [] => [d]
      | d :: rest => d :: '.' :: rest
      | [] => ['0']
    mantissa ++ 'e' :: mark :: (if es.length < 2 then '0' :: es else es)

/-- The text of a value, the shortest that reads back. -/
def display : Binary64 → String
  | nan => "nan"
  | infinite negative => if negative then "-inf" else "inf"
  | finite negative m e =>
    let body :=
      if m = 0 then ['0', '.', '0']
      else
        let (digits, exponent) := shortest m e
        let all := Nat.toDigits 10 digits
        displayDigits (dropTrailingZeros all) (all.length + exponent)
    String.ofList (if negative then '-' :: body else body)

end Display

end Binary64
end DeclGraph
