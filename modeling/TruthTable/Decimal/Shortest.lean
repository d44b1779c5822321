/-!
# Shortest decimal text of a binary number

A floating-point number is written with the fewest decimal digits that read back as the same
number; of several such texts, the one nearest to the number is taken.

* `Binary.ofFloat` takes a number apart into sign, mantissa and power of two.
* `shortest` searches the decimal grids from coarse to fine for a point that rounds back. Points
  and interval are compared exactly, as natural numbers over a common denominator.
* `ofFloat` lays the digits out: positionally while the decimal exponent is from -4 to 15, in
  scientific form otherwise.
-/

namespace TruthTable.Decimal

/-- A floating-point number taken apart. A finite one is `± mantissa · 2 ^ exponent`; `narrow` marks
a power of two, whose lower neighbour is only half as far away as its upper one. -/
inductive Binary where
  | finite (negative : Bool) (mantissa : Nat) (exponent : Int) (narrow : Bool)
  | infinite (negative : Bool)
  | undefined

/-- Takes a number apart along the fields of its 64-bit pattern. -/
def Binary.ofFloat (x : Float) : Binary :=
  let bits : Nat := x.toBits.toNat
  let negative := bits / Nat.pow 2 63 == 1
  let power : Nat := bits / Nat.pow 2 52 % Nat.pow 2 11
  let fraction : Nat := bits % Nat.pow 2 52
  if power == 2047 then
    if fraction == 0 then .infinite negative else .undefined
  else if power == 0 then .finite negative fraction (-1074) false
  else .finite negative (fraction + Nat.pow 2 52) (power - 1075) (fraction == 0 && power != 1)

/-- The multiple of `10 ^ place` nearest to `m · 2 ^ q` among those that round back to it, if any.
All quantities are counted in quarters of `2 ^ q` over the denominator `den`; the ends of the
interval belong to it when `m` is even. -/
def roundsBack? (m : Nat) (q : Int) (narrow : Bool) (place : Int) : Option Nat :=
  let scale := Nat.pow 2 (q - 2).toNat * Nat.pow 10 (-place).toNat
  let den := Nat.pow 2 (2 - q).toNat * Nat.pow 10 place.toNat
  let value := 4 * m * scale
  let low := (if narrow then 4 * m - 1 else 4 * m - 2) * scale
  let high := (4 * m + 2) * scale
  let inside (d : Nat) : Bool :=
    let x := d * den
    (low < x && x < high) || (m % 2 == 0 && (x == low || x == high))
  let below := value / den
  let above := below + 1
  match inside below, inside above with
  | true, false => some below
  | false, true => some above
  | false, false => none
  | true, true =>
    let down := value - below * den
    let up := above * den - value
    if down < up || (down == up && below % 2 == 0) then some below else some above

/-- Digits and decimal place of the shortest decimal for `m · 2 ^ q`: the coarsest grid that holds
a point rounding back, searched downwards from the place `steps - 345`. -/
def shortest (m : Nat) (q : Int) (narrow : Bool) : Nat → Nat × Int
  | 0 => (m, q)
  | steps + 1 =>
    let place : Int := steps - 345
    match roundsBack? m q narrow place with
    | some digits => (digits, place)
    | none => shortest m q narrow steps

/-- A decimal exponent: a sign always, and two digits at least. -/
def exponentText (e : Int) : String :=
  let digits := toString e.natAbs
  "e" ++ (if e < 0 then "-" else "+") ++ (if digits.length < 2 then "0" ++ digits else digits)

/-- Lays out `digits · 10 ^ place`. -/
def layout (digits : Nat) (place : Int) : String :=
  let text := toString digits
  let count := text.length
  -- where the decimal point stands, counted from the first digit
  let point : Int := count + place
  if -4 < point && point ≤ 16 then
    if point ≤ 0 then "0." ++ String.ofList (List.replicate (-point).toNat '0') ++ text
    else if count ≤ point.toNat then
      text ++ String.ofList (List.replicate (point.toNat - count) '0') ++ ".0"
    else
      String.ofList (text.toList.take point.toNat) ++ "." ++
        String.ofList (text.toList.drop point.toNat)
  else
    let head := String.ofList (text.toList.take 1)
    let tail := text.toList.drop 1
    head ++ (if tail.isEmpty then "" else "." ++ String.ofList tail) ++ exponentText (point - 1)

/-- The decimal text of a floating-point number. -/
def ofFloat (x : Float) : String :=
  match Binary.ofFloat x with
  | .undefined => "nan"
  | .infinite negative => if negative then "-inf" else "inf"
  | .finite negative m q narrow =>
    let sign := if negative then "-" else ""
    if m == 0 then sign ++ "0.0"
    else
      let (digits, place) := shortest m q narrow 656
      sign ++ layout digits place

end TruthTable.Decimal
