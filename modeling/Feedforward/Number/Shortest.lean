import Feedforward.Number.Double

/-! The shortest decimal text of a double: the fewest digits that read back,
and of those the nearest to the number. -/
namespace Feedforward

structure Scientific where
  digits : Nat
  exponent : Int
deriving DecidableEq, Repr

namespace Scientific

def trimmed (x : Scientific) : Scientific :=
  if _h : x.digits ≠ 0 ∧ x.digits % 10 = 0 then trimmed ⟨x.digits / 10, x.exponent + 1⟩ else x
termination_by x.digits
decreasing_by omega

def ratio (x : Scientific) : Nat × Nat :=
  if x.exponent < 0 then (x.digits, Nat.pow 10 x.exponent.natAbs)
  else (x.digits * Nat.pow 10 x.exponent.natAbs, 1)

end Scientific

namespace Double

def quarter (x : Double) : Nat × Nat := Double.ratio ⟨1, x.exponent - 2⟩

/-- How many quarters below a double its lower neighbour's half of the way
ends: one where the doubles below lie twice as close, else two. -/
def reachBelow (x : Double) : Nat :=
  if x.mantissa = Nat.pow 2 52 ∧ x.exponent ≠ -1074 then 1 else 2

/-- Whether a fraction rounds to a double: the halves of the way to its
neighbours belong to it when its mantissa is even. -/
def covers (x : Double) (num den : Nat) : Bool :=
  let (u, v) := x.quarter
  let low := (4 * x.mantissa - x.reachBelow) * u * den
  let high := (4 * x.mantissa + 2) * u * den
  let point := num * v
  if x.mantissa % 2 = 0 then low ≤ point && point ≤ high else low < point && point < high

def leadingPower (num den : Nat) : Int :=
  if den ≤ num then ((Nat.toDigits 10 (num / den)).length : Int) - 1
  else -((Nat.toDigits 10 ((den - 1) / num)).length : Int)

/-- The neighbours of a fraction among the multiples of a power of ten that
read back as a given double; of two the nearer, of two as near the even one. -/
def onGrid? (x : Double) (k : Int) : Option Scientific :=
  let (num, den) := x.ratio
  let (n, d) := if k < 0 then (num * Nat.pow 10 k.natAbs, den) else (num, den * Nat.pow 10 k.natAbs)
  let q := n / d
  let below : Scientific := ⟨q, k⟩
  let above : Scientific := ⟨q + 1, k⟩
  let reads (s : Scientific) : Bool := x.covers s.ratio.1 s.ratio.2
  match reads below, reads above with
  | false, false => none
  | true, false => some below
  | false, true => some above
  | true, true => if nearest n d = q then some below else some above

/-- The shortest decimal of a positive double. Seventeen digits always suffice. -/
def shortest (x : Double) : Scientific :=
  let (num, den) := x.ratio
  let p := leadingPower num den
  (((List.range 17).findSome? fun n : Nat => x.onGrid? (p - n)).getD ⟨0, 0⟩).trimmed

end Double

namespace Scientific

/-- The places of the decimal point, from the first digit on, for which a
number is written positionally: more than `leastPoint`, at most `greatestPoint`. -/
def leastPoint : Int := -5

def greatestPoint : Int := 16

/-- Positional text with at least one digit on either side of the point, or
else one digit before the point and a signed exponent of ten. -/
def text (x : Scientific) : String :=
  let ds := Nat.toDigits 10 x.digits
  let point : Int := ds.length + x.exponent
  let zeros (n : Nat) : List Char := List.replicate n '0'
  if leastPoint < point ∧ point ≤ greatestPoint then
    if 0 ≤ x.exponent then String.ofList (ds ++ zeros x.exponent.toNat) ++ ".0"
    else if 0 < point then
      String.ofList (ds.take point.toNat) ++ "." ++ String.ofList (ds.drop point.toNat)
    else "0." ++ String.ofList (zeros point.natAbs ++ ds)
  else
    let sign := if point ≤ 0 then "-" else "+"
    String.ofList (ds.take 1) ++
      (if ds.length = 1 then "" else "." ++ String.ofList (ds.drop 1)) ++
      "e" ++ sign ++ (point - 1).natAbs.repr

end Scientific

def Double.text (x : Double) : String :=
  if x.mantissa = 0 then "0.0" else x.shortest.text

end Feedforward
