/-! Finite double-precision numbers without a sign: `mantissa * 2 ^ exponent`
with a mantissa below `2 ^ 53` and an exponent from -1074 to 971. Arithmetic is
exact on naturals and rounded once, to the nearest, a half to the even one. -/
namespace Feedforward

structure Double where
  mantissa : Nat
  exponent : Int
deriving DecidableEq, Repr

namespace Double

def zero : Double := ⟨0, -1074⟩

/-- The nearest natural number to a fraction; a half goes to the even neighbour. -/
def nearest (num den : Nat) : Nat :=
  let q := num / den
  let r := num % den
  if 2 * r < den then q
  else if den < 2 * r then q + 1
  else if q % 2 = 0 then q else q + 1

def scaleDown (num den : Nat) (e : Int) : Nat × Nat :=
  if e < 0 then (num * Nat.pow 2 e.natAbs, den) else (num, den * Nat.pow 2 e.natAbs)

def leadingExponent (num den : Nat) : Int :=
  let k : Int := (num.log2 : Int) - den.log2
  let (n, d) := scaleDown num den k
  if d ≤ n then k else k - 1

/-- The double nearest to a fraction, unless it is too large to have one. -/
def ofRatio? (num den : Nat) : Option Double :=
  if num = 0 then some zero
  else
    let e := max (leadingExponent num den - 52) (-1074)
    let (n, d) := scaleDown num den e
    let m := nearest n d
    let rounded : Double := if m = Nat.pow 2 53 then ⟨Nat.pow 2 52, e + 1⟩ else ⟨m, e⟩
    if rounded.exponent ≤ 971 then some rounded else none

def ratio (x : Double) : Nat × Nat :=
  if x.exponent < 0 then (x.mantissa, Nat.pow 2 x.exponent.natAbs)
  else (x.mantissa * Nat.pow 2 x.exponent.natAbs, 1)

def mul? (x y : Double) : Option Double :=
  ofRatio? (x.ratio.1 * y.ratio.1) (x.ratio.2 * y.ratio.2)

def div? (x y : Double) : Option Double :=
  ofRatio? (x.ratio.1 * y.ratio.2) (x.ratio.2 * y.ratio.1)

def ofNat? (n : Nat) : Option Double := ofRatio? n 1

def tenTo? (k : Nat) : Option Double := ofNat? (Nat.pow 10 k)

/-- Greater powers of ten have no double near them. -/
def maxPower : Nat := 308

/-- A number over a power of ten, in steps of at most `10 ^ 308`, each of which rounds. -/
def overPowerOfTen? (x : Double) (k : Nat) : Option Double :=
  if _h : k ≤ maxPower then
    (tenTo? k).bind x.div?
  else if x.mantissa = 0 then some x
  else ((tenTo? maxPower).bind x.div?).bind fun y => overPowerOfTen? y (k - maxPower)
termination_by k
decreasing_by
  simp only [maxPower] at _h ⊢
  omega

/-- The number `n * 10 ^ e` as a rounded product or quotient of rounded
factors. It has no value when the factor or the product is too large. -/
def ofScientific? (n : Nat) (e : Int) : Option Double :=
  (ofNat? n).bind fun x =>
    if e < 0 then x.overPowerOfTen? e.natAbs
    else if x.mantissa = 0 then some x
    else if e.natAbs ≤ maxPower then (tenTo? e.natAbs).bind x.mul?
    else none

end Double
end Feedforward
