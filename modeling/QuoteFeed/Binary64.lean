import QuoteFeed.Digits
import QuoteFeed.Powers

/-!
Binary floating-point numbers of 64 bits, with exact arithmetic under them.

A finite number is a sign and a *rank*: its place in the increasing list of all finite magnitudes.
Every magnitude is a whole number of units of `2 ^ -1074`, and `units` gives it, so order is the
order of ranks and rounding is the choice of a rank. Rounding goes to the nearest magnitude, and
half-way values go to the even rank.
-/

namespace QuoteFeed

namespace Binary64

/-- The number of magnitudes that share an exponent, `2 ^ 52`. -/
def binade : Nat := 4503599627370496

/-- The number of finite magnitudes, and the rank that infinity would have. -/
def rankLimit : Nat := 2047 * binade

end Binary64

/-- A binary floating-point number. All not-a-numbers are one. -/
inductive Binary64 where
  | nan
  | infinite (negative : Bool)
  | finite (negative : Bool) (rank : Fin Binary64.rankLimit)
deriving DecidableEq

namespace Binary64

/-- How many units of `2 ^ -1074` the magnitude of a rank has. -/
def units (rank : Nat) : Nat :=
  if rank < binade then rank else (binade + rank % binade) * twoTo (rank / binade - 1)

/-- How many units the number one has. -/
def unitsOfOne : Nat := twoTo 1074

/-- The nearest integer to `num / den`, an exact half going to the even one. -/
def nearest (num den : Nat) : Nat :=
  let q := num / den
  let r := num % den
  if 2 * r < den then q else if den < 2 * r then q + 1 else q + q % 2

/-- The rank nearest to `num / den` units; it may be `rankLimit` or above. -/
def nearestRank (num den : Nat) : Nat :=
  let shift := Nat.log2 (num / den) - 52
  shift * binade + nearest num (den * twoTo shift)

/-- The number of a sign and a rank, which is infinite from `rankLimit` on. -/
def ofRank (negative : Bool) (rank : Nat) : Binary64 :=
  if h : rank < rankLimit then .finite negative ⟨rank, h⟩ else .infinite negative

def zero (negative : Bool) : Binary64 := ofRank negative 0

instance : Inhabited Binary64 := ⟨zero false⟩

/-- `num / den`, rounded. -/
def ofRatio (negative : Bool) (num den : Nat) : Binary64 :=
  ofRank negative (nearestRank (num * unitsOfOne) den)

def ofInt (i : Int) : Binary64 := ofRatio (i < 0) i.natAbs 1

/-- `digits * 10 ^ exponent`, rounded. Magnitudes far outside the range are settled by counting digits. -/
def ofDecimal (negative : Bool) (digits : Nat) (exponent : Int) : Binary64 :=
  if digits = 0 then zero negative
  else
    let top := exponent + (decimal digits).length
    if 310 < top then .infinite negative
    else if top < -330 then zero negative
    else if 0 ≤ exponent then ofRatio negative (digits * tenTo exponent.toNat) 1
    else ofRatio negative digits (tenTo (-exponent).toNat)

def isFinite : Binary64 → Bool
  | .finite _ _ => true
  | _ => false

/-- The exact value of a finite number, in units of `2 ^ -1074`. -/
def toUnits : Binary64 → Option Int
  | .finite negative rank => some (if negative then -(units rank : Int) else units rank)
  | _ => none

def abs : Binary64 → Binary64
  | .nan => .nan
  | .infinite _ => .infinite false
  | .finite _ rank => .finite false rank

/-- The place of a number in the order; not-a-number has none, and both zeros have the same. -/
def place : Binary64 → Option Int
  | .nan => none
  | .infinite negative => some (if negative then -(rankLimit : Int) else rankLimit)
  | .finite negative rank => some (if negative then -(rank.val : Int) else rank.val)

/-- Strictly less; false as soon as one side is not a number. -/
def less (x y : Binary64) : Bool :=
  match x.place, y.place with
  | some a, some b => a < b
  | _, _ => false

/-- The exact sum, rounded; a zero sum is negative only if both terms are. -/
def add : Binary64 → Binary64 → Binary64
  | .nan, _ | _, .nan => .nan
  | .infinite a, .infinite b => if a = b then .infinite a else .nan
  | .infinite a, .finite _ _ => .infinite a
  | .finite _ _, .infinite b => .infinite b
  | .finite a j, .finite b k =>
    let sum : Int := (if a then -(units j : Int) else units j) + (if b then -(units k : Int) else units k)
    if sum = 0 then zero (a && b) else ofRank (sum < 0) (nearestRank sum.natAbs 1)

instance : Add Binary64 := ⟨add⟩

/-- The integer part of a finite number. -/
def truncate? : Binary64 → Option Int
  | .finite negative rank =>
    let whole : Nat := units rank / unitsOfOne
    some (if negative then -(whole : Int) else whole)
  | _ => none

/-- The integer nearest to a finite number, an exact half going away from zero. -/
def round? : Binary64 → Option Int
  | .finite negative rank =>
    let whole : Nat := (2 * units rank + unitsOfOne) / (2 * unitsOfOne)
    some (if negative then -(whole : Int) else whole)
  | _ => none

/-- The weight of the sign bit, `2 ^ 63`. -/
def signBit : Nat := 9223372036854775808

/-- The 64 bits of the interchange format: the sign bit in front of the rank. -/
def bits : Binary64 → Nat
  | .nan => rankLimit + binade / 2
  | .infinite negative => (if negative then signBit else 0) + rankLimit
  | .finite negative rank => (if negative then signBit else 0) + rank

end Binary64

end QuoteFeed
