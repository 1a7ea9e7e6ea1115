import QuoteFeed.Octets

/-!
Decimal digits: the numeral of a number, the number of a numeral, and the integers of 64 bits that
texts carry. `decimal` peels a number from its last digit, `digitsValue` folds from the first.
-/

namespace QuoteFeed

/-- The octets `0` to `9`. -/
def isDigit (b : UInt8) : Bool := Ascii.zero ≤ b && b ≤ Ascii.nine

/-- The number that a digit stands for. -/
def digitValue (b : UInt8) : Nat := b.toNat - 48

/-- The digit of a number below ten. -/
def digitOctet (d : Nat) : UInt8 := (48 + d).toUInt8

/-- The number that a sequence of digits stands for, most significant first. -/
def digitsValue (s : Octets) : Nat := s.foldl (fun n b => 10 * n + digitValue b) 0

/-- Writes the digits of `n` in front of `rest`. -/
def decimalOnto (n : Nat) (rest : Octets) : Octets :=
  if n < 10 then digitOctet n :: rest
  else decimalOnto (n / 10) (digitOctet (n % 10) :: rest)
termination_by n
decreasing_by omega

/-- The decimal numeral of a number, without leading zeros. -/
def decimal (n : Nat) : Octets := decimalOnto n []

/-- The decimal numeral of an integer: a minus sign in front of a negative one. -/
def decimalInt (i : Int) : Octets := if i < 0 then Ascii.minus :: decimal i.natAbs else decimal i.natAbs

def int64Min : Int := -9223372036854775808

def int64Max : Int := 9223372036854775807

/-- The integers that 64 bits can hold. -/
def inInt64 (i : Int) : Bool := int64Min ≤ i && i ≤ int64Max

/-- The 64-bit integer that an integer is taken for: its residue modulo `2 ^ 64`. -/
def wrapInt64 (i : Int) : Int := i.bmod 18446744073709551616

theorem int64Min_le_wrapInt64 (i : Int) : int64Min ≤ wrapInt64 i := by
  have := @Int.le_bmod i 18446744073709551616 (by decide)
  simp only [int64Min, wrapInt64]
  omega

theorem wrapInt64_le_int64Max (i : Int) : wrapInt64 i ≤ int64Max := by
  have := @Int.bmod_lt i 18446744073709551616 (by decide)
  simp only [int64Max, wrapInt64]
  omega

/-- An integer that 64 bits can hold is taken for itself. -/
theorem wrapInt64_of_inInt64 {i : Int} (h : inInt64 i = true) : wrapInt64 i = i := by
  rw [inInt64, Bool.and_eq_true, decide_eq_true_eq, decide_eq_true_eq] at h
  simp only [int64Min, int64Max] at h
  unfold wrapInt64
  exact Int.bmod_eq_of_le (by omega) (by omega)

/-- The integer at the front of a text: an optional minus sign and the digits that follow it. -/
def leadingInt? (s : Octets) : Option Int :=
  let (negative, body) := match s with
    | Ascii.minus :: body => (true, body)
    | body => (false, body)
  let digits := body.takeWhile isDigit
  if digits.isEmpty then none
  else some (if negative then -(digitsValue digits : Int) else digitsValue digits)

/-- The 64-bit integer at the front of a text; whatever follows its digits is not looked at. -/
def leadingInt64? (s : Octets) : Option Int := (leadingInt? s).filter inInt64

/-- The 64-bit integer that a text is the numeral of: no other spelling of it is accepted. -/
def numeralInt64? (s : Octets) : Option Int := (leadingInt64? s).filter fun i => decimalInt i = s

/-- The integer that a whole text spells: an optional minus sign and at least one digit. -/
def wholeInt? (s : Octets) : Option Int :=
  match s with
  | Ascii.minus :: digits =>
    if !digits.isEmpty && digits.all isDigit then some (-(digitsValue digits : Int)) else none
  | digits => if !digits.isEmpty && digits.all isDigit then some (digitsValue digits) else none

end QuoteFeed
