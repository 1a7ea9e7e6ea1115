import QuoteFeed.Binary64

/-!
Numbers as decimal text.

Reading accepts a sign, digits with at most one point among or before them, and an exponent, and
takes the whole text. Writing offers two forms: the fewest digits that read back, laid out by a
`Layout`, and a fixed number of places.
-/

namespace QuoteFeed

/-- A decimal number as read: `digits * 10 ^ exponent`, with its sign kept apart. -/
structure Decimal where
  negative : Bool
  digits : Nat
  exponent : Int
deriving DecidableEq

namespace Decimal

/-- The floating-point number nearest to a decimal one. -/
def toBinary64 (d : Decimal) : Binary64 := .ofDecimal d.negative d.digits d.exponent

/-- Splits off a sign; a minus sign gives `true`. -/
def takeSign : Octets → Bool × Octets
  | Ascii.minus :: s => (true, s)
  | Ascii.plus :: s => (false, s)
  | s => (false, s)

/-- The digits behind a point, if the text begins with one, and what follows them. -/
def takeFraction : Octets → Octets × Octets
  | Ascii.point :: s => (s.takeWhile isDigit, s.dropWhile isDigit)
  | s => ([], s)

/-- The exponent at the front of a text, and what follows it. A mark counts only if digits follow it, with a sign
between them or without one. -/
def takeExponent : Octets → Int × Octets
  | [] => (0, [])
  | mark :: s =>
    let (negative, body) := takeSign s
    let digits := body.takeWhile isDigit
    if (mark = Ascii.lowerE ∨ mark = Ascii.upperE) ∧ digits ≠ [] then
      (if negative then -(digitsValue digits : Int) else digitsValue digits, body.dropWhile isDigit)
    else (0, mark :: s)

/-- The longest decimal number at the front of a text, and what follows it. -/
def take? (s : Octets) : Option (Decimal × Octets) :=
  let (negative, body) := takeSign s
  let whole := body.takeWhile isDigit
  let (fraction, tail) := takeFraction (body.dropWhile isDigit)
  if whole.isEmpty && fraction.isEmpty then none
  else
    let (exponent, rest) := takeExponent tail
    some ({ negative, digits := digitsValue (whole ++ fraction), exponent := exponent - fraction.length }, rest)

/-- The decimal number that a whole text spells. -/
def ofText? (s : Octets) : Option Decimal :=
  match take? s with
  | some (d, []) => some d
  | _ => none

/-- The octets of decimal notation. -/
def isOctet (b : UInt8) : Bool :=
  isDigit b || b = Ascii.point || b = Ascii.minus || b = Ascii.plus || b = Ascii.lowerE || b = Ascii.upperE

end Decimal

namespace Binary64

/-- The finite number that a whole text spells in decimal notation. -/
def ofText? (s : Octets) : Option Binary64 :=
  if s.isEmpty || !s.all Decimal.isOctet then none
  else ((Decimal.ofText? s).map Decimal.toBinary64).filter isFinite

/-- The exponent of the leading decimal digit of a positive number of units of `2 ^ -1074`. -/
def leadingExponent (u : Nat) : Int :=
  if unitsOfOne ≤ u then ((decimal (u / unitsOfOne)).length : Int) - 1
  else -(((List.range 330).find? fun k => unitsOfOne ≤ u * tenTo k).getD 330 : Int)

/-- `digits * 10 ^ exponent` compared with half of `bound` units: the two sides over one denominator. -/
def scaled (digits : Nat) (exponent : Int) (bound : Nat) : Nat × Nat :=
  if 0 ≤ exponent then (2 * digits * tenTo exponent.toNat * unitsOfOne, bound)
  else (2 * digits * unitsOfOne, bound * tenTo (-exponent).toNat)

/-- Whether a decimal number rounds to the magnitude of `rank`, judged by the half-way points beside it. -/
def readsBack (rank digits : Nat) (exponent : Int) : Bool :=
  let (d, low) := scaled digits exponent (units rank + units (rank - 1))
  let (_, high) := scaled digits exponent (units rank + units (rank + 1))
  if rank % 2 = 0 then low ≤ d && d ≤ high else low < d && d < high

/-- The multiples of `10 ^ exponent` on either side of the magnitude of `rank`, and whether the
lower is nearer. -/
def neighbours (rank : Nat) (exponent : Int) : Nat × Bool :=
  let (num, den) :=
    if 0 ≤ exponent then (units rank, unitsOfOne * tenTo exponent.toNat)
    else (units rank * tenTo (-exponent).toNat, unitsOfOne)
  let q := num / den
  (q, 2 * (num % den) < den || (2 * (num % den) = den && q % 2 = 0))

/-- The decimal of at most `count` digits that reads back as the magnitude of `rank`, if there is one. -/
def digitsOf? (rank count : Nat) : Option (Nat × Int) :=
  let exponent := leadingExponent (units rank) - (count : Int) + 1
  let (q, lowerNearer) := neighbours rank exponent
  let (first, second) := if lowerNearer then (q, q + 1) else (q + 1, q)
  if readsBack rank first exponent then some (first, exponent)
  else if readsBack rank second exponent then some (second, exponent)
  else none

/-- The fewest digits that read back as the magnitude of `rank`, and of those the nearest. -/
def shortest (rank : Nat) : Nat × Int :=
  ((List.range 17).findSome? fun n => digitsOf? rank (n + 1)).getD (0, 0)

/-- How the digits of a number are laid out. -/
structure Layout where
  /-- The greatest number of digits before the point in positional form. -/
  widest : Int
  /-- What is written after a whole number. -/
  wholeEnding : Octets

/-- Whole numbers keep a point and a zero, and sixteen digits before the point are too many. -/
def Layout.json : Layout := ⟨15, [Ascii.point, Ascii.zero]⟩

/-- Whole numbers stand bare, and sixteen digits before the point are still positional. -/
def Layout.plain : Layout := ⟨16, []⟩

/-- Lays out digits whose point stands after the first `before` of them. -/
def Layout.write (layout : Layout) (digits : Octets) (before : Int) : Octets :=
  let count : Int := digits.length
  if -4 < before ∧ before ≤ layout.widest then
    if count ≤ before then digits ++ List.replicate (before - count).toNat Ascii.zero ++ layout.wholeEnding
    else if 0 < before then digits.take before.toNat ++ Ascii.point :: digits.drop before.toNat
    else Ascii.zero :: Ascii.point :: List.replicate (-before).toNat Ascii.zero ++ digits
  else
    let exponent := before - 1
    let size := decimal exponent.natAbs
    let mantissa := match digits with
      | d :: e :: rest => d :: Ascii.point :: e :: rest
      | short => short
    let sign := if exponent < 0 then Ascii.minus else Ascii.plus
    mantissa ++ Ascii.lowerE :: sign :: (if size.length < 2 then Ascii.zero :: size else size)

/-- Drops the zeros at the end of a numeral, but not its first digit. -/
def trimZeros (s : Octets) : Octets :=
  match (s.reverse.dropWhile (· = Ascii.zero)).reverse with
  | [] => s.take 1
  | t => t

/-- The shortest text of a magnitude in a layout. -/
def magnitudeText (layout : Layout) (rank : Nat) : Octets :=
  if rank = 0 then layout.write [Ascii.zero] 1
  else
    let (digits, exponent) := shortest rank
    let numeral := decimal digits
    layout.write (trimZeros numeral) (numeral.length + exponent)

/-- A sign in front of a text, written only if negative. -/
def signed (negative : Bool) (s : Octets) : Octets := if negative then Ascii.minus :: s else s

/-- The shortest text that reads back, in the bare layout. -/
def plainText : Binary64 → Octets
  | .nan => octets "nan"
  | .infinite negative => signed negative (octets "inf")
  | .finite negative rank => signed negative (magnitudeText .plain rank)

/-- The shortest text that reads back, in the layout of a document; the rest have no text there. -/
def jsonText? : Binary64 → Option Octets
  | .finite negative rank => some (signed negative (magnitudeText .json rank))
  | _ => none

/-- A magnitude with two places, an exact half going to the even neighbour. -/
def hundredths (rank : Nat) : Octets :=
  let n := nearest (units rank * 100) unitsOfOne
  decimal (n / 100) ++ [Ascii.point, digitOctet (n / 10 % 10), digitOctet (n % 10)]

/-- The text with a sign always and two places. -/
def changeText (x : Binary64) : Octets :=
  let sign (negative : Bool) : UInt8 := if negative then Ascii.minus else Ascii.plus
  match x with
  | .nan => octets "+nan"
  | .infinite negative => sign negative :: octets "inf"
  | .finite negative rank => sign negative :: hundredths rank

end Binary64

end QuoteFeed
