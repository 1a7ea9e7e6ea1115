import QuoteFeed.DecimalText
import QuoteFeed.Json
import QuoteFeed.Utf8

/-!
Reading documents. The first fault from the left decides: a text that is no document is malformed,
and a number too large for floating point is out of range.
-/

namespace QuoteFeed

/-- A number as a document spells it. -/
structure Numeral where
  negative : Bool
  whole : Octets
  fraction : Option Octets
  exponent : Option (Bool × Octets)

namespace Numeral

/-- The digits before the point: a zero, or digits that do not start with one. -/
def takeWhole (s : Octets) : Octets := if s[0]? = some Ascii.zero then [Ascii.zero] else s.takeWhile isDigit

/-- The fraction at the front of a text: none, or a point and at least one digit. -/
def takeFraction : Octets → Option (Option Octets × Octets)
  | Ascii.point :: s =>
    let digits := s.takeWhile isDigit
    if digits.isEmpty then none else some (some digits, s.drop digits.length)
  | s => some (none, s)

/-- The exponent at the front of a text: none, or a mark, an optional sign and at least one digit. -/
def takeExponent : Octets → Option (Option (Bool × Octets) × Octets)
  | [] => some (none, [])
  | mark :: s =>
    if mark = Ascii.lowerE ∨ mark = Ascii.upperE then
      let (negative, s) := Decimal.takeSign s
      let digits := s.takeWhile isDigit
      if digits.isEmpty then none else some (some (negative, digits), s.drop digits.length)
    else some (none, mark :: s)

/-- The numeral at the front of a text, and what follows it. -/
def take? (s : Octets) : Option (Numeral × Octets) := do
  let (negative, s) := match s with
    | Ascii.minus :: s => (true, s)
    | s => (false, s)
  let whole := takeWhole s
  guard !whole.isEmpty
  let (fraction, s) ← takeFraction (s.drop whole.length)
  let (exponent, s) ← takeExponent s
  pure ({ negative, whole, fraction, exponent }, s)

/-- The decimal number that a numeral spells. -/
def toDecimal (n : Numeral) : Decimal :=
  let fraction := n.fraction.getD []
  let exponent : Int := match n.exponent with
    | none => 0
    | some (negative, digits) => if negative then -(digitsValue digits : Int) else digitsValue digits
  { negative := n.negative, digits := digitsValue (n.whole ++ fraction), exponent := exponent - fraction.length }

def toReal (n : Numeral) : Except Json.Error Json :=
  let x := n.toDecimal.toBinary64
  if x.isFinite then pure (.real x) else throw .outOfRange

/-- The number in the narrowest form that holds it. -/
def toJson (n : Numeral) : Except Json.Error Json :=
  if n.fraction.isSome || n.exponent.isSome then n.toReal
  else
    let value := digitsValue n.whole
    if n.negative then
      if value ≤ 9223372036854775808 then pure (.signed (Int64.ofInt (-value))) else n.toReal
    else if value < 18446744073709551616 then pure (.unsigned value.toUInt64) else n.toReal

end Numeral

namespace Json

def skipBlanks (s : Octets) : Octets := 
  s.dropWhile fun b => b = Ascii.space || b = Ascii.tab || b = Ascii.lineFeed || b = Ascii.carriageReturn

def hexValue? (b : UInt8) : Option Nat :=
  if isDigit b then some (digitValue b)
  else if Ascii.lowerA ≤ b ∧ b ≤ Ascii.lowerF then some (b.toNat - 87)
  else if Ascii.upperA ≤ b ∧ b ≤ Ascii.upperF then some (b.toNat - 55)
  else none

def unit? (s : Octets) : Option Nat := do
  let digits ← (s.take 4).mapM hexValue?
  guard (digits.length = 4)
  pure (digits.foldl (fun n d => 16 * n + d) 0)

/-- The code point after the mark of an escape by number, and how many octets it takes up. A high
surrogate needs a low one right after it. -/
def codePoint? (s : Octets) : Option (Nat × Nat) := do
  let first ← unit? s
  if 0xD800 ≤ first ∧ first < 0xDC00 then
    guard ((s.drop 4).take 2 = [Ascii.backslash, Ascii.lowerU])
    let second ← unit? (s.drop 6)
    guard (0xDC00 ≤ second && second < 0xE000)
    pure (0x10000 + (first - 0xD800) * 0x400 + (second - 0xDC00), 10)
  else
    guard !(0xDC00 ≤ first && first < 0xE000)
    pure (first, 4)

/-- The octet that a one-letter escape stands for. -/
def escaped? (letter : UInt8) : Option UInt8 :=
  if letter = Ascii.quoteMark ∨ letter = Ascii.backslash ∨ letter = Ascii.slash then some letter
  else if letter = Ascii.lowerB then some 8
  else if letter = Ascii.lowerF then some 12
  else if letter = Ascii.lowerN then some Ascii.lineFeed
  else if letter = Ascii.lowerR then some Ascii.carriageReturn
  else if letter = Ascii.lowerT then some Ascii.tab
  else none

/-- The text up to the closing quote, `skip` octets of which have been read, and what follows it. -/
def takeQuoted? : Nat → Octets → Option (Octets × Octets)
  | _, [] => none
  | skip + 1, _ :: s => takeQuoted? skip s
  | 0, b :: s =>
    if b = Ascii.quoteMark then some ([], s)
    else if b < 32 then none
    else if b = Ascii.backslash then
      match s with
      | [] => none
      | letter :: rest =>
        if letter = Ascii.lowerU then do
          let (n, size) ← codePoint? rest
          let (t, rest) ← takeQuoted? (size + 1) s
          pure (Utf8.encode n ++ t, rest)
        else do
          let c ← escaped? letter
          let (t, rest) ← takeQuoted? 1 s
          pure (c :: t, rest)
    else do
      let (t, rest) ← takeQuoted? 0 s
      pure (b :: t, rest)

/-- A quoted text, behind its opening quote. -/
def readQuoted (s : Octets) : Except Error (Octets × Octets) :=
  match takeQuoted? 0 s with
  | some (t, rest) => if Utf8.wellFormed t then pure (t, rest) else throw .malformed
  | none => throw .malformed

def readWord (s : Octets) : Except Error (Json × Octets) :=
  if (octets "null").isPrefixOf s then pure (null, s.drop 4)
  else if (octets "true").isPrefixOf s then pure (bool true, s.drop 4)
  else if (octets "false").isPrefixOf s then pure (bool false, s.drop 5)
  else throw .malformed

def readNumber (s : Octets) : Except Error (Json × Octets) :=
  match Numeral.take? s with
  | some (n, rest) => n.toJson.map fun j => (j, rest)
  | none => throw .malformed

mutual

/-- The document at the front of a text, and what follows it. -/
def readValue : Nat → Octets → Except Error (Json × Octets)
  | 0, _ => throw .malformed
  | fuel + 1, s =>
    match skipBlanks s with
    | [] => throw .malformed
    | b :: rest =>
      if b = Ascii.quoteMark then do
        let (t, rest) ← readQuoted rest
        pure (text t, rest)
      else if b = Ascii.openBracket then
        match skipBlanks rest with
        | Ascii.closeBracket :: rest => pure (list [], rest)
        | rest => do
          let (items, rest) ← readItems fuel rest
          pure (list items, rest)
      else if b = Ascii.openBrace then
        match skipBlanks rest with
        | Ascii.closeBrace :: rest => pure (object [], rest)
        | rest => do
          let (members, rest) ← readMembers fuel rest
          pure (ofMembers members, rest)
      else if b = Ascii.minus ∨ isDigit b then readNumber (b :: rest)
      else readWord (b :: rest)

/-- The items of a list up to its end. -/
def readItems : Nat → Octets → Except Error (List Json × Octets)
  | 0, _ => throw .malformed
  | fuel + 1, s => do
    let (j, rest) ← readValue fuel s
    match skipBlanks rest with
    | Ascii.closeBracket :: rest => pure ([j], rest)
    | Ascii.comma :: rest => do
      let (items, rest) ← readItems fuel rest
      pure (j :: items, rest)
    | _ => throw .malformed

/-- The members of an object up to its end. -/
def readMembers : Nat → Octets → Except Error (List (Octets × Json) × Octets)
  | 0, _ => throw .malformed
  | fuel + 1, s =>
    match skipBlanks s with
    | Ascii.quoteMark :: rest => do
      let (key, rest) ← readQuoted rest
      match skipBlanks rest with
      | Ascii.colon :: rest => do
        let (j, rest) ← readValue fuel rest
        match skipBlanks rest with
        | Ascii.closeBrace :: rest => pure ([(key, j)], rest)
        | Ascii.comma :: rest => do
          let (members, rest) ← readMembers fuel rest
          pure ((key, j) :: members, rest)
        | _ => throw .malformed
      | _ => throw .malformed
    | _ => throw .malformed

end

/-- The text behind a byte order mark. -/
def skipMark (s : Octets) : Octets := if [0xEF, 0xBB, 0xBF].isPrefixOf s then s.drop 3 else s

/-- The first document in a text, and what follows it. -/
def readFirst (s : Octets) : Except Error (Json × Octets) := readValue (2 * s.length + 2) (skipMark s)

/-- Nothing more is to be read: what is left ends, or goes on with a 0 octet, which stands for the end in front of
anything. -/
def atEnd (s : Octets) : Bool := (skipBlanks s).head?.all fun b => b = 0

/-- The document that a whole text is. -/
def read (s : Octets) : Except Error Json := do
  let (j, rest) ← readFirst s
  if atEnd rest then pure j else throw .malformed

end Json

end QuoteFeed
