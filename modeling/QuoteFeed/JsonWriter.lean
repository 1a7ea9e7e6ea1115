import QuoteFeed.DecimalText
import QuoteFeed.Json
import QuoteFeed.Utf8

/-!
Writing documents: no blanks, members in the order of their keys, and as few escapes as the format
allows. Text that is not well-formed UTF-8 has no written form.
-/

namespace QuoteFeed

namespace Json

def hexOctet (n : Nat) : UInt8 := if n < 10 then digitOctet n else (87 + n).toUInt8

/-- The written form of one octet of a text. -/
def escapeOctet (b : UInt8) : Octets :=
  if b = Ascii.quoteMark ∨ b = Ascii.backslash then [Ascii.backslash, b]
  else if b = 8 then [Ascii.backslash, Ascii.lowerB]
  else if b = 12 then [Ascii.backslash, Ascii.lowerF]
  else if b = Ascii.lineFeed then [Ascii.backslash, Ascii.lowerN]
  else if b = Ascii.carriageReturn then [Ascii.backslash, Ascii.lowerR]
  else if b = Ascii.tab then [Ascii.backslash, Ascii.lowerT]
  else if b < 32 then
    [Ascii.backslash, Ascii.lowerU, Ascii.zero, Ascii.zero, hexOctet (b.toNat / 16), hexOctet (b.toNat % 16)]
  else [b]

def quote (s : Octets) : Octets := Ascii.quoteMark :: s.flatMap escapeOctet ++ [Ascii.quoteMark]

def writeText (s : Octets) : Except Error Octets :=
  if Utf8.wellFormed s then pure (quote s) else throw .wrongType

mutual

def write : Json → Except Error Octets
  | null => pure (octets "null")
  | bool b => pure (if b then octets "true" else octets "false")
  | unsigned n => pure (decimal n.toNat)
  | signed i => pure (decimalInt i.toInt)
  | real x => pure (x.jsonText?.getD (octets "null"))
  | text s => writeText s
  | list items => do pure (Ascii.openBracket :: (← writeItems items) ++ [Ascii.closeBracket])
  | object members => do pure (Ascii.openBrace :: (← writeMembers members) ++ [Ascii.closeBrace])

def writeItems : List Json → Except Error Octets
  | [] => pure []
  | [j] => write j
  | j :: k :: rest => do pure ((← write j) ++ Ascii.comma :: (← writeItems (k :: rest)))

def writeMembers : List (Octets × Json) → Except Error Octets
  | [] => pure []
  | [m] => writeMember m
  | m :: n :: rest => do pure ((← writeMember m) ++ Ascii.comma :: (← writeMembers (n :: rest)))

/-- A key, a colon and a value. -/
def writeMember : Octets × Json → Except Error Octets
  | (key, value) => do pure ((← writeText key) ++ Ascii.colon :: (← write value))

end

end Json

end QuoteFeed
