import QuoteFeed.Octets

/-!
Well-formed UTF-8: no overlong form, no surrogate, nothing above U+10FFFF.
-/

namespace QuoteFeed

namespace Utf8

def isTail (b : UInt8) : Bool := 0x80 ≤ b && b ≤ 0xBF

/-- Whether `b` may follow the first octet `a` of a character of three octets. -/
def second3 (a b : UInt8) : Bool :=
  if a = 0xE0 then 0xA0 ≤ b && b ≤ 0xBF else if a = 0xED then 0x80 ≤ b && b ≤ 0x9F else isTail b

/-- Whether `b` may follow the first octet `a` of a character of four octets. -/
def second4 (a b : UInt8) : Bool :=
  if a = 0xF0 then 0x90 ≤ b && b ≤ 0xBF else if a = 0xF4 then 0x80 ≤ b && b ≤ 0x8F else isTail b

/-- Whether a text is a sequence of characters. -/
def wellFormed : Octets → Bool
  | [] => true
  | a :: rest =>
    if a < 0x80 then wellFormed rest
    else match rest with
    | [] => false
    | b :: rest =>
      if 0xC2 ≤ a && a ≤ 0xDF then isTail b && wellFormed rest
      else match rest with
      | [] => false
      | c :: rest =>
        if 0xE0 ≤ a && a ≤ 0xEF then second3 a b && isTail c && wellFormed rest
        else match rest with
        | [] => false
        | d :: rest => 0xF0 ≤ a && a ≤ 0xF4 && second4 a b && isTail c && isTail d && wellFormed rest

def encode (n : Nat) : Octets :=
  if n < 0x80 then [n.toUInt8]
  else if n < 0x800 then [(0xC0 + n / 64).toUInt8, (0x80 + n % 64).toUInt8]
  else if n < 0x10000 then
    [(0xE0 + n / 4096).toUInt8, (0x80 + n / 64 % 64).toUInt8, (0x80 + n % 64).toUInt8]
  else
    [(0xF0 + n / 262144).toUInt8, (0x80 + n / 4096 % 64).toUInt8, (0x80 + n / 64 % 64).toUInt8,
      (0x80 + n % 64).toUInt8]

end Utf8

end QuoteFeed
