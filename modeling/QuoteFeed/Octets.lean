import QuoteFeed.Ascii

/-!
Texts are sequences of octets: instrument ids, addresses and frames may hold any octet, NUL and
ill-formed UTF-8 included. This module has the type and the few cuts that the rest is built on.
-/

namespace QuoteFeed

/-- A text, as the octets it is made of. -/
abbrev Octets := List UInt8

/-- The octets of a string's UTF-8 encoding. -/
def octets (s : String) : Octets := s.toByteArray.data.toList

namespace Octets

/-- The part before the first NUL, which is all that a NUL-terminated text can carry. -/
def untilNul (s : Octets) : Octets := s.takeWhile (· ≠ 0)

/-- Lower case for the ASCII letters; every other octet stays as it is. -/
def lowerOctet (b : UInt8) : UInt8 := if Ascii.upperA ≤ b ∧ b ≤ Ascii.upperZ then b + 32 else b

def lower (s : Octets) : Octets := s.map lowerOctet

/-- The parts before and after the first occurrence of `pattern`, or nothing if it does not occur. -/
def splitFirst? (pattern : Octets) : Octets → Option (Octets × Octets)
  | [] => if pattern.isEmpty then some ([], []) else none
  | b :: s =>
    if pattern.isPrefixOf (b :: s) then some ([], (b :: s).drop pattern.length)
    else (splitFirst? pattern s).map fun (before, after) => (b :: before, after)

/-- The parts before and after the last occurrence of `mark`, or nothing if it does not occur. -/
def splitLast? (mark : UInt8) : Octets → Option (Octets × Octets)
  | [] => none
  | b :: s =>
    match splitLast? mark s with
    | some (before, after) => some (b :: before, after)
    | none => if b = mark then some ([], s) else none

/-- The part after the last octet that satisfies `isMark`; the whole text if there is none. -/
def afterLast (isMark : UInt8 → Bool) (s : Octets) : Octets :=
  (s.reverse.takeWhile fun b => !isMark b).reverse

/-- Whether one text stands before another, octet by octet; a text stands before its extensions. -/
def before : Octets → Octets → Bool
  | _, [] => false
  | [], _ :: _ => true
  | a :: s, b :: t => a < b || (a = b && before s t)

end Octets

end QuoteFeed
