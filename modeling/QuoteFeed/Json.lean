import QuoteFeed.Binary64

/-!
Documents: the values that frames and settings are made of, and how their members are taken.

A number keeps the form it was written in: without a fraction and an exponent it is an unsigned or a
signed integer of 64 bits, and any other number is floating-point.
-/

namespace QuoteFeed

/-- A document. The members of an object are in the order of their keys, each key once. -/
inductive Json where
  | null
  | bool (b : Bool)
  | unsigned (n : UInt64)
  | signed (i : Int64)
  | real (x : Binary64)
  | text (s : Octets)
  | list (items : List Json)
  | object (members : List (Octets × Json))

namespace Json

instance : Inhabited Json := ⟨null⟩

/-- What can be wrong with a document, or with the use made of one. -/
inductive Error where
  | malformed
  | wrongType
  | outOfRange
deriving DecidableEq

def Error.message : Error → Octets
  | malformed => octets "<json.parse_error>"
  | wrongType => octets "<json.type_error>"
  | outOfRange => octets "<json.out_of_range>"

/-- Puts a member in its place; it takes the place of a member with the same key. -/
def insertMember (key : Octets) (value : Json) : List (Octets × Json) → List (Octets × Json)
  | [] => [(key, value)]
  | (k, v) :: rest =>
    if key = k then (key, value) :: rest
    else if key.before k then (key, value) :: (k, v) :: rest
    else (k, v) :: insertMember key value rest

/-- The object of some members, of which the last one with a key counts. -/
def ofMembers (members : List (Octets × Json)) : Json :=
  object (members.foldl (fun acc (k, v) => insertMember k v acc) [])

def isObject : Json → Bool
  | object _ => true
  | _ => false

def member? (key : Octets) : Json → Option Json
  | object members => (members.find? fun (k, _) => k = key).map (·.2)
  | _ => none

/-- The text, if the document is one. -/
def text? : Json → Option Octets
  | text s => some s
  | _ => none

/-- The items, if the document is a list. -/
def items? : Json → Option (List Json)
  | list items => some items
  | _ => none

/-- The number in floating point; integers are rounded. -/
def number? : Json → Option Binary64
  | unsigned n => some (.ofInt n.toNat)
  | signed i => some (.ofInt i.toInt)
  | real x => some x
  | _ => none

/-- The integer, if the document is written as one. -/
def integer? : Json → Option Int
  | unsigned n => some n.toNat
  | signed i => some i.toInt
  | _ => none

/-- A text wherever a text is due. -/
def getText (j : Json) : Except Error Octets := (text? j).elim (throw .wrongType) pure

/-- A number wherever a number is due. -/
def getNumber (j : Json) : Except Error Binary64 := (number? j).elim (throw .wrongType) pure

/-- A list of texts wherever one is due. -/
def getTexts (j : Json) : Except Error (List Octets) :=
  match j with
  | list items => items.mapM getText
  | _ => throw .wrongType

/-- A count of 32 bits wherever one is due: integers modulo `2 ^ 32`, other numbers cut to their
integer part first, and truth values as 0 and 1. -/
def getCount (j : Json) : Except Error UInt32 :=
  match j with
  | bool b => pure (if b then 1 else 0)
  | unsigned n => pure n.toUInt32
  | signed i => pure (UInt32.ofInt i.toInt)
  | real x => pure (((x.truncate?.filter inInt64).map UInt32.ofInt).getD 0)
  | _ => throw .wrongType

end Json

end QuoteFeed
