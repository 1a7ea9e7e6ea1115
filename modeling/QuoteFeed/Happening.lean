import QuoteFeed.JsonReader
import QuoteFeed.Instant
import QuoteFeed.Wire

/-!
What happens to the program from outside, and how a list of happenings is written: one document a
line, with the time at which the program starts in the first line if it is to be known.
-/

namespace QuoteFeed

/-- Something that happens to the program: an operation ends, time passes, a signal comes. -/
inductive Happening where
  | complete (operation : Operation) (error : Option Octets) (data : Octets) (later : Bool)
  | advance (ms : Int)
  | signal (number : Int)
deriving DecidableEq

namespace Happening

def textOf? (key : String) (j : Json) : Option Octets := (j.member? (octets key)).bind Json.text?

def integerOf? (key : String) (j : Json) : Option Int := (j.member? (octets key)).bind Json.integer?

/-- The happening that a document stands for. -/
def ofJson? (j : Json) : Option Happening :=
  match textOf? "complete" j, integerOf? "advance" j, integerOf? "signal" j with
  | some name, none, none => (Operation.ofName? name).map fun operation =>
    complete operation (textOf? "error" j) ((textOf? "data" j).getD []) (j.member? (octets "later")).isSome
  | none, some ms, none => some (advance ms)
  | none, none, some number => some (signal number)
  | _, _, _ => none

def document? (line : Octets) : Option Json := (Json.read line).toOption

/-- The time at which the program starts, if the first line tells it. -/
def epochOf (lines : List Octets) : Instant :=
  ((((lines.head?.bind document?).bind (integerOf? "now")).bind Instant.ofMillis?)).getD default

/-- The happenings in some lines; other lines are passed over. -/
def ofLines (lines : List Octets) : List Happening := lines.filterMap fun line => (document? line).bind ofJson?

end Happening

end QuoteFeed
