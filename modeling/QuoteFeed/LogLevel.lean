import QuoteFeed.Octets

/-!
Levels of log lines: which lines are written, and to which of the two outputs.
-/

namespace QuoteFeed

inductive LogLevel where
  | trace
  | debug
  | info
  | warn
  | error
deriving DecidableEq

inductive LogOutput where
  | normal
  | faults
deriving DecidableEq

namespace LogLevel

def all : List LogLevel := [trace, debug, info, warn, error]

/-- The place of a level in the order. -/
def rank : LogLevel → Nat
  | trace => 0
  | debug => 1
  | info => 2
  | warn => 3
  | error => 4

def name : LogLevel → Octets
  | trace => octets "TRACE"
  | debug => octets "DEBUG"
  | info => octets "INFO"
  | warn => octets "WARN"
  | error => octets "ERROR"

/-- The level that a text asks for. No text at all asks for `info`, and a text that names no level
asks for `error`. -/
def ofText (s : Option Octets) : LogLevel :=
  match s with
  | none => info
  | some s =>
    let s := s.untilNul
    if s = octets "trace" then trace
    else if s = octets "debug" then debug
    else if s = octets "info" then info
    else if s = octets "warn" then warn
    else error

/-- Whether a line of one level is written while another is the least one wanted. -/
def passes (least level : LogLevel) : Bool := least.rank ≤ level.rank

/-- Where a line goes, if it is written. -/
def output? (least level : LogLevel) : Option LogOutput :=
  if passes least level then some (if warn.rank ≤ level.rank then .faults else .normal) else none

end LogLevel

/-- The last part of a path; either slash ends a part. -/
def baseName (path : Octets) : Octets := path.untilNul.afterLast fun b => b = Ascii.slash || b = Ascii.backslash

end QuoteFeed
