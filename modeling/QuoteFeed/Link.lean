import QuoteFeed.Journal
import QuoteFeed.Step

/-!
Links: the connections of a client, as the client sees them. Links are numbered, and a client
attaches itself to a link under a number that tells its attempts apart.
-/

namespace QuoteFeed

inductive Report where
  | opened
  | closed
  | error (text : Octets)
  | frame (payload : Octets)
deriving DecidableEq

/-- An effect on the world outside: a value, what it shows, and the world afterwards. -/
abbrev Effect (τ α : Type) := τ → α × List Entry × τ

/-- What a client needs of the world outside, `τ`. -/
structure Network (τ : Type) where
  /-- Makes a link, if it can. -/
  create : Effect τ (Except Failure (Option Nat))
  /-- Has a link report to an attempt from now on. -/
  attach (link attempt : Nat) : τ → τ
  detach (link : Nat) : τ → τ
  /-- The attempt that a link reports to. -/
  attached? (link : Nat) : τ → Option Nat
  /-- Starts a link. It may report at once, and may fail after that. -/
  dial (link : Nat) (endpoint : Endpoint) : Effect τ (List Report × Option Failure)
  send (link : Nat) (frame : Octets) : Effect τ (Option Failure)
  close (link : Nat) : Effect τ (Option Failure)
  sample (name : Octets) (value : Binary64) : Effect τ Unit

end QuoteFeed
