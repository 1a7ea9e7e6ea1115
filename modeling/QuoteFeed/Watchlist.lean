import QuoteFeed.Message

/-!
The instruments that are wanted, in the order in which they were added, and the frames that say so.
-/

namespace QuoteFeed

/-- Instrument ids without repetition; the earliest addition stands first. -/
structure Watchlist where
  ids : List Octets := []
  nodup : ids.Nodup := by exact List.nodup_nil
deriving DecidableEq

namespace Watchlist

def contains (w : Watchlist) (id : Octets) : Bool := w.ids.contains id

def isEmpty (w : Watchlist) : Bool := w.ids.isEmpty

/-- Adds an id at the end, and tells whether it was new; one that is there already stays where it is. -/
def add (w : Watchlist) (id : Octets) : Bool × Watchlist :=
  if h : id ∈ w.ids then (false, w)
  else (true, {
    ids := w.ids ++ [id]
    nodup := by
      rw [List.nodup_append]
      refine ⟨w.nodup, by simp, ?_⟩
      intro a ha b hb hab
      simp only [List.mem_singleton] at hb
      exact h (hb ▸ hab ▸ ha) })

/-- Removes an id, and tells whether it was there. -/
def remove (w : Watchlist) (id : Octets) : Bool × Watchlist :=
  (w.contains id, { ids := w.ids.erase id, nodup := w.nodup.erase id })

def empty : Watchlist := {}

end Watchlist

/-- What an instrument is named by: a text of its own, or a place on the list itself, where whatever stands there
counts when the name is read, and behind the list what is left of the instrument that was the last. -/
inductive Naming where
  | own (id : Octets)
  | listed (place : Nat) (remains : Octets)
deriving DecidableEq

def Naming.read (w : Watchlist) : Naming → Octets
  | own id => id
  | listed place remains => w.ids.getD place remains

namespace Watchlist

/-- Removes the instrument of a name, and tells whether it was there. -/
def withdraw (w : Watchlist) (name : Naming) : Bool × Watchlist := w.remove (name.read w)

/-- The frame that asks for an instrument, or that gives one up. -/
def marketFrame (type id : Octets) : Except Json.Error Octets :=
  Message.frame [(octets "type", .text type), (octets "channel", .text (octets "market")),
    (octets "marketId", .text id)]

def subscribeFrame (id : Octets) : Except Json.Error Octets := marketFrame (octets "subscribe") id

def unsubscribeFrame (id : Octets) : Except Json.Error Octets := marketFrame (octets "unsubscribe") id

/-- The frames that ask for every instrument on the list, in order. -/
def replayFrames (w : Watchlist) : Except Json.Error (List Octets) := w.ids.mapM subscribeFrame

end Watchlist

end QuoteFeed
