import QuoteFeed.Proofs.LastQuotes
import Mathlib.Data.Finset.Card

/-!
The board as a function of its history: what it keeps and tells of an instrument comes from the quotes of this
instrument since the board was last cleared, however those of others stand between them.
-/

namespace QuoteFeed

/-- What is done with a board. -/
inductive BoardOp where
  | update (quote : Quote)
  | clear
deriving DecidableEq

namespace BoardOp

/-- The quotes since the last clearing, the last one first. -/
def quotes : List BoardOp → List Quote
  | [] => []
  | update q :: rest => q :: quotes rest
  | clear :: _ => []

/-- The last quote of an instrument since the last clearing. -/
def last? (id : Octets) (history : List BoardOp) : Option Quote := (quotes history).find? fun q => q.market = id

/-- Whether something has to do with an instrument. -/
def concerns (id : Octets) : BoardOp → Bool
  | update q => q.market = id
  | clear => true

variable {id : Octets} {q : Quote}

theorem last?_update {rest : List BoardOp} :
    last? id (update q :: rest) = if id = q.market then some q else last? id rest := by
  by_cases h : id = q.market
  · simp [last?, quotes, h]
  · simp [last?, quotes, h, Ne.symm h]

theorem filter_update_self {rest : List BoardOp} :
    (update q :: rest).filter (concerns q.market) = update q :: rest.filter (concerns q.market) := by
  simp [concerns]

theorem filter_update_of_ne {rest : List BoardOp} (h : id ≠ q.market) :
    (update q :: rest).filter (concerns id) = rest.filter (concerns id) := by
  simp [concerns, Ne.symm h]

theorem filter_clear {rest : List BoardOp} :
    (clear :: rest).filter (concerns id) = clear :: rest.filter (concerns id) :=
  List.filter_cons_of_pos rfl

/-- The last quote of an instrument can be told from what concerns it. -/
theorem last?_filter (id : Octets) (history : List BoardOp) :
    last? id (history.filter (concerns id)) = last? id history := by
  induction history with
  | nil => rfl
  | cons op rest ih =>
    cases op with
    | update q =>
      by_cases h : id = q.market
      · rw [h, filter_update_self, last?_update, last?_update, if_pos rfl, if_pos rfl]
      · rw [filter_update_of_ne h, last?_update, if_neg h, ih]
    | clear => rw [filter_clear]; rfl

end BoardOp

/-- The signals of a quote after a previous one of its instrument: none after no quote, otherwise one of a gap
beyond the limit and one of a change beyond the limit. -/
structure Signals.Tell (staleLimit : Int) (moveLimit : Binary64) (previous : Option Quote) (q : Quote)
    (signals : Signals) : Prop where
  first : previous = none → signals = { stale := none, move := none }
  stale : ∀ p, previous = some p → ∀ signal, signals.stale = some signal ↔
    staleLimit < q.time.toMillis - p.time.toMillis ∧
      signal = { market := q.market, previous := p.time, gap := q.time.toMillis - p.time.toMillis }
  move : ∀ p, previous = some p → ∀ signal, signals.move = some signal ↔
    moveLimit.less q.change.abs = true ∧
      signal = { market := q.market, change := q.change, magnitude := q.change.abs, price := q.price }

namespace PriceBoard

/-- A board with some limits, without quotes. -/
def blank (staleLimit : Int) (moveLimit : Binary64) : PriceBoard := { staleLimit, moveLimit }

def perform (b : PriceBoard) : BoardOp → PriceBoard
  | .update q => (b.update q).2
  | .clear => b.clear

/-- The board when some things have been done with it, the last one first. -/
def after (b : PriceBoard) (history : List BoardOp) : PriceBoard := history.foldr (fun op b => b.perform op) b

/-- The signals of the quotes of an instrument, those of the last one first. -/
def signalled (b : PriceBoard) (id : Octets) : List BoardOp → List Signals
  | [] => []
  | .update q :: rest =>
    if id = q.market then ((b.after rest).update q).1 :: signalled b id rest else signalled b id rest
  | .clear :: rest => signalled b id rest

variable {staleLimit : Int} {moveLimit : Binary64} {id : Octets}

/-- Nothing that is done changes the limits. -/
theorem limits_after (b : PriceBoard) (history : List BoardOp) :
    (b.after history).staleLimit = b.staleLimit ∧ (b.after history).moveLimit = b.moveLimit := by
  induction history with
  | nil => exact ⟨rfl, rfl⟩
  | cons op rest ih => cases op <;> exact ih

theorem last?_after (id : Octets) (history : List BoardOp) :
    ((blank staleLimit moveLimit).after history).last? id = BoardOp.last? id history := by
  induction history with
  | nil => rfl
  | cons op rest ih =>
    cases op with
    | update q =>
      rw [BoardOp.last?_update, ← ih]
      exact last?_update _
    | clear => rfl

/-- The instruments on the board are those of the quotes, each of them once. -/
theorem markets_after (history : List BoardOp) :
    (((blank staleLimit moveLimit).after history).quotes.map Quote.market).Nodup ∧
      ∀ id, id ∈ ((blank staleLimit moveLimit).after history).quotes.map Quote.market ↔
        id ∈ (BoardOp.quotes history).map Quote.market := by
  induction history with
  | nil => exact ⟨List.nodup_nil, fun _ => Iff.rfl⟩
  | cons op rest ih =>
    cases op with
    | update q =>
      refine ⟨nodup_markets_store ih.1, fun id => ?_⟩
      rw [BoardOp.quotes, List.map_cons, List.mem_cons, ← ih.2]
      exact mem_markets_store
    | clear => exact ⟨List.nodup_nil, fun _ => Iff.rfl⟩

theorem size_after (history : List BoardOp) :
    ((blank staleLimit moveLimit).after history).size =
      ((BoardOp.quotes history).map Quote.market).toFinset.card := by
  obtain ⟨hnodup, hmem⟩ := @markets_after staleLimit moveLimit history
  have hsame : (((blank staleLimit moveLimit).after history).quotes.map Quote.market).toFinset =
      ((BoardOp.quotes history).map Quote.market).toFinset := by
    ext id
    rw [List.mem_toFinset, List.mem_toFinset]
    exact hmem id
  rw [← hsame, List.toFinset_card_of_nodup hnodup, List.length_map]
  rfl

theorem tell_signals (b : PriceBoard) (q : Quote) (previous : Option Quote) :
    (b.signals q previous).Tell b.staleLimit b.moveLimit previous q := by
  constructor
  case first =>
    rintro rfl
    rfl
  case stale =>
    rintro p rfl signal
    have hgap : q.time.toMillis - p.time.toMillis = p.time.millisBetween q.time := rfl
    simp only [signals, staleSignal?, hgap]
    split
    next hlt => simp [hlt, eq_comm]
    next hge => simp [hge]
  case move =>
    rintro p rfl signal
    simp only [signals, moveSignal?]
    split
    next hless => simp [hless, eq_comm]
    next hless => simp [hless]

/-- The signals of a quote are those of the quote of its instrument before it. -/
theorem update_after (history : List BoardOp) (q : Quote) :
    (((blank staleLimit moveLimit).after history).update q).1 =
      (blank staleLimit moveLimit).signals q (BoardOp.last? q.market history) := by
  obtain ⟨hstale, hmove⟩ := limits_after (blank staleLimit moveLimit) history
  have hlast := @last?_after staleLimit moveLimit q.market history
  simp only [update, signals, hstale, hmove, hlast]

/-- The signals of an instrument can be told from what concerns it. -/
theorem signalled_filter (id : Octets) (history : List BoardOp) :
    (blank staleLimit moveLimit).signalled id (history.filter (BoardOp.concerns id)) =
      (blank staleLimit moveLimit).signalled id history := by
  induction history with
  | nil => rfl
  | cons op rest ih =>
    cases op with
    | update q =>
      by_cases h : id = q.market
      · subst h
        rw [BoardOp.filter_update_self, signalled, signalled, if_pos rfl, if_pos rfl, ih, update_after, update_after,
          BoardOp.last?_filter]
      · rw [BoardOp.filter_update_of_ne h, signalled, if_neg h, ih]
    | clear =>
      rw [BoardOp.filter_clear]
      exact ih

theorem isStale_of_last? {b : PriceBoard} {q p : Quote} (h : b.last? q.market = some p) :
    b.isStale q.market b.staleLimit q.time = (b.update q).1.stale.isSome := by
  rw [isStale_of_known h, stale_of_known h]

/-- Whatever has been done with a board: it keeps the last quote of each instrument since it was last cleared,
as many as there are instruments among these quotes. What it signals of a quote follows from the quote of the
same instrument before it alone. Two histories that agree on what concerns an instrument give it the same
signals and the same last quote. Where an instrument is known, the signal of a gap is given just in case its
last quote is stale at the time of the new one. -/
theorem board_follows_history (staleLimit : Int) (moveLimit : Binary64) (history : List BoardOp) :
    (∀ id, ((blank staleLimit moveLimit).after history).last? id = BoardOp.last? id history) ∧
    ((blank staleLimit moveLimit).after history).size =
      ((BoardOp.quotes history).map Quote.market).toFinset.card ∧
    (∀ q, Signals.Tell staleLimit moveLimit (BoardOp.last? q.market history) q
      (((blank staleLimit moveLimit).after history).update q).1) ∧
    (∀ id other, history.filter (BoardOp.concerns id) = other.filter (BoardOp.concerns id) →
      (blank staleLimit moveLimit).signalled id history = (blank staleLimit moveLimit).signalled id other ∧
      ((blank staleLimit moveLimit).after history).last? id = ((blank staleLimit moveLimit).after other).last? id) ∧
    ∀ q p, BoardOp.last? q.market history = some p →
      (((blank staleLimit moveLimit).after history).update q).1.stale.isSome =
        ((blank staleLimit moveLimit).after history).isStale q.market staleLimit q.time := by
  refine ⟨fun id => last?_after id history, size_after history, fun q => ?_, fun id other h => ⟨?_, ?_⟩, fun q p h => ?_⟩
  · rw [update_after]
    exact tell_signals (blank staleLimit moveLimit) q _
  · rw [← signalled_filter id history, h, signalled_filter]
  · rw [last?_after, last?_after, ← BoardOp.last?_filter id history, h, BoardOp.last?_filter]
  · obtain ⟨hstale, -⟩ := limits_after (blank staleLimit moveLimit) history
    have hstale : ((blank staleLimit moveLimit).after history).staleLimit = staleLimit := hstale
    have hlast := isStale_of_last? (b := (blank staleLimit moveLimit).after history) ((last?_after _ _).trans h)
    rw [← hlast, hstale]

def earlyQuote : Quote :=
  { market := octets "A", price := .ofInt 7, time := .ofWrapped 0, volume := .ofInt 0, change := .ofInt 0 }

/-- A quote of the same instrument, 61 seconds later and after a change of minus six percent. -/
def lateQuote : Quote := { earlyQuote with time := .ofWrapped 61000000000, change := .ofInt (-6) }

def strangeQuote : Quote := { earlyQuote with market := octets "B" }

/-- A quote of another instrument comes between the two. -/
def mixedHistory : List BoardOp := [.update lateQuote, .update strangeQuote, .update earlyQuote]

/-- The quote of the other instrument comes first. -/
def sortedHistory : List BoardOp := [.update lateQuote, .update earlyQuote, .update strangeQuote]

theorem mixedHistory_signals : mixedHistory.filter (BoardOp.concerns earlyQuote.market) =
      sortedHistory.filter (BoardOp.concerns earlyQuote.market) ∧
    (blank 60000 (.ofInt 5)).signalled earlyQuote.market mixedHistory =
      (blank 60000 (.ofInt 5)).signalled earlyQuote.market sortedHistory ∧
    BoardOp.last? lateQuote.market mixedHistory.tail = some earlyQuote ∧
    (((blank 60000 (.ofInt 5)).after mixedHistory.tail).update lateQuote).1.stale.isSome =
      ((blank 60000 (.ofInt 5)).after mixedHistory.tail).isStale lateQuote.market 60000 lateQuote.time := by
  have hsame : mixedHistory.filter (BoardOp.concerns earlyQuote.market) =
      sortedHistory.filter (BoardOp.concerns earlyQuote.market) := by decide +kernel
  have hlast : BoardOp.last? lateQuote.market mixedHistory.tail = some earlyQuote := by decide +kernel
  obtain ⟨-, -, -, hfilter, -⟩ := board_follows_history 60000 (.ofInt 5) mixedHistory
  obtain ⟨-, -, -, -, hstale⟩ := board_follows_history 60000 (.ofInt 5) mixedHistory.tail
  exact ⟨hsame, (hfilter _ _ hsame).1, hlast, hstale _ _ hlast⟩

end PriceBoard

end QuoteFeed
