import QuoteFeed.PriceBoard

/-!
What the board keeps: the last quote of each instrument, under the instrument's own id.
-/

namespace QuoteFeed

namespace PriceBoard

variable {q : Quote} {id : Octets}

theorem find?_store (quotes : List Quote) :
    (store q quotes).find? (fun p => p.market = id) =
      if id = q.market then some q else quotes.find? fun p => p.market = id := by
  induction quotes with
  | nil =>
    by_cases hq : q.market = id
    · simp [store, hq]
    · simp [store, hq, Ne.symm hq]
  | cons p rest ih =>
    by_cases hp : p.market = q.market
    · simp only [store, hp, if_true, List.find?_cons]
      by_cases hq : q.market = id
      · simp [hq]
      · simp [hq, Ne.symm hq]
    · simp only [store, hp, if_false, List.find?_cons, ih]
      by_cases hpid : p.market = id
      · have hne : id ≠ q.market := fun h => hp (hpid.trans h)
        simp [hpid, hne]
      · simp [hpid]

/-- A quote takes the place of the last one of its instrument, and of no other. -/
theorem last?_update (b : PriceBoard) :
    (b.update q).2.last? id = if id = q.market then some q else b.last? id :=
  find?_store b.quotes

theorem isStale_of_known {b : PriceBoard} {limit : Int} {now : Instant} (h : b.last? id = some q) :
    b.isStale id limit now = decide (limit < q.time.millisBetween now) := by
  rw [isStale, h]

theorem isStale_of_unknown {b : PriceBoard} {limit : Int} {now : Instant} (h : b.last? id = none) :
    b.isStale id limit now = true := by
  rw [isStale, h]

theorem stale_of_known {b : PriceBoard} {p : Quote} (h : b.last? p.market = some q) :
    (b.update p).1.stale.isSome = decide (b.staleLimit < q.time.millisBetween p.time) := by
  simp only [update, signals, h, staleSignal?]
  by_cases hgap : b.staleLimit < q.time.millisBetween p.time
  · simp only [hgap, if_true, Option.isSome_some, decide_true]
  · simp only [hgap, if_false, Option.isSome_none, decide_false]

theorem markets_store (quotes : List Quote) :
    (store q quotes).map Quote.market =
      if q.market ∈ quotes.map Quote.market then quotes.map Quote.market
      else quotes.map Quote.market ++ [q.market] := by
  induction quotes with
  | nil => simp [store]
  | cons p rest ih =>
    by_cases hp : p.market = q.market
    · simp [store, hp]
    · simp only [store, hp, if_false, List.map_cons, ih, List.mem_cons, Ne.symm hp, false_or]
      split <;> rfl

theorem mem_markets_store {quotes : List Quote} :
    id ∈ (store q quotes).map Quote.market ↔ id = q.market ∨ id ∈ quotes.map Quote.market := by
  rw [markets_store]
  split
  next hin => exact ⟨.inr, fun h => h.elim (fun he => he ▸ hin) fun h => h⟩
  next => rw [List.mem_append, List.mem_singleton, or_comm]

theorem nodup_markets_store {quotes : List Quote} (h : (quotes.map Quote.market).Nodup) :
    ((store q quotes).map Quote.market).Nodup := by
  rw [markets_store]
  split
  next => exact h
  next hin =>
    refine List.nodup_append.mpr ⟨h, by simp, ?_⟩
    rintro id hid _ hq rfl
    exact hin (List.mem_singleton.mp hq ▸ hid)

/-- One quote is kept of each instrument, and every instrument has a name. -/
structure Keyed (b : PriceBoard) : Prop where
  nodup : (b.quotes.map Quote.market).Nodup
  named : [] ∉ b.quotes.map Quote.market

theorem keyed_clear (b : PriceBoard) : b.clear.Keyed := ⟨List.nodup_nil, List.not_mem_nil⟩

theorem Keyed.update {b : PriceBoard} (h : b.Keyed) (hq : q.market ≠ []) : (b.update q).2.Keyed where
  nodup := nodup_markets_store h.nodup
  named hnil := (mem_markets_store.mp hnil).elim (fun he => hq he.symm) h.named

end PriceBoard

end QuoteFeed
