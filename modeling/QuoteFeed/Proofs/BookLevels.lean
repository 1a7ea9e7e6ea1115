import QuoteFeed.Proofs.FrameNumbers

/-!
The levels of order books. A level is a list that starts with two numbers, and whatever else a side holds is left
out; that is a list of exactly two numbers as long as no list of numbers goes on behind them.
-/

namespace QuoteFeed

namespace Message

/-- A level is two numbers. -/
def IsPair (item : Json) (level : Level) : Prop :=
  ∃ first second, item = .list [first, second] ∧ first.Denotes level.price ∧ second.Denotes level.size

/-- A level is two numbers with anything behind them. -/
def StartsWithPair (item : Json) (level : Level) : Prop :=
  ∃ first second more, item = .list (first :: second :: more) ∧ first.Denotes level.price ∧ second.Denotes level.size

/-- Two numbers with something behind them. -/
def Overlong (item : Json) : Prop :=
  ∃ first second third more price size, item = .list (first :: second :: third :: more) ∧
    first.Denotes price ∧ second.Denotes size

/-- Some levels are those of a list of documents, each in its place, and documents that are none are left out. -/
inductive Sifted (IsLevel : Json → Level → Prop) : List Json → List Level → Prop where
  | nil : Sifted IsLevel [] []
  | take {item : Json} {level : Level} {items : List Json} {levels : List Level} : IsLevel item level →
      Sifted IsLevel items levels → Sifted IsLevel (item :: items) (level :: levels)
  | skip {item : Json} {items : List Json} {levels : List Level} : (∀ level, ¬IsLevel item level) →
      Sifted IsLevel items levels → Sifted IsLevel (item :: items) levels

/-- The documents on one side of a book, of which there are none where the side is missing or no list. -/
inductive Offers (j : Json) (key : Octets) : List Json → Prop where
  | list {items : List Json} : j.member? key = some (.list items) → Offers j key items
  | other : (∀ items, j.member? key ≠ some (.list items)) → Offers j key []

theorem sifted_iff_filterMap {IsLevel : Json → Level → Prop} {f : Json → Option Level}
    (hf : ∀ item level, f item = some level ↔ IsLevel item level) {items : List Json} {levels : List Level} :
    Sifted IsLevel items levels ↔ levels = items.filterMap f := by
  constructor
  · intro h
    induction h with
    | nil => rfl
    | take hlevel _ ih => rw [List.filterMap_cons, (hf ..).mpr hlevel, ih]
    | @skip item _ _ hnone _ ih =>
      have hitem : f item = none := Option.eq_none_iff_forall_ne_some.mpr fun level hl => hnone level ((hf ..).mp hl)
      rw [List.filterMap_cons, hitem, ih]
  · rintro rfl
    induction items with
    | nil => exact .nil
    | cons item items ih =>
      rw [List.filterMap_cons]
      cases hitem : f item with
      | none =>
        refine .skip (fun level hl => ?_) ih
        rw [(hf ..).mpr hl] at hitem
        cases hitem
      | some level => exact .take ((hf ..).mp hitem) ih

theorem level?_eq_some_iff (item : Json) (level : Level) : level? item = some level ↔ StartsWithPair item level := by
  constructor
  · intro h
    unfold level? at h
    split at h
    next first second more =>
      obtain ⟨price, hprice, h⟩ := Option.bind_eq_some_iff.mp h
      obtain ⟨size, hsize, h⟩ := Option.bind_eq_some_iff.mp h
      obtain rfl := Option.some.inj h
      exact ⟨first, second, more, rfl, denotes_of_finiteNumber? hprice, denotes_of_finiteNumber? hsize⟩
    next => cases h
  · rintro ⟨first, second, more, rfl, hprice, hsize⟩
    rw [level?, finiteNumber?_of_denotes hprice, finiteNumber?_of_denotes hsize]
    rfl

/-- The level that a list of exactly two numbers is. -/
def pair? : Json → Option Level
  | .list [first, second] => level? (.list [first, second])
  | _ => none

theorem pair?_eq_some_iff (item : Json) (level : Level) : pair? item = some level ↔ IsPair item level := by
  constructor
  · intro h
    unfold pair? at h
    split at h
    next first second =>
      obtain ⟨_, _, more, hitem, hprice, hsize⟩ := (level?_eq_some_iff ..).mp h
      obtain ⟨rfl, rfl, rfl⟩ : first = _ ∧ second = _ ∧ [] = more := by simpa using hitem
      exact ⟨first, second, rfl, hprice, hsize⟩
    next => cases h
  · rintro ⟨first, second, rfl, hprice, hsize⟩
    exact (level?_eq_some_iff ..).mpr ⟨first, second, [], rfl, hprice, hsize⟩

theorem levels_sifted {j : Json} {key : Octets} {items : List Json} (h : Offers j key items) :
    Sifted StartsWithPair items (levels key j) := by
  rw [sifted_iff_filterMap level?_eq_some_iff, levels]
  cases h with
  | list hmember => rw [hmember]; rfl
  | other hother =>
    cases hmember : j.member? key with
    | none => rfl
    | some v =>
      cases v with
      | list items => exact absurd hmember (hother items)
      | _ => rfl

theorem pair?_of_not_overlong {item : Json} (h : ¬Overlong item) : pair? item = level? item := by
  cases hlevel : level? item with
  | none =>
    refine Option.eq_none_iff_forall_ne_some.mpr fun level hpair => ?_
    obtain ⟨first, second, rfl, hprice, hsize⟩ := (pair?_eq_some_iff ..).mp hpair
    rw [(level?_eq_some_iff ..).mpr ⟨first, second, [], rfl, hprice, hsize⟩] at hlevel
    cases hlevel
  | some level =>
    obtain ⟨first, second, more, rfl, hprice, hsize⟩ := (level?_eq_some_iff ..).mp hlevel
    cases more with
    | nil => exact hlevel
    | cons third more => exact absurd ⟨first, second, third, more, _, _, rfl, hprice, hsize⟩ h

theorem pair?_of_overlong {item : Json} (h : Overlong item) :
    pair? item = none ∧ ∃ level, level? item = some level := by
  obtain ⟨first, second, third, more, price, size, rfl, hprice, hsize⟩ := h
  exact ⟨rfl, ⟨price, size⟩, (level?_eq_some_iff ..).mpr ⟨first, second, third :: more, rfl, hprice, hsize⟩⟩

theorem length_pairs_le (items : List Json) : (items.filterMap pair?).length ≤ (items.filterMap level?).length := by
  induction items with
  | nil => rfl
  | cons item items ih =>
    by_cases hitem : Overlong item
    · obtain ⟨hpair, level, hlevel⟩ := pair?_of_overlong hitem
      rw [List.filterMap_cons, List.filterMap_cons, hpair, hlevel]
      exact Nat.le_succ_of_le ih
    · rw [List.filterMap_cons, List.filterMap_cons, pair?_of_not_overlong hitem]
      cases level? item with
      | none => exact ih
      | some level => exact Nat.succ_le_succ ih

/-- The levels are those of the pairs exactly if nothing is taken for a level that goes on behind two numbers. -/
theorem levels_eq_pairs_iff (items : List Json) :
    items.filterMap level? = items.filterMap pair? ↔ ∀ item ∈ items, ¬Overlong item := by
  constructor
  · intro h
    induction items with
    | nil => simp
    | cons item items ih =>
      by_cases hitem : Overlong item
      · -- a level more on the one side is not made up for by what follows
        obtain ⟨hpair, level, hlevel⟩ := pair?_of_overlong hitem
        rw [List.filterMap_cons_some hlevel, List.filterMap_cons_none hpair] at h
        have hlength := congrArg List.length h
        have hle := length_pairs_le items
        rw [List.length_cons] at hlength
        omega
      · have htail : items.filterMap level? = items.filterMap pair? := by
          rw [List.filterMap_cons, List.filterMap_cons, pair?_of_not_overlong hitem] at h
          cases hlevel : level? item with
          | none =>
            rw [hlevel] at h
            exact h
          | some level =>
            rw [hlevel] at h
            exact (List.cons.inj h).2
        rw [List.forall_mem_cons]
        exact ⟨hitem, ih htail⟩
  · intro h
    exact List.filterMap_congr fun item hmem => (pair?_of_not_overlong (h item hmem)).symm

theorem market_of_member {j : Json} {type name : Octets} (hmember : j.member? (octets "marketId") = some (.text name))
    (hne : name ≠ []) : market type j = .ok name := by
  obtain ⟨b, rest, rfl⟩ := List.exists_cons_of_ne_nil hne
  rw [market, hmember]
  rfl

theorem isObject_of_member {j v : Json} {key : Octets} (h : j.member? key = some v) : j.isObject = true := by
  cases j with
  | object members => rfl
  | _ => cases h

theorem ofJson_orderBook {j : Json} {arrival : Instant}
    (htype : j.member? (octets "type") = some (.text (octets "orderbook_update"))) :
    ofJson arrival j = (orderBookOf (octets "orderbook_update") arrival j).map orderBook := by
  have hprice : octets "orderbook_update" ≠ octets "price_update" := by decide +kernel
  have hread : typeOf j = octets "orderbook_update" := by
    rw [typeOf, htype]
    rfl
  simp [ofJson, isObject_of_member htype, hread, hprice]

/-- A frame of an order book always tells a book, whatever its sides hold. Each side is sifted in order, and what
starts with two numbers is a level, so the levels are the pairs of numbers just in case no list of either side
starts with two numbers and goes on. -/
theorem book_levels_exact_iff {j : Json} {arrival : Instant} {name : Octets} {bids asks : List Json}
    (htype : j.member? (octets "type") = some (.text (octets "orderbook_update")))
    (hmarket : j.member? (octets "marketId") = some (.text name)) (hne : name ≠ [])
    (hbids : Offers j (octets "bids") bids) (hasks : Offers j (octets "asks") asks) :
    ∃ book : OrderBook, ofJson arrival j = .ok (.orderBook book) ∧ book.market = name ∧ book.time = arrival ∧
      Sifted StartsWithPair bids book.bids ∧ Sifted StartsWithPair asks book.asks ∧
      (Sifted IsPair bids book.bids ∧ Sifted IsPair asks book.asks ↔ ∀ item ∈ bids ++ asks, ¬Overlong item) := by
  have hleft := levels_sifted hbids
  have hright := levels_sifted hasks
  refine ⟨⟨name, arrival, levels (octets "bids") j, levels (octets "asks") j⟩, ?_, rfl, rfl, hleft, hright, ?_⟩
  · rw [ofJson_orderBook htype, orderBookOf, market_of_member hmarket hne]
    rfl
  · rw [sifted_iff_filterMap level?_eq_some_iff] at hleft hright
    rw [sifted_iff_filterMap pair?_eq_some_iff, sifted_iff_filterMap pair?_eq_some_iff]
    dsimp only
    rw [hleft, hright, levels_eq_pairs_iff, levels_eq_pairs_iff, List.forall_mem_append]

/-- A frame of an order book for A with nothing asked. -/
def bookFrame (bids : List Json) : Json :=
  .object [(octets "bids", .list bids), (octets "marketId", .text (octets "A")),
    (octets "type", .text (octets "orderbook_update"))]

theorem bookFrame_members (bids : List Json) :
    (bookFrame bids).member? (octets "type") = some (.text (octets "orderbook_update")) ∧
      (bookFrame bids).member? (octets "marketId") = some (.text (octets "A")) ∧
      Offers (bookFrame bids) (octets "bids") bids ∧ Offers (bookFrame bids) (octets "asks") [] := by
  have hbids : octets "bids" ≠ octets "marketId" ∧ octets "bids" ≠ octets "type" ∧ octets "bids" ≠ octets "asks" := by
    decide +kernel
  have hrest : octets "marketId" ≠ octets "type" ∧ octets "marketId" ≠ octets "asks" ∧
      octets "type" ≠ octets "asks" := by decide +kernel
  refine ⟨?_, ?_, .list ?_, .other fun items => ?_⟩
  · simp [bookFrame, Json.member?, hbids, hrest]
  · simp [bookFrame, Json.member?, hbids]
  · simp [bookFrame, Json.member?]
  · simp [bookFrame, Json.member?, hbids, hrest]

/-- One level, and three documents that are none. -/
def mixedBids : List Json :=
  [.list [.real default, .text (octets "10")], .list [.unsigned 4], .text (octets "junk"),
    .list [.text (octets "x"), .unsigned 1]]

theorem mixedBids_exact : ∃ book : OrderBook, ofJson default (bookFrame mixedBids) = .ok (.orderBook book) ∧
    Sifted IsPair mixedBids book.bids ∧ book.bids.length = 1 := by
  obtain ⟨htype, hmarket, hbids, hasks⟩ := bookFrame_members mixedBids
  obtain ⟨book, hread, -, -, hleft, -, hexact⟩ :=
    @book_levels_exact_iff _ default _ _ _ htype hmarket (by decide +kernel) hbids hasks
  have hpairs : ∀ item ∈ mixedBids ++ [], ¬Overlong item := by
    rintro item hitem ⟨first, second, third, more, price, size, rfl, -⟩
    simp [mixedBids] at hitem
  refine ⟨book, hread, (hexact.mpr hpairs).1, ?_⟩
  rw [(sifted_iff_filterMap level?_eq_some_iff).mp hleft]
  decide +kernel

/-- A list of three numbers in front of a pair. -/
def longBids : List Json := [.list [.unsigned 1, .unsigned 2, .unsigned 3], .list [.unsigned 4, .unsigned 5]]

/-- A list of three numbers is taken for a level. -/
theorem longBids_not_exact : Offers (bookFrame longBids) (octets "bids") longBids ∧
    ∃ book : OrderBook, ofJson default (bookFrame longBids) = .ok (.orderBook book) ∧
      ¬Sifted IsPair longBids book.bids := by
  obtain ⟨htype, hmarket, hbids, -⟩ := bookFrame_members longBids
  refine ⟨hbids, ⟨octets "A", default, levels (octets "bids") (bookFrame longBids),
    levels (octets "asks") (bookFrame longBids)⟩, ?_, ?_⟩
  · rw [ofJson_orderBook htype, orderBookOf, market_of_member hmarket (by decide +kernel)]
    rfl
  · rw [(sifted_iff_filterMap level?_eq_some_iff).mp (levels_sifted hbids), sifted_iff_filterMap pair?_eq_some_iff]
    intro hsame
    have hlength := congrArg List.length hsame
    revert hlength
    decide +kernel

end Message

end QuoteFeed
