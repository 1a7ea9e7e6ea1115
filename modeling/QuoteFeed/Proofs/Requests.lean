import QuoteFeed.Client
import QuoteFeed.Proofs.Quoting

/-!
What the venue makes of the frames that a client sends: requests for instruments, and pings.
-/

namespace QuoteFeed

/-- What a frame asks the venue for. -/
inductive Request where
  | subscribe (id : Octets)
  | unsubscribe (id : Octets)
  | ping
deriving DecidableEq

namespace Request

def ofJson? (j : Json) : Option Request :=
  if Message.typeOf j = octets "ping" then some ping
  else do
    let id ← (j.member? (octets "marketId")).bind Json.text?
    if Message.typeOf j = octets "subscribe" then some (subscribe id)
    else if Message.typeOf j = octets "unsubscribe" then some (unsubscribe id)
    else none

def ofFrame? (frame : Octets) : Option Request := (Json.read frame).toOption.bind ofJson?

/-- The ids that are asked for after a request. -/
def apply : Request → List Octets → List Octets
  | subscribe id, ids => ids ++ [id]
  | unsubscribe id, ids => ids.erase id
  | ping, ids => ids

end Request

namespace Watchlist

variable {type id frame : Octets}

/-- The members of the frame about an instrument, in the order in which they are written. -/
def marketMembers (type id : Octets) : List (Octets × Octets) :=
  [(octets "channel", octets "market"), (octets "marketId", id), (octets "type", type)]

theorem marketFrame_eq : marketFrame type id = (Json.object (Json.texts (marketMembers type id))).write := rfl

/-- The frame about an instrument with a well-formed id is written in a form that reads as it was meant. -/
theorem marketFrame_read (ht : Utf8.wellFormed type = true) (hid : Utf8.wellFormed id = true) :
    ∃ frame, marketFrame type id = .ok frame ∧
      Json.read frame = .ok (.object (Json.texts (marketMembers type id))) := by
  have hne : marketMembers type id ≠ [] := by simp [marketMembers]
  refine Json.read_object hne ?_ rfl
  intro m hm
  simp only [marketMembers, List.mem_cons, List.not_mem_nil, or_false] at hm
  rcases hm with rfl | rfl | rfl
  · exact ⟨rfl, rfl⟩
  · exact ⟨rfl, hid⟩
  · exact ⟨rfl, ht⟩

/-- There is no frame about an instrument whose id is ill-formed. -/
theorem marketFrame_error (hid : Utf8.wellFormed id = false) : marketFrame type id = .error .wrongType := by
  have hm : Json.writeMember (octets "marketId", .text id) = .error .wrongType := by
    simp only [Json.writeMember, Json.write, Json.writeText, hid, Bool.false_eq_true, if_false]
    rfl
  have hrest : Json.writeMembers (Json.texts [(octets "marketId", id), (octets "type", type)]) = .error .wrongType := by
    change (do pure ((← Json.writeMember (octets "marketId", .text id)) ++ Ascii.comma ::
      (← Json.writeMembers (Json.texts [(octets "type", type)])))) = _
    rw [hm]
    rfl
  have hall : Json.writeMembers (Json.texts (marketMembers type id)) = .error .wrongType := by
    change (do pure ((← Json.writeMember (octets "channel", .text (octets "market"))) ++ Ascii.comma ::
      (← Json.writeMembers (Json.texts [(octets "marketId", id), (octets "type", type)])))) = _
    rw [hrest]
    rfl
  rw [marketFrame_eq]
  change (do pure (Ascii.openBrace :: (← Json.writeMembers (Json.texts (marketMembers type id))) ++
    [Ascii.closeBrace])) = _
  rw [hall]
  rfl

theorem read_of_marketFrame (ht : Utf8.wellFormed type = true) (h : marketFrame type id = .ok frame) :
    Utf8.wellFormed id = true ∧ Json.read frame = .ok (.object (Json.texts (marketMembers type id))) := by
  cases hid : Utf8.wellFormed id with
  | true =>
    obtain ⟨frame', hf, hr⟩ := marketFrame_read ht hid
    obtain rfl : frame' = frame := Except.ok.inj (hf.symm.trans h)
    exact ⟨rfl, hr⟩
  | false => exact nomatch (marketFrame_error hid).symm.trans h

theorem exists_marketFrame_error_iff (ht : Utf8.wellFormed type = true) :
    (∃ e, marketFrame type id = .error e) ↔ Utf8.wellFormed id = false := by
  constructor
  · rintro ⟨e, he⟩
    cases hid : Utf8.wellFormed id with
    | true =>
      obtain ⟨frame, hf, _⟩ := marketFrame_read ht hid
      exact nomatch hf.symm.trans he
    | false => rfl
  · exact fun hid => ⟨.wrongType, marketFrame_error hid⟩

/-- A frame that asks for an instrument is taken as a request for it. -/
theorem ofFrame_subscribeFrame (h : subscribeFrame id = .ok frame) : Request.ofFrame? frame = some (.subscribe id) := by
  have hr := (read_of_marketFrame rfl h).2
  unfold Request.ofFrame?
  rw [hr]
  rfl

theorem ofFrame_unsubscribeFrame (h : unsubscribeFrame id = .ok frame) :
    Request.ofFrame? frame = some (.unsubscribe id) := by
  have hr := (read_of_marketFrame rfl h).2
  unfold Request.ofFrame?
  rw [hr]
  rfl

theorem mapM_cons_ok {α β ε : Type} {f : α → Except ε β} {a : α} {as : List α} {r : List β}
    (h : (a :: as).mapM f = .ok r) : ∃ b bs, f a = .ok b ∧ as.mapM f = .ok bs ∧ r = b :: bs := by
  rw [List.mapM_cons] at h
  cases hb : f a with
  | error e => simp [hb, bind, Except.bind] at h
  | ok b =>
    cases hbs : as.mapM f with
    | error e => simp [hb, hbs, bind, Except.bind] at h
    | ok bs =>
      refine ⟨b, bs, rfl, rfl, ?_⟩
      simpa [hb, hbs, bind, Except.bind, pure, Except.pure] using h.symm

theorem exists_mapM_error_iff {α β ε : Type} {f : α → Except ε β} {as : List α} :
    (∃ e, as.mapM f = .error e) ↔ ∃ a ∈ as, ∃ e, f a = .error e := by
  induction as with
  | nil => simp [pure, Except.pure]
  | cons a as ih =>
    rw [List.mapM_cons]
    cases hb : f a with
    | error e => simp [hb, bind, Except.bind]
    | ok b =>
      cases hbs : as.mapM f with
      | error e => simp [hb, bind, Except.bind, ← ih, hbs]
      | ok bs => simp [hb, bind, Except.bind, pure, Except.pure, ← ih, hbs]

/-- A replay has no frames exactly if an instrument has none. -/
theorem exists_replayFrames_error_iff {l : Watchlist} :
    (∃ e, l.replayFrames = .error e) ↔ ∃ id ∈ l.ids, Utf8.wellFormed id = false := by
  unfold replayFrames
  rw [exists_mapM_error_iff]
  constructor
  · rintro ⟨id, hid, he⟩
    exact ⟨id, hid, (exists_marketFrame_error_iff rfl).mp he⟩
  · rintro ⟨id, hid, hn⟩
    exact ⟨id, hid, (exists_marketFrame_error_iff rfl).mpr hn⟩

theorem ids_add {l : Watchlist} (h : id ∉ l.ids) : (l.add id).2.ids = l.ids ++ [id] := by
  simp [add, h]

theorem withdraw_of_mem {l : Watchlist} {name : Naming} (h : name.read l ∈ l.ids) :
    l.withdraw name = (true, (l.withdraw name).2) := by
  simp [withdraw, remove, contains, h]

theorem withdraw_of_not_mem {l : Watchlist} {name : Naming} (h : name.read l ∉ l.ids) :
    (l.withdraw name).1 = false := by
  simp [withdraw, remove, contains, h]

end Watchlist

theorem ping_written : Message.ping = .ok (octets "\x7b\"type\":\"ping\"\x7d") := by
  rfl

end QuoteFeed
