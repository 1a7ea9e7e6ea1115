import QuoteFeed.Proofs.Requests
import Mathlib.Data.List.Forall2
import Mathlib.Data.List.Nodup

/-!
The instruments that are wanted after any additions and removals: those whose last addition has not been undone, in
the order of the additions that made them wanted. A replay asks for each of them once, in this order, and no two
instruments have the same frame.
-/

namespace QuoteFeed

/-- Something that is done with a watchlist. -/
inductive WatchDeed where
  | add (id : Octets)
  | remove (id : Octets)
  | clear
deriving DecidableEq

def WatchDeed.apply : WatchDeed → Watchlist → Watchlist
  | add id, w => (w.add id).2
  | remove id, w => (w.remove id).2
  | clear, _ => .empty

namespace Watchlist

/-- The watchlist after some deeds, of which the last one comes first. -/
def after : List WatchDeed → Watchlist
  | [] => .empty
  | d :: earlier => d.apply (after earlier)

/-- An id has been added and neither removed nor cleared away since. -/
def IsWanted (id : Octets) (deeds : List WatchDeed) : Prop :=
  ∃ later earlier, deeds = later ++ .add id :: earlier ∧ .remove id ∉ later ∧ .clear ∉ later

/-- An addition of an id has told that the id is new; its time is how many deeds came before it. -/
def AddedAt (deeds : List WatchDeed) (id : Octets) (time : Nat) : Prop :=
  ∃ later earlier, deeds = later ++ .add id :: earlier ∧ earlier.length = time ∧ ((after earlier).add id).1 = true

/-- The last such addition. -/
def LastAddedAt (deeds : List WatchDeed) (id : Octets) (time : Nat) : Prop :=
  AddedAt deeds id time ∧ ∀ other, AddedAt deeds id other → other ≤ time

variable {w : Watchlist} {deeds earlier : List WatchDeed} {d : WatchDeed} {id other frame : Octets} {time : Nat}

/-! ### One deed -/

theorem add_eq_of_mem (h : id ∈ w.ids) : w.add id = (false, w) := by
  rw [add, dif_pos h]

theorem add_isNew_iff : (w.add id).1 = true ↔ id ∉ w.ids := by
  by_cases h : id ∈ w.ids
  · simp [add_eq_of_mem h, h]
  · simp [add, h]

theorem remove_wasThere_iff : (w.remove id).1 = true ↔ id ∈ w.ids := List.contains_iff_mem

theorem ids_remove : (w.remove id).2.ids = w.ids.filter fun other => other ≠ id := by
  have herase : (w.remove id).2.ids = w.ids.erase id := rfl
  rw [herase, w.nodup.erase_eq_filter]
  refine List.filter_congr fun other _ => ?_
  by_cases hother : other = id <;> simp [hother]

theorem mem_add_iff : other ∈ (w.add id).2.ids ↔ other = id ∨ other ∈ w.ids := by
  by_cases h : id ∈ w.ids
  · rw [add_eq_of_mem h]
    exact ⟨.inr, fun hother => hother.elim (fun he => he ▸ h) fun hmem => hmem⟩
  · rw [ids_add h, List.mem_append, List.mem_singleton, or_comm]

theorem mem_remove_iff : other ∈ (w.remove id).2.ids ↔ other ≠ id ∧ other ∈ w.ids := by
  rw [ids_remove, List.mem_filter, decide_eq_true_eq, and_comm]

/-- An addition changes the set exactly if it says that the id is new. -/
theorem add_changes_iff : (w.add id).1 = true ↔ ¬∀ other, other ∈ (w.add id).2.ids ↔ other ∈ w.ids := by
  rw [add_isNew_iff]
  constructor
  · exact fun hnew hsame => hnew ((hsame id).mp (mem_add_iff.mpr (.inl rfl)))
  · intro hchanges hmem
    rw [add_eq_of_mem hmem] at hchanges
    exact hchanges fun _ => Iff.rfl

/-- A removal changes the set exactly if it says that the id was there. -/
theorem remove_changes_iff : (w.remove id).1 = true ↔ ¬∀ other, other ∈ (w.remove id).2.ids ↔ other ∈ w.ids := by
  rw [remove_wasThere_iff]
  constructor
  · exact fun hmem hsame => (mem_remove_iff.mp ((hsame id).mpr hmem)).1 rfl
  · intro hchanges
    by_contra hno
    refine hchanges fun other => mem_remove_iff.trans ⟨And.right, fun hother => ⟨?_, hother⟩⟩
    rintro rfl
    exact hno hother

/-! ### Many deeds -/

theorem isWanted_cons :
    IsWanted id (d :: deeds) ↔ d = .add id ∨ (d ≠ .remove id ∧ d ≠ .clear) ∧ IsWanted id deeds := by
  constructor
  · rintro ⟨_ | ⟨d', later⟩, earlier, h, hremove, hclear⟩
    · exact .inl (List.cons.inj h).1
    · obtain ⟨rfl, rfl⟩ := List.cons.inj h
      obtain ⟨hd, hremove⟩ := not_or.mp (mt List.mem_cons.mpr hremove)
      obtain ⟨hd', hclear⟩ := not_or.mp (mt List.mem_cons.mpr hclear)
      exact .inr ⟨⟨Ne.symm hd, Ne.symm hd'⟩, later, earlier, rfl, hremove, hclear⟩
  · rintro (rfl | ⟨⟨hd, hd'⟩, later, earlier, rfl, hremove, hclear⟩)
    · exact ⟨[], deeds, rfl, List.not_mem_nil, List.not_mem_nil⟩
    · refine ⟨d :: later, earlier, rfl, fun h => ?_, fun h => ?_⟩
      · exact (List.mem_cons.mp h).elim (fun he => hd he.symm) hremove
      · exact (List.mem_cons.mp h).elim (fun he => hd' he.symm) hclear

theorem mem_after_iff (deeds : List WatchDeed) (id : Octets) : id ∈ (after deeds).ids ↔ IsWanted id deeds := by
  induction deeds with
  | nil =>
    refine ⟨fun h => absurd h List.not_mem_nil, fun ⟨later, earlier, h, _⟩ => ?_⟩
    exact absurd h.symm (by simp)
  | cons d deeds ih =>
    rw [isWanted_cons, ← ih]
    cases d with
    | add other => exact mem_add_iff.trans (by simp [eq_comm])
    | remove other => exact mem_remove_iff.trans (by simp [eq_comm])
    | clear =>
      refine ⟨fun h => absurd h List.not_mem_nil, ?_⟩
      rintro (h | ⟨⟨-, h⟩, -⟩)
      · cases h
      · exact absurd rfl h

theorem addedAt_cons : AddedAt (d :: deeds) id time ↔
    (d = .add id ∧ deeds.length = time ∧ id ∉ (after deeds).ids) ∨ AddedAt deeds id time := by
  constructor
  · rintro ⟨_ | ⟨d', later⟩, earlier, h, htime, hnew⟩
    · obtain ⟨rfl, rfl⟩ := List.cons.inj h
      exact .inl ⟨rfl, htime, add_isNew_iff.mp hnew⟩
    · exact .inr ⟨later, earlier, (List.cons.inj h).2, htime, hnew⟩
  · rintro (⟨rfl, htime, hnew⟩ | ⟨later, earlier, rfl, htime, hnew⟩)
    · exact ⟨[], deeds, rfl, htime, add_isNew_iff.mpr hnew⟩
    · exact ⟨d :: later, earlier, rfl, htime, hnew⟩

theorem AddedAt.time_lt (h : AddedAt deeds id time) : time < deeds.length := by
  obtain ⟨later, earlier, rfl, rfl, -⟩ := h
  rw [List.length_append, List.length_cons]
  omega

/-- A deed that does not add the id anew leaves the time of its last addition. -/
theorem LastAddedAt.keep (h : LastAddedAt deeds id time) (hd : d = .add id → id ∈ (after deeds).ids) :
    LastAddedAt (d :: deeds) id time := by
  refine ⟨addedAt_cons.mpr (.inr h.1), fun other hother => ?_⟩
  rcases addedAt_cons.mp hother with ⟨hadds, -, hnew⟩ | hother
  · exact absurd (hd hadds) hnew
  · exact h.2 other hother

theorem lastAddedAt_of_new (hnew : id ∉ (after deeds).ids) : LastAddedAt (.add id :: deeds) id deeds.length := by
  refine ⟨addedAt_cons.mpr (.inl ⟨rfl, rfl, hnew⟩), fun other hother => ?_⟩
  rcases addedAt_cons.mp hother with ⟨-, htime, -⟩ | hother
  · exact Nat.le_of_eq htime.symm
  · exact Nat.le_of_lt hother.time_lt

theorem exists_lastAddedAt (deeds : List WatchDeed) :
    ∀ id ∈ (after deeds).ids, ∃ time, LastAddedAt deeds id time := by
  induction deeds with
  | nil => exact fun id h => absurd h List.not_mem_nil
  | cons d deeds ih =>
    intro id hid
    by_cases hold : id ∈ (after deeds).ids
    · obtain ⟨time, htime⟩ := ih id hold
      exact ⟨time, htime.keep fun _ => hold⟩
    · cases d with
      | add other =>
        obtain rfl | hmem := mem_add_iff.mp hid
        · exact ⟨_, lastAddedAt_of_new hold⟩
        · exact absurd hmem hold
      | remove other => exact absurd (mem_remove_iff.mp hid).2 hold
      | clear => exact absurd hid List.not_mem_nil

/-- The order of the list is that of the last additions that told of a new id. -/
theorem pairwise_after (deeds : List WatchDeed) : (after deeds).ids.Pairwise fun id other =>
    ∃ time later, LastAddedAt deeds id time ∧ LastAddedAt deeds other later ∧ time < later := by
  induction deeds with
  | nil => exact .nil
  | cons d deeds ih =>
    -- as long as both stay, nothing moves them
    have hkept : (after deeds).ids.Pairwise fun id other =>
        ∃ time later, LastAddedAt (d :: deeds) id time ∧ LastAddedAt (d :: deeds) other later ∧ time < later := by
      refine ih.imp_of_mem fun hid hother ⟨time, later, htime, hlater, hless⟩ => ?_
      exact ⟨time, later, htime.keep fun _ => hid, hlater.keep fun _ => hother, hless⟩
    cases d with
    | add id =>
      by_cases hold : id ∈ (after deeds).ids
      · rwa [after, WatchDeed.apply, add_eq_of_mem hold]
      · rw [after, WatchDeed.apply, ids_add hold]
        refine List.pairwise_append.mpr ⟨hkept, List.pairwise_singleton _ _, fun other hother new hnew => ?_⟩
        obtain rfl := List.mem_singleton.mp hnew
        obtain ⟨time, htime⟩ := exists_lastAddedAt deeds other hother
        exact ⟨time, deeds.length, htime.keep fun _ => hother, lastAddedAt_of_new hold, htime.1.time_lt⟩
    | remove id =>
      rw [after, WatchDeed.apply, ids_remove]
      exact hkept.filter _
    | clear => exact .nil

/-! ### Frames -/

/-- Frames that ask for different instruments differ. -/
theorem id_eq_of_subscribeFrame (h : subscribeFrame id = .ok frame) (h' : subscribeFrame other = .ok frame) :
    id = other := by
  have hsame : some (Request.subscribe id) = some (.subscribe other) :=
    (ofFrame_subscribeFrame h).symm.trans (ofFrame_subscribeFrame h')
  exact Request.subscribe.inj (Option.some.inj hsame)

theorem subscribeFrame_ne_unsubscribeFrame (h : subscribeFrame id = .ok frame) : unsubscribeFrame other ≠ .ok frame := by
  intro h'
  have hsame : some (Request.subscribe id) = some (.unsubscribe other) :=
    (ofFrame_subscribeFrame h).symm.trans (ofFrame_unsubscribeFrame h')
  cases hsame

theorem forall₂_of_mapM {α β ε : Type} {f : α → Except ε β} {as : List α} {bs : List β} (h : as.mapM f = .ok bs) :
    List.Forall₂ (fun a b => f a = .ok b) as bs := by
  induction as generalizing bs with
  | nil =>
    cases h
    exact .nil
  | cons a as ih =>
    obtain ⟨b, rest, hb, hrest, rfl⟩ := mapM_cons_ok h
    exact .cons hb (ih hrest)

/-- A replay of well-formed ids has one frame for each, in order, and no frame twice. -/
theorem exists_replayFrames (h : ∀ id ∈ w.ids, Utf8.wellFormed id = true) : ∃ frames, w.replayFrames = .ok frames ∧
    List.Forall₂ (fun id frame => subscribeFrame id = .ok frame) w.ids frames ∧ frames.Nodup := by
  cases hframes : w.replayFrames with
  | error e =>
    obtain ⟨id, hid, hill⟩ := exists_replayFrames_error_iff.mp ⟨e, hframes⟩
    exact Bool.noConfusion ((h id hid).symm.trans hill)
  | ok frames =>
    have hall : List.Forall₂ (fun id frame => subscribeFrame id = .ok frame) w.ids frames := forall₂_of_mapM hframes
    refine ⟨frames, rfl, hall, (List.rel_nodup ⟨?_, ?_⟩ hall).mp w.nodup⟩
    · exact fun _ _ _ hid hother => id_eq_of_subscribeFrame hid hother
    · exact fun _ _ _ hframe hother => Except.ok.inj (hframe.symm.trans hother)

/-- After any additions and removals, of which the last one comes first: no id is on the list twice, and an id is on
it exactly if it has been added and neither removed nor cleared away since. The order is that of the last additions
that told of a new id, so that adding an id again does not move it, removing and adding it moves it to the end, and
removing it leaves the others in their order. Additions and removals tell whether they change the set. If all ids are
well-formed, a replay has one frame for each, in order; frames that ask for different instruments differ, and none of
them gives an instrument up. -/
theorem desired_in_order (deeds : List WatchDeed) :
    (after deeds).ids.Nodup ∧
    (∀ id, id ∈ (after deeds).ids ↔ IsWanted id deeds) ∧
    (∀ id ∈ (after deeds).ids, ∃ time, LastAddedAt deeds id time) ∧
    ((after deeds).ids.Pairwise fun id other =>
      ∃ time later, LastAddedAt deeds id time ∧ LastAddedAt deeds other later ∧ time < later) ∧
    (∀ id ∈ (after deeds).ids, (after (.add id :: deeds)).ids = (after deeds).ids) ∧
    (∀ id, (after (.add id :: .remove id :: deeds)).ids = ((after deeds).ids.filter fun other => other ≠ id) ++ [id]) ∧
    (∀ id, (after (.remove id :: deeds)).ids = (after deeds).ids.filter fun other => other ≠ id) ∧
    (∀ id, ((after deeds).add id).1 = true ↔
      ¬∀ other, other ∈ (after (.add id :: deeds)).ids ↔ other ∈ (after deeds).ids) ∧
    (∀ id, ((after deeds).remove id).1 = true ↔
      ¬∀ other, other ∈ (after (.remove id :: deeds)).ids ↔ other ∈ (after deeds).ids) ∧
    ((∀ id ∈ (after deeds).ids, Utf8.wellFormed id = true) → ∃ frames, (after deeds).replayFrames = .ok frames ∧
      List.Forall₂ (fun id frame => subscribeFrame id = .ok frame) (after deeds).ids frames ∧ frames.Nodup) ∧
    (∀ id other frame, subscribeFrame id = .ok frame → subscribeFrame other = .ok frame → id = other) ∧
    ∀ id other frame, subscribeFrame id = .ok frame → unsubscribeFrame other ≠ .ok frame := by
  refine ⟨(after deeds).nodup, mem_after_iff deeds, exists_lastAddedAt deeds, pairwise_after deeds, fun id hid => ?_,
    fun id => ?_, fun id => ids_remove, fun id => add_changes_iff, fun id => remove_changes_iff, exists_replayFrames,
    fun _ _ _ => id_eq_of_subscribeFrame, fun _ _ _ => subscribeFrame_ne_unsubscribeFrame⟩
  · rw [after, WatchDeed.apply, add_eq_of_mem hid]
  · have hgone : id ∉ (after (.remove id :: deeds)).ids := fun h => (mem_remove_iff.mp h).1 rfl
    rw [after, WatchDeed.apply, ids_add hgone]
    exact congrArg (· ++ [id]) ids_remove

/-- Two ids, of which the first has been removed and added again. -/
def movedDeeds : List WatchDeed :=
  [.add (octets "A"), .remove (octets "A"), .add (octets "B"), .add (octets "A")]

theorem movedDeeds_in_order : (after movedDeeds).ids = [octets "B", octets "A"] ∧
    (∃ time later, LastAddedAt movedDeeds (octets "B") time ∧ LastAddedAt movedDeeds (octets "A") later ∧ time < later) ∧
    (after (.add (octets "B") :: movedDeeds)).ids = [octets "B", octets "A"] ∧
    (∃ frames, (after movedDeeds).replayFrames = .ok frames ∧ frames.length = 2 ∧ frames.Nodup) ∧
    ∃ frame, subscribeFrame (octets "A") = .ok frame ∧ unsubscribeFrame (octets "A") ≠ .ok frame := by
  obtain ⟨-, -, -, hordered, hagain, -, -, -, -, hreplay, -, hdiffer⟩ := desired_in_order movedDeeds
  have hids : (after movedDeeds).ids = [octets "B", octets "A"] := by decide +kernel
  have hformed : ∀ id ∈ (after movedDeeds).ids, Utf8.wellFormed id = true := by rw [hids]; decide +kernel
  obtain ⟨frames, hframes, hall, hnodup⟩ := hreplay hformed
  rw [hids] at hordered
  have hframe : subscribeFrame (octets "A") =
      .ok (octets "\x7b\"channel\":\"market\",\"marketId\":\"A\",\"type\":\"subscribe\"\x7d") := by rfl
  refine ⟨hids, (List.pairwise_cons.mp hordered).1 _ List.mem_cons_self, ?_, ⟨frames, hframes, ?_, hnodup⟩, _, hframe,
    hdiffer _ _ _ hframe⟩
  · rw [hagain _ (by rw [hids]; exact List.mem_cons_self), hids]
  · rw [← hall.length_eq, hids]
    rfl

end Watchlist

end QuoteFeed
