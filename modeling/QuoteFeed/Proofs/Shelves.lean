import QuoteFeed.Proofs.Registrations
import Mathlib.Data.List.Nodup
import Mathlib.Logic.Function.Basic

/-!
Handlers on shelves. A bus can also be kept as a list of slots for each kind. Slots are shared with the deliveries in
progress then, and a flag in each of them tells these whether it is still registered. Whatever is done with the
handlers, the shelves hold the numbers that the bus holds, and the flags tell what the bus would find.
-/

namespace QuoteFeed

theorem EventKind.mem_all (kind : EventKind) : kind ∈ all := by cases kind <;> decide

/-- A slot as shelves and deliveries share it. -/
structure SharedSlot where
  id : Nat
  active : Bool := true
deriving DecidableEq

/-- The slots in the order in which they have been made, the places among them of the registered ones of each kind, and
the next number to hand out. -/
structure Shelves where
  slots : List SharedSlot := []
  places : EventKind → List Nat := fun _ => []
  nextId : Nat := 1

namespace Shelves

def idAt? (s : Shelves) (place : Nat) : Option Nat := s.slots[place]?.map SharedSlot.id

def activeAt (slots : List SharedSlot) (place : Nat) : Bool := slots[place]?.any SharedSlot.active

/-- The numbers on the shelf of a kind. -/
def ids (s : Shelves) (kind : EventKind) : List Nat := (s.places kind).filterMap s.idAt?

def on (s : Shelves) (kind : EventKind) : Nat × Shelves :=
  (s.nextId, {
    slots := s.slots ++ [{ id := s.nextId }]
    places := Function.update s.places kind (s.places kind ++ [s.slots.length])
    nextId := s.nextId + 1 })

def deactivate (place : Nat) (slots : List SharedSlot) : List SharedSlot :=
  slots.modify place fun slot => { slot with active := false }

/-- The first shelf on which there is a slot of a number, and its place. -/
def find? (s : Shelves) (id : Nat) : Option (EventKind × Nat) :=
  EventKind.all.findSome? fun kind =>
    ((s.places kind).find? fun place => s.idAt? place = some id).map fun place => (kind, place)

/-- Takes the slot at a place off its shelf, and lets deliveries know. -/
def remove (s : Shelves) (kind : EventKind) (place : Nat) : Shelves :=
  { s with
    slots := deactivate place s.slots
    places := Function.update s.places kind ((s.places kind).erase place) }

def off (s : Shelves) (id : Nat) : Bool × Shelves :=
  match s.find? id with
  | some (kind, place) => (true, s.remove kind place)
  | none => (false, s)

def clear (s : Shelves) : Shelves :=
  { s with
    slots := (EventKind.all.flatMap s.places).foldl (fun slots place => deactivate place slots) s.slots
    places := fun _ => [] }

def perform (s : Shelves) : BusDeed → Shelves
  | .on _ kind => (s.on kind).2
  | .off id => (s.off id).2
  | .clear => s.clear

/-- The shelves after some deeds, of which the last one comes first. -/
def after (deeds : List BusDeed) : Shelves := deeds.foldr (fun d s => s.perform d) {}

variable {β : Type} {s : Shelves} {b : Bus β} {slots : List SharedSlot} {id place other : Nat} {kind : EventKind}
  {life : List BusDeed}

/-! ### Flags -/

theorem activeAt_deactivate : activeAt (deactivate place slots) other = (activeAt slots other && other ≠ place) := by
  unfold activeAt deactivate
  rw [List.getElem?_modify]
  by_cases h : place = other
  · subst h
    cases slots[place]? <;> simp
  · cases slots[other]? <;> simp [h, Ne.symm h]

@[simp] theorem map_id_deactivate : (deactivate place slots).map SharedSlot.id = slots.map SharedSlot.id := by
  apply List.ext_getElem?
  intro other
  unfold deactivate
  rw [List.getElem?_map, List.getElem?_map, List.getElem?_modify]
  cases slots[other]? with
  | none => rfl
  | some slot => by_cases h : place = other <;> simp [h]

theorem activeAt_foldl (places : List Nat) :
    activeAt (places.foldl (fun slots place => deactivate place slots) slots) other =
      (activeAt slots other && other ∉ places) := by
  induction places generalizing slots with
  | nil => simp
  | cons place rest ih =>
    rw [List.foldl_cons, ih, activeAt_deactivate]
    simp only [List.mem_cons, not_or, Bool.decide_and, Bool.and_assoc, ne_eq]

@[simp] theorem map_id_foldl (places : List Nat) :
    (places.foldl (fun slots place => deactivate place slots) slots).map SharedSlot.id = slots.map SharedSlot.id := by
  induction places generalizing slots with
  | nil => rfl
  | cons place rest ih => rw [List.foldl_cons, ih, map_id_deactivate]

/-! ### Shelves and bus -/

/-- The shelves hold what the bus holds. Slots have their numbers in the order in which they have been made, and those
with a flag are those on a shelf. -/
structure Shows (s : Shelves) (b : Bus β) : Prop where
  nextId : s.nextId = b.nextId
  made : s.nextId = s.slots.length + 1
  numbered : s.slots.map SharedSlot.id = List.range' 1 s.slots.length
  places : ∀ kind, (s.places kind).map (· + 1) = b.idsOf kind
  active : ∀ place, activeAt s.slots place = true ↔ ∃ kind, place ∈ s.places kind

theorem shows_empty : Shows {} ({} : Bus β) where
  nextId := rfl
  made := rfl
  numbered := rfl
  places _ := rfl
  active place := by simp [activeAt]

theorem Shows.idAt? (h : s.Shows b) : s.idAt? place = some id ↔ place < s.slots.length ∧ id = place + 1 := by
  rw [Shelves.idAt?, ← List.getElem?_map, h.numbered]
  by_cases hlt : place < s.slots.length
  · rw [List.getElem?_range' hlt]
    simp [hlt, eq_comm, Nat.add_comm]
  · rw [List.getElem?_eq_none (by simpa using hlt)]
    simp [hlt]

theorem Shows.mem_places (h : s.Shows b) : place ∈ s.places kind ↔ place + 1 ∈ b.idsOf kind := by
  rw [← h.places]
  simp

theorem Shows.lt_of_mem (h : s.Shows b) (hlife : Bus.Becomes {} life b)
    (hplace : place ∈ s.places kind) : place < s.slots.length := by
  have hkey := Bus.mem_idsOf.mp (h.mem_places.mp hplace)
  have hlt : place + 1 < b.nextId := hlife.sorted.2 _ hkey
  have hmade := h.made
  have hnext := h.nextId
  omega

/-- A place is on one shelf only. -/
theorem Shows.kind_unique {otherKind : EventKind} (h : s.Shows b) (hlife : Bus.Becomes {} life b)
    (hplace : place ∈ s.places kind) (hother : place ∈ s.places otherKind) : kind = otherKind :=
  hlife.kind_unique (Bus.mem_idsOf.mp (h.mem_places.mp hplace)) (Bus.mem_idsOf.mp (h.mem_places.mp hother))

theorem Shows.ids (h : s.Shows b) (hlife : Bus.Becomes {} life b) : s.ids kind = b.idsOf kind := by
  rw [Shelves.ids, ← h.places, ← List.filterMap_eq_map]
  apply List.filterMap_congr
  intro place hplace
  exact h.idAt?.mpr ⟨h.lt_of_mem hlife hplace, rfl⟩

/-- A slot has its flag as long as the bus finds its number. -/
theorem Shows.isActive (h : s.Shows b) (hid : s.idAt? place = some id) :
    activeAt s.slots place = (b.find? id).isSome := by
  obtain ⟨-, rfl⟩ := h.idAt?.mp hid
  rw [Bool.eq_iff_iff, h.active]
  constructor
  · rintro ⟨kind, hplace⟩
    have hkey := Bus.mem_idsOf.mp (h.mem_places.mp hplace)
    cases hfind : b.find? (place + 1) with
    | none => exact absurd hkey (Bus.not_mem_keys_of_find? hfind)
    | some slot => rfl
  · intro hsome
    obtain ⟨slot, hfind⟩ := Option.isSome_iff_exists.mp hsome
    exact ⟨slot.kind, h.mem_places.mpr (Bus.mem_idsOf.mpr (Bus.key_of_find? hfind))⟩

theorem Shows.setBody (h : s.Shows b) (id : Nat) (body : β) : s.Shows (b.setBody id body) where
  nextId := h.nextId
  made := h.made
  numbered := h.numbered
  places kind := by rw [h.places, Bus.idsOf_eq_keys, Bus.idsOf_eq_keys, Bus.keys_setBody]
  active := h.active

theorem activeAt_concat :
    activeAt (slots ++ [{ id := id }]) place = (activeAt slots place || place = slots.length) := by
  unfold activeAt
  rcases Nat.lt_trichotomy place slots.length with h | h | h
  · have hne : place ≠ slots.length := by omega
    rw [List.getElem?_append_left h]
    simp [hne]
  · subst h
    simp
  · have hne : place ≠ slots.length := by omega
    rw [List.getElem?_append_right (by omega), List.getElem?_eq_none (by simp; omega),
      List.getElem?_eq_none (by omega)]
    simp [hne]

theorem mem_places_on {otherKind : EventKind} : place ∈ (s.on kind).2.places otherKind ↔
    place ∈ s.places otherKind ∨ otherKind = kind ∧ place = s.slots.length := by
  change place ∈ Function.update s.places kind (s.places kind ++ [s.slots.length]) otherKind ↔ _
  by_cases hkind : otherKind = kind
  · subst hkind
    rw [Function.update_self, List.mem_append, List.mem_singleton]
    simp only [true_and]
  · rw [Function.update_of_ne hkind]
    simp only [hkind, false_and, or_false]

theorem Shows.on (h : s.Shows b) (kind : EventKind) (body : β) : (s.on kind).2.Shows (b.on kind body).2 := by
  have hslots : (s.on kind).2.slots = s.slots ++ [{ id := s.nextId }] := rfl
  have hmade := h.made
  constructor
  case nextId => exact congrArg (· + 1) h.nextId
  case made =>
    change s.nextId + 1 = _
    rw [hslots, List.length_append, List.length_singleton, hmade]
  case numbered =>
    rw [hslots, List.map_append, h.numbered, List.length_append, List.length_singleton, List.range'_concat, hmade]
    simp [Nat.add_comm]
  case places =>
    intro other
    change (Function.update s.places kind (s.places kind ++ [s.slots.length]) other).map (· + 1) = _
    rw [Bus.idsOf_on]
    by_cases hkind : other = kind
    · subst hkind
      rw [Function.update_self, List.map_append, h.places, if_pos rfl, ← h.nextId, hmade]
      rfl
    · rw [Function.update_of_ne hkind, h.places, if_neg (Ne.symm hkind), List.append_nil]
  case active =>
    intro place
    rw [hslots, activeAt_concat, Bool.or_eq_true, decide_eq_true_eq, h.active]
    simp only [mem_places_on, exists_or, exists_eq_left]

/-- A number is found on its own shelf, whichever is searched first. -/
theorem Shows.find? (h : s.Shows b) (hlife : Bus.Becomes {} life b) :
    s.find? id = some (kind, place) ↔ place ∈ s.places kind ∧ id = place + 1 := by
  have hfound : ∀ {kind place}, s.find? id = some (kind, place) → place ∈ s.places kind ∧ id = place + 1 := by
    intro kind place hfind
    obtain ⟨kind', -, hshelf⟩ := List.exists_of_findSome?_eq_some hfind
    obtain ⟨place', hplace, hpair⟩ := Option.map_eq_some_iff.mp hshelf
    obtain ⟨rfl, rfl⟩ := Prod.mk.inj hpair
    have hid := List.find?_some hplace
    exact ⟨List.mem_of_find?_eq_some hplace, (h.idAt?.mp (of_decide_eq_true hid)).2⟩
  refine ⟨hfound, ?_⟩
  rintro ⟨hplace, rfl⟩
  cases hfind : s.find? (place + 1) with
  | none =>
    have hshelf := List.findSome?_eq_none_iff.mp hfind kind kind.mem_all
    have hnot := List.find?_eq_none.mp (Option.map_eq_none_iff.mp hshelf) place hplace
    exact absurd (decide_eq_true (h.idAt?.mpr ⟨h.lt_of_mem hlife hplace, rfl⟩)) hnot
  | some p =>
    obtain ⟨hother, hid⟩ := hfound hfind
    obtain rfl : place = p.2 := Nat.succ.inj hid
    rw [h.kind_unique hlife hplace hother]

theorem Shows.nodup_places (h : s.Shows b) (hlife : Bus.Becomes {} life b) (kind : EventKind) :
    (s.places kind).Nodup := by
  have hnodup : (b.idsOf kind).Nodup := (hlife.increasing kind).imp fun hlt => Nat.ne_of_lt hlt
  rw [← h.places] at hnodup
  exact List.Nodup.of_map _ hnodup

/-- A place that is taken off its shelf is as good as taken off all of them. -/
theorem Shows.places_remove (h : s.Shows b) (hlife : Bus.Becomes {} life b)
    (hplace : place ∈ s.places kind) (other : EventKind) :
    (s.remove kind place).places other = (s.places other).filter fun p => p ≠ place := by
  change Function.update s.places kind ((s.places kind).erase place) other = _
  by_cases hkind : other = kind
  · subst hkind
    rw [Function.update_self, (h.nodup_places hlife other).erase_eq_filter]
    exact List.filter_congr fun p _ => Bool.eq_iff_iff.mpr (by simp)
  · rw [Function.update_of_ne hkind]
    refine (List.filter_eq_self.mpr fun p hp => decide_eq_true ?_).symm
    rintro rfl
    exact hkind (h.kind_unique hlife hp hplace)

theorem Shows.remove (h : s.Shows b) (hlife : Bus.Becomes {} life b) (hplace : place ∈ s.places kind) :
    (s.remove kind place).Shows (b.off (place + 1)).2 := by
  have hslots : (s.remove kind place).slots = deactivate place s.slots := rfl
  have hnumbers : (deactivate place s.slots).map SharedSlot.id = s.slots.map SharedSlot.id := map_id_deactivate
  have hmade := congrArg List.length hnumbers
  rw [List.length_map, List.length_map] at hmade
  constructor
  case nextId => exact h.nextId
  case made => exact h.made.trans (by rw [hslots, hmade])
  case numbered => rw [hslots, hnumbers, hmade, h.numbered]
  case places =>
    intro other
    rw [h.places_remove hlife hplace, Bus.idsOf_off, ← h.places, List.filter_map]
    refine congrArg _ (List.filter_congr fun p _ => ?_)
    simp
  case active =>
    intro other
    simp only [h.places_remove hlife hplace, hslots, activeAt_deactivate, Bool.and_eq_true, decide_eq_true_eq, h.active,
      List.mem_filter, exists_and_right]

/-- What is on no shelf is not registered, and there is nothing to remove. -/
theorem Shows.off_unknown (h : s.Shows b) (hnot : ∀ kind, id ∉ b.idsOf kind) : s.Shows (b.off id).2 := by
  refine { h with nextId := h.nextId, places := fun kind => ?_ }
  rw [Bus.idsOf_off, h.places]
  refine (List.filter_eq_self.mpr fun other hother => decide_eq_true ?_).symm
  rintro rfl
  exact hnot kind hother

theorem Shows.off (h : s.Shows b) (hlife : Bus.Becomes {} life b) (id : Nat) :
    (s.off id).1 = (b.off id).1 ∧ (s.off id).2.Shows (b.off id).2 := by
  cases hfind : s.find? id with
  | none =>
    have hoff : s.off id = (false, s) := by rw [Shelves.off, hfind]
    have hnot : ∀ kind, id ∉ b.idsOf kind := by
      intro kind hid
      rw [← h.places] at hid
      obtain ⟨place, hplace, rfl⟩ := List.mem_map.mp hid
      rw [(h.find? hlife).mpr ⟨hplace, rfl⟩] at hfind
      cases hfind
    rw [hoff]
    exact ⟨(Bool.eq_false_iff.mpr fun hon => (Bus.off_iff.mp hon).elim hnot).symm, h.off_unknown hnot⟩
  | some found =>
    obtain ⟨kind, place⟩ := found
    obtain ⟨hplace, rfl⟩ := (h.find? hlife).mp hfind
    have hoff : s.off (place + 1) = (true, s.remove kind place) := by rw [Shelves.off, hfind]
    rw [hoff]
    exact ⟨(Bus.off_iff.mpr ⟨kind, h.mem_places.mp hplace⟩).symm, h.remove hlife hplace⟩

theorem Shows.clear (h : s.Shows b) : s.clear.Shows b.clear := by
  have hslots : s.clear.slots.map SharedSlot.id = s.slots.map SharedSlot.id := map_id_foldl _
  have hmade := congrArg List.length hslots
  rw [List.length_map, List.length_map] at hmade
  constructor
  case nextId => exact h.nextId
  case made => exact h.made.trans (by rw [hmade])
  case numbered => rw [hslots, hmade, h.numbered]
  case places => exact fun kind => rfl
  case active =>
    intro place
    have hflag : activeAt s.clear.slots place = (activeAt s.slots place && place ∉ EventKind.all.flatMap s.places) :=
      activeAt_foldl _
    rw [hflag, Bool.and_eq_true, h.active, decide_eq_true_eq, List.mem_flatMap]
    constructor
    · rintro ⟨⟨kind, hplace⟩, hnot⟩
      exact absurd ⟨kind, kind.mem_all, hplace⟩ hnot
    · rintro ⟨kind, hplace⟩
      cases hplace

/-- Whatever is done with the handlers of a bus, shelves with which the same is done show the same. -/
theorem shows_after (h : Bus.Becomes {} life b) : (after life).Shows b := by
  induction h with
  | refl => exact shows_empty
  | on kind body _ ih => exact ih.on kind body
  | off id hlife ih => exact (ih.off hlife id).2
  | clear _ ih => exact ih.clear
  | setBody id body _ ih => exact ih.setBody id body

/-- A delivery that has come upon a slot on a shelf finds it at its place later on, with its number, and with its flag
as long as the bus finds this number. -/
theorem turn_after {deeds : List BusDeed} {c : Bus β} (hlife : Bus.Becomes {} life b) (h : b.Becomes deeds c)
    (hplace : place ∈ (after life).places kind) : ∃ id, (after life).idAt? place = some id ∧
      (after (deeds ++ life)).idAt? place = some id ∧
      activeAt (after (deeds ++ life)).slots place = (c.find? id).isSome := by
  have hshows := shows_after hlife
  have hlater := shows_after (hlife.trans h)
  have hlt := hshows.lt_of_mem hlife hplace
  have hnext := h.registered_lt.1
  rw [← hshows.nextId, ← hlater.nextId, hshows.made, hlater.made] at hnext
  have hid : (after (deeds ++ life)).idAt? place = some (place + 1) := hlater.idAt?.mpr ⟨by omega, rfl⟩
  exact ⟨place + 1, hshows.idAt?.mpr ⟨hlt, rfl⟩, hid, hlater.isActive hid⟩

end Shelves

end QuoteFeed
