import QuoteFeed.Bus

/-!
The life of a bus. Its handlers are registered and removed, and it does not matter to the record of this
whether it happens while an event is delivered: what has been done so far tells who is registered, for what
kind and in which order.
-/

namespace QuoteFeed

/-- Something that is done with the handlers of a bus. -/
inductive BusDeed where
  | on (id : Nat) (kind : EventKind)
  | off (id : Nat)
  | clear
deriving DecidableEq

namespace BusDeed

/-- The handlers that have been registered in the course of some deeds, of which the last one comes first. The
first one registered comes first. -/
def registered : List BusDeed → List (Nat × EventKind)
  | [] => []
  | on id kind :: rest => registered rest ++ [(id, kind)]
  | off _ :: rest => registered rest
  | clear :: rest => registered rest

/-- The handler of a number has been removed, by itself or with all others. -/
def Withdrawn (id : Nat) (deeds : List BusDeed) : Prop := off id ∈ deeds ∨ clear ∈ deeds

instance {id : Nat} {deeds : List BusDeed} : Decidable (Withdrawn id deeds) :=
  inferInstanceAs (Decidable (_ ∨ _))

/-- The handler of a number has been registered for a kind and has not been removed since. -/
def Standing (id : Nat) (kind : EventKind) (deeds : List BusDeed) : Prop :=
  ∃ later earlier, deeds = later ++ on id kind :: earlier ∧ ¬Withdrawn id later

variable {id : Nat} {kind : EventKind} {d : BusDeed} {rest : List BusDeed}

theorem withdrawn_cons : Withdrawn id (d :: rest) ↔ (d = off id ∨ d = clear) ∨ Withdrawn id rest := by
  simp only [Withdrawn, List.mem_cons, @eq_comm _ d]
  exact or_or_or_comm

theorem standing_cons :
    Standing id kind (d :: rest) ↔ d = on id kind ∨ (d ≠ off id ∧ d ≠ clear) ∧ Standing id kind rest := by
  constructor
  · rintro ⟨_ | ⟨d', later⟩, earlier, h, hstays⟩
    · exact .inl (List.cons.inj h).1
    · obtain ⟨rfl, rfl⟩ := List.cons.inj h
      obtain ⟨hd, hlater⟩ := not_or.mp (mt withdrawn_cons.mpr hstays)
      exact .inr ⟨not_or.mp hd, later, earlier, rfl, hlater⟩
  · rintro (rfl | ⟨hd, later, earlier, rfl, hstays⟩)
    · exact ⟨[], rest, rfl, by simp [Withdrawn]⟩
    · refine ⟨d :: later, earlier, rfl, fun h => ?_⟩
      exact (withdrawn_cons.mp h).elim (not_or.mpr hd) hstays

theorem mem_registered (h : on id kind ∈ rest) : (id, kind) ∈ registered rest := by
  induction rest with
  | nil => cases h
  | cons d rest ih =>
    rcases List.mem_cons.mp h with rfl | hmem
    · exact List.mem_append_right _ (List.mem_singleton_self _)
    · cases d with
      | on => exact List.mem_append_left _ (ih hmem)
      | off => exact ih hmem
      | clear => exact ih hmem

end BusDeed

namespace Bus

variable {β : Type}

/-- What has been done with the handlers of a bus, the last deed first. The bodies of handlers may have changed
along with it. -/
inductive Becomes (b : Bus β) : List BusDeed → Bus β → Prop
  | refl : Becomes b [] b
  | on {deeds : List BusDeed} {c : Bus β} (kind : EventKind) (body : β) :
      Becomes b deeds c → Becomes b (.on c.nextId kind :: deeds) (c.on kind body).2
  | off {deeds : List BusDeed} {c : Bus β} (id : Nat) :
      Becomes b deeds c → Becomes b (.off id :: deeds) (c.off id).2
  | clear {deeds : List BusDeed} {c : Bus β} : Becomes b deeds c → Becomes b (.clear :: deeds) c.clear
  | setBody {deeds : List BusDeed} {c : Bus β} (id : Nat) (body : β) :
      Becomes b deeds c → Becomes b deeds (c.setBody id body)

/-- The registered handlers by number and kind. -/
def keys (b : Bus β) : List (Nat × EventKind) := b.slots.map fun s => (s.id, s.kind)

variable {b c d : Bus β} {deeds later : List BusDeed} {id : Nat} {kind : EventKind}

theorem Becomes.trans (h : b.Becomes deeds c) (h' : c.Becomes later d) : b.Becomes (later ++ deeds) d := by
  induction h' with
  | refl => exact h
  | on kind body _ ih => exact ih.on kind body
  | off id _ ih => exact ih.off id
  | clear _ ih => exact ih.clear
  | setBody id body _ ih => exact ih.setBody id body

@[simp] theorem keys_on (body : β) : (b.on kind body).2.keys = b.keys ++ [(b.nextId, kind)] := by
  simp [keys, on]

@[simp] theorem keys_off : (b.off id).2.keys = b.keys.filter fun key => key.1 ≠ id := by
  simp only [keys, off, List.filter_map]
  rfl

@[simp] theorem keys_clear : b.clear.keys = [] := rfl

@[simp] theorem keys_setBody (body : β) : (b.setBody id body).keys = b.keys := by
  unfold keys setBody
  rw [List.map_map]
  refine List.map_congr_left fun slot _ => ?_
  simp only [Function.comp_apply]
  split <;> rfl

theorem idsOf_eq_keys : b.idsOf kind = (b.keys.filter fun key => key.2 = kind).map Prod.fst := by
  simp only [idsOf, keys, List.filter_map, List.map_map]
  rfl

theorem mem_idsOf : id ∈ b.idsOf kind ↔ (id, kind) ∈ b.keys := by
  rw [idsOf_eq_keys, List.mem_map]
  constructor
  · rintro ⟨⟨_, _⟩, hkey, rfl⟩
    obtain ⟨hmem, hkind⟩ := List.mem_filter.mp hkey
    exact of_decide_eq_true hkind ▸ hmem
  · exact fun h => ⟨_, List.mem_filter.mpr ⟨h, decide_eq_true rfl⟩, rfl⟩

theorem idsOf_on (body : β) {other : EventKind} :
    (b.on kind body).2.idsOf other = b.idsOf other ++ if kind = other then [b.nextId] else [] := by
  rw [idsOf_eq_keys, idsOf_eq_keys, keys_on, List.filter_append, List.map_append]
  by_cases h : kind = other
  · simp [h]
  · simp [h]

theorem idsOf_off : (b.off id).2.idsOf kind = (b.idsOf kind).filter fun other => other ≠ id := by
  rw [idsOf_eq_keys, idsOf_eq_keys, keys_off, List.filter_map, List.filter_filter, List.filter_filter]
  refine congrArg _ (List.filter_congr fun key _ => ?_)
  exact Bool.and_comm _ _

theorem off_iff : (b.off id).1 = true ↔ ∃ kind, id ∈ b.idsOf kind := by
  simp only [mem_idsOf, keys, List.mem_map, Prod.mk.injEq]
  constructor
  · intro h
    obtain ⟨slot, hslot, hid⟩ := List.any_eq_true.mp h
    exact ⟨slot.kind, slot, hslot, of_decide_eq_true hid, rfl⟩
  · rintro ⟨kind, slot, hslot, hid, -⟩
    exact List.any_eq_true.mpr ⟨slot, hslot, decide_eq_true hid⟩

/-- Registered are those who were so at the beginning and have not been removed, and those who have been
registered and not removed since. -/
theorem Becomes.mem_keys (h : b.Becomes deeds c) :
    (id, kind) ∈ c.keys ↔ BusDeed.Standing id kind deeds ∨ (id, kind) ∈ b.keys ∧ ¬BusDeed.Withdrawn id deeds := by
  induction h with
  | refl => simp [BusDeed.Standing, BusDeed.Withdrawn]
  | on k body _ ih =>
    rw [keys_on, List.mem_append, ih, BusDeed.standing_cons, BusDeed.withdrawn_cons]
    simp only [List.mem_singleton, Prod.mk.injEq, BusDeed.on.injEq, reduceCtorEq, or_self, false_or, ne_eq,
      not_false_eq_true, and_self, true_and, @eq_comm _ id, @eq_comm _ kind]
    exact or_comm.trans or_assoc.symm
  | off i _ ih =>
    rw [keys_off, List.mem_filter, ih, BusDeed.standing_cons, BusDeed.withdrawn_cons]
    simp only [ne_eq, decide_not, Bool.not_eq_true', decide_eq_false_iff_not, reduceCtorEq, BusDeed.off.injEq, or_false,
      false_or, not_false_eq_true, and_true, @eq_comm _ i, not_or]
    constructor
    · rintro ⟨h | h, hid⟩
      · exact .inl ⟨hid, h⟩
      · exact .inr ⟨h.1, hid, h.2⟩
    · rintro (⟨hid, h⟩ | ⟨h, hid, hstays⟩)
      · exact ⟨.inl h, hid⟩
      · exact ⟨.inr ⟨h, hstays⟩, hid⟩
  | clear _ _ => simp [BusDeed.standing_cons, BusDeed.withdrawn_cons]
  | setBody i body _ ih => rw [keys_setBody, ih]

/-- Handlers stay in the order in which they have been registered. -/
theorem Becomes.sublist (h : b.Becomes deeds c) : c.keys.Sublist (b.keys ++ BusDeed.registered deeds) := by
  induction h with
  | refl => simp [BusDeed.registered]
  | on kind body _ ih =>
    rw [keys_on, BusDeed.registered, ← List.append_assoc]
    exact ih.append (List.Sublist.refl _)
  | off id _ ih =>
    rw [keys_off]
    exact List.filter_sublist.trans ih
  | clear _ _ => exact List.nil_sublist _
  | setBody id body _ ih =>
    rw [keys_setBody]
    exact ih

/-- Numbers are handed out in increasing order. -/
theorem Becomes.registered_lt (h : b.Becomes deeds c) : b.nextId ≤ c.nextId ∧
    (∀ key ∈ BusDeed.registered deeds, b.nextId ≤ key.1 ∧ key.1 < c.nextId) ∧
    (BusDeed.registered deeds).Pairwise fun key other => key.1 < other.1 := by
  induction h with
  | refl => exact ⟨Nat.le_refl _, by simp [BusDeed.registered], List.Pairwise.nil⟩
  | @on deeds c kind body _ ih =>
    obtain ⟨hle, hbounds, hsorted⟩ := ih
    have hnext : (c.on kind body).2.nextId = c.nextId + 1 := rfl
    rw [hnext]
    refine ⟨by omega, fun key hkey => ?_, List.pairwise_append.mpr ⟨hsorted, List.pairwise_singleton _ _, ?_⟩⟩
    · rcases List.mem_append.mp hkey with hkey | hkey
      · have := hbounds key hkey
        omega
      · cases List.mem_singleton.mp hkey
        exact ⟨hle, Nat.lt_succ_self _⟩
    · intro key hkey other hother
      cases List.mem_singleton.mp hother
      exact (hbounds key hkey).2
  | off id _ ih => exact ih
  | clear _ ih => exact ih
  | setBody id body _ ih => exact ih

/-- The handlers of a bus are in the order of their numbers, which are below the next one. -/
theorem Becomes.sorted {life : List BusDeed} (h : Becomes {} life b) :
    (b.keys.Pairwise fun key other => key.1 < other.1) ∧ ∀ key ∈ b.keys, key.1 < b.nextId := by
  obtain ⟨-, hbounds, hsorted⟩ := h.registered_lt
  have hsub : b.keys.Sublist (BusDeed.registered life) := h.sublist
  exact ⟨hsorted.sublist hsub, fun key hkey => (hbounds key (hsub.subset hkey)).2⟩

theorem Becomes.handed_out {life : List BusDeed} (h : Becomes {} life b) :
    ((BusDeed.registered life).map Prod.fst).Pairwise (· < ·) :=
  List.pairwise_map.mpr h.registered_lt.2.2

theorem Becomes.increasing {life : List BusDeed} (h : Becomes {} life b) (kind : EventKind) :
    (b.idsOf kind).Pairwise (· < ·) := by
  rw [idsOf_eq_keys]
  exact List.pairwise_map.mpr (h.sorted.1.sublist List.filter_sublist)

theorem Becomes.mem_idsOf {life : List BusDeed} (h : Becomes {} life b) :
    id ∈ b.idsOf kind ↔ BusDeed.Standing id kind life := by
  rw [Bus.mem_idsOf, h.mem_keys]
  exact or_iff_left fun hnone => List.not_mem_nil hnone.1

/-- A number has one handler. -/
theorem Becomes.kind_unique {life : List BusDeed} {other : EventKind} (h : Becomes {} life b)
    (hkind : (id, kind) ∈ b.keys) (hother : (id, other) ∈ b.keys) : kind = other := by
  obtain ⟨i, hi, hik⟩ := List.mem_iff_getElem.mp hkind
  obtain ⟨j, hj, hjk⟩ := List.mem_iff_getElem.mp hother
  have hsorted := List.pairwise_iff_getElem.mp h.sorted.1
  rcases Nat.lt_trichotomy i j with hlt | rfl | hlt
  · have := hsorted i j hi hj hlt
    rw [hik, hjk] at this
    exact absurd this (Nat.lt_irrefl _)
  · exact (Prod.mk.inj (hik.symm.trans hjk)).2
  · have := hsorted j i hj hi hlt
    rw [hik, hjk] at this
    exact absurd this (Nat.lt_irrefl _)

theorem key_of_find? {slot : Slot β} (h : b.find? id = some slot) : (id, slot.kind) ∈ b.keys := by
  have hid : slot.id = id := by simpa using List.find?_some h
  exact hid ▸ List.mem_map_of_mem (f := fun s : Slot β => (s.id, s.kind)) (List.mem_of_find?_eq_some h)

theorem not_mem_keys_of_find? (h : b.find? id = none) : (id, kind) ∉ b.keys := by
  intro hkey
  obtain ⟨slot, hslot, he⟩ := List.mem_map.mp hkey
  exact List.find?_eq_none.mp h slot hslot (decide_eq_true (Prod.mk.inj he).1)

/-- A handler that was registered is found until it has been removed, and not any more then. -/
theorem Becomes.find? {life : List BusDeed} (hlife : Becomes {} life b) (h : b.Becomes deeds c)
    (hkey : (id, kind) ∈ b.keys) : (c.find? id = none ∧ BusDeed.Withdrawn id deeds) ∨
      ∃ slot, c.find? id = some slot ∧ slot.kind = kind ∧ ¬BusDeed.Withdrawn id deeds := by
  cases hfind : c.find? id with
  | none =>
    refine .inl ⟨rfl, Decidable.byContradiction fun hstays => ?_⟩
    exact not_mem_keys_of_find? hfind (h.mem_keys.mpr (.inr ⟨hkey, hstays⟩))
  | some slot =>
    rcases h.mem_keys.mp (key_of_find? hfind) with ⟨before, after, rfl, -⟩ | ⟨hslot, hstays⟩
    · -- numbers that are handed out are new
      have hlow := (h.registered_lt.2.1 _ (BusDeed.mem_registered (List.mem_append_right _ List.mem_cons_self))).1
      exact absurd (hlife.sorted.2 _ hkey) (Nat.not_lt.mpr hlow)
    · exact .inr ⟨slot, rfl, hlife.kind_unique hslot hkey, hstays⟩

end Bus

end QuoteFeed
