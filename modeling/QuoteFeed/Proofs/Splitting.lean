import QuoteFeed.Octets
import Mathlib.Data.List.TakeWhile

/-!
Texts cut in two: where octets of a kind end, at the first occurrence of a pattern, and at the last occurrence of a
mark. A cut is known by its parts, or by the position at which it is made; a part is taken by its position only where
the text reaches so far.
-/

namespace QuoteFeed

section

variable {p : UInt8 → Bool} {front more : Octets}

/-- The octets of a kind in front of one of another kind, or of the end. -/
theorem takeWhile_append_stop (hfront : front.all p = true) (hstop : ∀ b ∈ more.head?, p b = false) :
    (front ++ more).takeWhile p = front := by
  have hmore : more.takeWhile p = [] := by
    cases more with
    | nil => rfl
    | cons b more => rw [List.takeWhile_cons, hstop b rfl]; rfl
  rw [List.takeWhile_append_of_pos (List.all_eq_true.mp hfront), hmore, List.append_nil]

theorem dropWhile_append_stop (hfront : front.all p = true) (hstop : ∀ b ∈ more.head?, p b = false) :
    (front ++ more).dropWhile p = more := by
  rw [List.dropWhile_append_of_pos (List.all_eq_true.mp hfront)]
  cases more with
  | nil => rfl
  | cons b more => rw [List.dropWhile_cons, hstop b rfl]; rfl

end

namespace Octets

variable {mark : UInt8} {pattern tail s before after : Octets}

theorem untilNul_eq_self_iff : s.untilNul = s ↔ 0 ∉ s := by
  rw [untilNul, List.takeWhile_eq_self_iff]
  constructor
  · intro h hmem
    exact absurd (h 0 hmem) (by decide)
  · intro h b hb
    exact decide_eq_true fun he => h (he ▸ hb)

/-! ### By parts -/

theorem eq_of_splitFirst? (h : splitFirst? pattern s = some (before, after)) : s = before ++ (pattern ++ after) := by
  induction s generalizing before with
  | nil =>
    unfold splitFirst? at h
    split at h
    next hempty =>
      cases h
      rw [List.isEmpty_iff.mp hempty]
      rfl
    next => cases h
  | cons b s ih =>
    unfold splitFirst? at h
    split at h
    next hstarts =>
      cases h
      obtain ⟨rest, hrest⟩ := List.isPrefixOf_iff_prefix.mp hstarts
      rw [← hrest, List.drop_left]
      rfl
    next =>
      obtain ⟨⟨front, rest⟩, hfront, he⟩ := Option.map_eq_some_iff.mp h
      cases he
      rw [ih hfront]
      rfl

/-- What stands before a pattern whose first mark it does not have ends at the first occurrence. -/
theorem splitFirst?_append (hmark : mark ∉ before) :
    splitFirst? (mark :: tail) (before ++ (mark :: tail ++ after)) = some (before, after) := by
  induction before with
  | nil =>
    have hstarts : (mark :: tail).isPrefixOf (mark :: tail ++ after) = true :=
      List.isPrefixOf_iff_prefix.mpr (List.prefix_append _ _)
    rw [List.nil_append, List.cons_append, splitFirst?, ← List.cons_append, if_pos hstarts, List.drop_left]
  | cons b before ih =>
    have hb : mark ≠ b := fun he => hmark (he ▸ List.mem_cons_self)
    have hstarts : ¬(mark :: tail).isPrefixOf (b :: (before ++ (mark :: tail ++ after))) = true := by
      simp [List.isPrefixOf, hb]
    rw [List.cons_append, splitFirst?, if_neg hstarts, ih fun hmem => hmark (List.mem_cons_of_mem _ hmem)]
    rfl

theorem notMem_of_splitFirst? (h : splitFirst? [mark] s = some (before, after)) : mark ∉ before := by
  induction s generalizing before with
  | nil => cases h
  | cons b s ih =>
    unfold splitFirst? at h
    split at h
    next =>
      cases h
      exact List.not_mem_nil
    next hstarts =>
      obtain ⟨⟨front, rest⟩, hfront, he⟩ := Option.map_eq_some_iff.mp h
      cases he
      have hb : mark ≠ b := by simpa [List.isPrefixOf] using hstarts
      exact fun hmem => (List.mem_cons.mp hmem).elim hb (ih hfront)

theorem splitFirst?_eq_some_iff :
    splitFirst? [mark] s = some (before, after) ↔ s = before ++ mark :: after ∧ mark ∉ before := by
  refine ⟨fun h => ⟨eq_of_splitFirst? h, notMem_of_splitFirst? h⟩, ?_⟩
  rintro ⟨rfl, hmark⟩
  exact splitFirst?_append hmark

theorem splitFirst?_eq_none_iff : splitFirst? [mark] s = none ↔ mark ∉ s := by
  constructor
  · intro h hmem
    obtain ⟨before, after, rfl, hmark⟩ := List.eq_append_cons_of_mem hmem
    rw [splitFirst?_eq_some_iff.mpr ⟨rfl, hmark⟩] at h
    cases h
  · intro hmark
    refine Option.eq_none_iff_forall_ne_some.mpr fun parts h => hmark ?_
    obtain ⟨before, after⟩ := parts
    rw [eq_of_splitFirst? h]
    exact List.mem_append_right _ List.mem_cons_self

theorem splitLast?_eq_none_iff : splitLast? mark s = none ↔ mark ∉ s := by
  induction s with
  | nil => simp [splitLast?]
  | cons b s ih =>
    unfold splitLast?
    cases hs : splitLast? mark s with
    | some parts =>
      have hmem : mark ∈ s := by
        by_contra hno
        rw [ih.mpr hno] at hs
        cases hs
      simp [hmem]
    | none =>
      have hno : mark ∉ s := ih.mp hs
      simp [hno, eq_comm]

theorem splitLast?_eq_some_iff :
    splitLast? mark s = some (before, after) ↔ s = before ++ mark :: after ∧ mark ∉ after := by
  induction s generalizing before after with
  | nil => simp [splitLast?]
  | cons b s ih =>
    unfold splitLast?
    cases hs : splitLast? mark s with
    | some parts =>
      obtain ⟨front, rest⟩ := parts
      obtain ⟨he, hno⟩ := ih.mp hs
      constructor
      · intro h
        cases h
        exact ⟨congrArg _ he, hno⟩
      · rintro ⟨hcons, hafter⟩
        cases before with
        | nil =>
          obtain ⟨-, rfl⟩ := List.cons.inj hcons
          exact absurd (he ▸ List.mem_append_right _ List.mem_cons_self) hafter
        | cons c before =>
          obtain ⟨rfl, htail⟩ := List.cons.inj hcons
          rw [ih.mpr ⟨htail, hafter⟩] at hs
          cases hs
          rfl
    | none =>
      have hno : mark ∉ s := splitLast?_eq_none_iff.mp hs
      constructor
      · intro h
        dsimp only at h
        split at h
        next hb =>
          cases h
          exact ⟨congrArg (fun c => c :: s) hb, hno⟩
        next => cases h
      · rintro ⟨hcons, -⟩
        cases before with
        | nil =>
          obtain ⟨rfl, rfl⟩ := List.cons.inj hcons
          exact if_pos rfl
        | cons c before =>
          obtain ⟨-, rfl⟩ := List.cons.inj hcons
          exact absurd (List.mem_append_right _ List.mem_cons_self) hno

/-! ### By positions -/

/-- The first position at which a pattern stands. -/
def find? (pattern s : Octets) : Option Nat :=
  (List.range (s.length + 1)).find? fun i => pattern.isPrefixOf (s.drop i)

/-- The last position at which a mark stands. -/
def findLast? (mark : UInt8) (s : Octets) : Option Nat :=
  (List.range s.length).reverse.find? fun i => s[i]? = some mark

/-- So many octets of a text from a position on, or all of them. The position may lie right behind the text, but no
further. -/
def part? (s : Octets) (position : Nat) (count : Option Nat) : Option Octets :=
  if position ≤ s.length then some ((s.drop position).take (count.getD s.length)) else none

theorem part?_front (s : Octets) (count : Nat) : s.part? 0 (some count) = some (s.take count) := rfl

theorem part?_all (s : Octets) : s.part? 0 none = some s := by
  rw [part?, if_pos (Nat.zero_le _), List.drop_zero, Option.getD_none, List.take_length]

theorem part?_rest {position : Nat} (h : position ≤ s.length) : s.part? position none = some (s.drop position) := by
  rw [part?, if_pos h, Option.getD_none, List.take_of_length_le]
  rw [List.length_drop]
  omega

theorem find?_cons (pattern : Octets) (b : UInt8) (s : Octets) : find? pattern (b :: s) =
    if pattern.isPrefixOf (b :: s) then some 0 else (find? pattern s).map (· + 1) := by
  rw [find?, List.length_cons, List.range_succ_eq_map, List.find?_cons, List.drop_zero]
  split
  next h => rw [if_pos h]
  next h =>
    rw [if_neg (by rw [h]; exact Bool.false_ne_true), List.find?_map]
    rfl

/-- The first occurrence is where the text is cut. -/
theorem splitFirst?_eq_map (pattern s : Octets) : splitFirst? pattern s =
    (find? pattern s).map fun i => (s.take i, s.drop (i + pattern.length)) := by
  induction s with
  | nil => cases pattern <;> rfl
  | cons b s ih =>
    rw [find?_cons, splitFirst?]
    split
    next => simp
    next =>
      rw [ih, Option.map_map, Option.map_map]
      refine congrArg (fun f => Option.map f _) (funext fun i => ?_)
      simp [Nat.add_right_comm]

theorem findLast?_cons (mark b : UInt8) (s : Octets) : findLast? mark (b :: s) =
    match findLast? mark s with
    | some i => some (i + 1)
    | none => if b = mark then some 0 else none := by
  rw [findLast?, List.length_cons, List.range_succ_eq_map, List.reverse_cons, ← List.map_reverse, List.find?_append,
    List.find?_map]
  change (Option.map Nat.succ (findLast? mark s)).or _ = _
  cases findLast? mark s with
  | some i => rfl
  | none =>
    rw [Option.map_none, Option.none_or, List.find?_cons, List.find?_nil]
    by_cases hb : b = mark <;> simp [hb]

/-- The last occurrence is where the text is cut. -/
theorem splitLast?_eq_map (mark : UInt8) (s : Octets) : splitLast? mark s =
    (findLast? mark s).map fun i => (s.take i, s.drop (i + 1)) := by
  induction s with
  | nil => rfl
  | cons b s ih =>
    rw [findLast?_cons, splitLast?, ih]
    cases findLast? mark s with
    | some i => rfl
    | none =>
      dsimp only [Option.map_none]
      split
      next => rfl
      next => rfl

/-- A pattern that is found lies within the text. -/
theorem add_length_le_of_find? {i : Nat} (h : find? pattern s = some i) : i + pattern.length ≤ s.length := by
  have hstarts := List.find?_some h
  have hi : i < s.length + 1 := List.mem_range.mp (List.mem_of_find?_eq_some h)
  have hlength := (List.isPrefixOf_iff_prefix.mp hstarts).length_le
  rw [List.length_drop] at hlength
  omega

theorem lt_of_findLast? {i : Nat} (h : findLast? mark s = some i) : i < s.length :=
  List.mem_range.mp (List.mem_reverse.mp (List.mem_of_find?_eq_some h))

/-- The octets in front of a mark are those in front of its first position. -/
theorem takeWhile_of_find? {i : Nat} (h : find? [mark] s = some i) :
    s.takeWhile (· ≠ mark) = s.take i ∧ s.dropWhile (· ≠ mark) = s.drop i := by
  have hcut : splitFirst? [mark] s = some (s.take i, s.drop (i + 1)) := by
    rw [splitFirst?_eq_map, h]
    rfl
  obtain ⟨hs, hmark⟩ := splitFirst?_eq_some_iff.mp hcut
  have hdrop : s.drop i = mark :: s.drop (i + 1) := by
    rw [← List.append_right_inj (s.take i), List.take_append_drop]
    exact hs
  have hall : (s.take i).all (· ≠ mark) = true :=
    List.all_eq_true.mpr fun b hb => decide_eq_true fun he => hmark (he ▸ hb)
  have hstop : ∀ b ∈ (s.drop i).head?, decide (b ≠ mark) = false := by
    rw [hdrop]
    rintro b ⟨⟩
    exact decide_eq_false (not_not.mpr rfl)
  have htake := takeWhile_append_stop hall hstop
  have hrest := dropWhile_append_stop hall hstop
  rw [List.take_append_drop] at htake hrest
  exact ⟨htake, hrest⟩

theorem takeWhile_of_find?_eq_none (h : find? [mark] s = none) :
    s.takeWhile (· ≠ mark) = s ∧ s.dropWhile (· ≠ mark) = [] := by
  have hno : mark ∉ s := by
    refine splitFirst?_eq_none_iff.mp ?_
    rw [splitFirst?_eq_map, h]
    rfl
  have hall : ∀ b ∈ s, decide (b ≠ mark) = true := fun b hb => decide_eq_true fun he => hno (he ▸ hb)
  exact ⟨List.takeWhile_eq_self_iff.mpr hall, List.dropWhile_eq_nil_iff.mpr hall⟩

end Octets

end QuoteFeed
