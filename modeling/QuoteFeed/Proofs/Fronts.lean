import QuoteFeed.JsonReader
import Mathlib.Data.List.TakeWhile
import Mathlib.Data.Option.Basic
import Mathlib.Tactic.SplitIfs

/-!
Documents at the front of a text. A reader takes some octets and leaves the rest, and what it makes of these
octets does not depend on the rest, but for the first octet behind a number, which has to end it.
-/

namespace QuoteFeed

section

variable {ε α γ : Type} {x : Except ε α}

theorem Except.exists_of_bind_eq_ok {f : α → Except ε γ} {b : γ} (h : x >>= f = .ok b) :
    ∃ a, x = .ok a ∧ f a = .ok b := by
  cases x with
  | error e => cases h
  | ok a => exact ⟨a, rfl, h⟩

theorem Except.exists_of_map_eq_ok {f : α → γ} {b : γ} (h : x.map f = .ok b) : ∃ a, x = .ok a ∧ f a = b := by
  cases x with
  | error e => cases h
  | ok a => exact ⟨a, rfl, Except.ok.inj h⟩

theorem Except.eq_ok_of_mapError {f : ε → γ} {a : α} (h : x.mapError f = .ok a) : x = .ok a := by
  cases x with
  | error e => cases h
  | ok b => exact congrArg Except.ok (Except.ok.inj h)

end

theorem head?_append_of_head? {front more rest : Octets} (h : more.head? = rest.head?) :
    (front ++ more).head? = (front ++ rest).head? := by
  cases front with
  | nil => exact h
  | cons b front => rfl

theorem drop_takeWhile (p : UInt8 → Bool) (s : Octets) : s.drop (s.takeWhile p).length = s.dropWhile p := by
  have hsplit : (s.takeWhile p ++ s.dropWhile p).drop (s.takeWhile p).length = s.dropWhile p := List.drop_left
  rwa [List.takeWhile_append_dropWhile] at hsplit

/-- The octets of a kind in front of a text are the same ones in front of any text that goes on like it. -/
theorem takeWhile_goes_on {p : UInt8 → Bool} {s more : Octets} (h : more.head? = (s.dropWhile p).head?) :
    (s.takeWhile p ++ more).takeWhile p = s.takeWhile p := by
  have hall : ∀ b ∈ s.takeWhile p, p b = true := fun b hb => List.mem_takeWhile_imp hb
  have hstop : more.takeWhile p = [] := by
    cases more with
    | nil => rfl
    | cons b more =>
      have hb : p b = false := by
        have hnot := List.head?_dropWhile_not p s
        rw [← h] at hnot
        simpa using hnot
      rw [List.takeWhile_cons, hb]
      rfl
  rw [List.takeWhile_append_of_pos hall, hstop, List.append_nil]

/-- A reader takes the octets in front of `rest` for something. It does so in front of any text that goes on like
`rest`. -/
def TakesFront {α : Type} (read : Octets → Option (α × Octets)) (s : Octets) (a : α) (rest : Octets) : Prop :=
  ∃ front, s = front ++ rest ∧ ∀ more, more.head? = rest.head? → read (front ++ more) = some (a, more)

namespace Numeral

variable {s rest : Octets}

/-- The digits before the point go on up to what follows them. -/
theorem takeWhole_front {whole : Octets} (h : takeWhole s = whole) (hne : whole ≠ []) : ∃ rest, s = whole ++ rest ∧
    ∀ more, more.head? = rest.head? → takeWhole (whole ++ more) = whole := by
  unfold takeWhole at h
  split at h
  next hzero =>
    subst h
    cases s with
    | nil => cases hzero
    | cons b tail =>
      obtain rfl : b = Ascii.zero := Option.some.inj hzero
      exact ⟨tail, rfl, fun more _ => rfl⟩
  next hzero =>
    subst h
    refine ⟨s.dropWhile isDigit, (List.takeWhile_append_dropWhile ..).symm, fun more hmore => ?_⟩
    have hfirst : (s.takeWhile isDigit ++ more)[0]? = s[0]? := by
      rw [List.getElem?_append_left (List.length_pos_iff.mpr hne)]
      conv =>
        rhs
        rw [← List.takeWhile_append_dropWhile (p := isDigit) (l := s)]
      rw [List.getElem?_append_left (List.length_pos_iff.mpr hne)]
    rw [takeWhole, if_neg (by rwa [hfirst])]
    exact takeWhile_goes_on hmore

theorem takeFraction_point (s : Octets) : takeFraction (Ascii.point :: s) =
    if (s.takeWhile isDigit).isEmpty then none else some (some (s.takeWhile isDigit), s.dropWhile isDigit) := by
  rw [← drop_takeWhile]
  rfl

theorem takeFraction_of_head? (h : s.head? ≠ some Ascii.point) : takeFraction s = some (none, s) := by
  unfold takeFraction
  split
  next => exact absurd rfl h
  next => rfl

theorem takeFraction_front {fraction : Option Octets} (h : takeFraction s = some (fraction, rest)) :
    TakesFront takeFraction s fraction rest := by
  by_cases hpoint : s.head? = some Ascii.point
  · obtain ⟨tail, rfl⟩ := List.head?_eq_some_iff.mp hpoint
    rw [takeFraction_point] at h
    split at h
    next => cases h
    next hdigits =>
      obtain ⟨rfl, rfl⟩ := Prod.mk.inj (Option.some.inj h)
      refine ⟨Ascii.point :: tail.takeWhile isDigit, ?_, fun more hmore => ?_⟩
      · rw [List.cons_append, List.takeWhile_append_dropWhile]
      · rw [List.cons_append, takeFraction_point, takeWhile_goes_on hmore, if_neg hdigits, ← drop_takeWhile,
          takeWhile_goes_on hmore, List.drop_left]
  · rw [takeFraction_of_head? hpoint] at h
    obtain ⟨rfl, rfl⟩ := Prod.mk.inj (Option.some.inj h)
    refine ⟨[], rfl, fun more hmore => ?_⟩
    rw [List.nil_append]
    exact takeFraction_of_head? (hmore ▸ hpoint)

theorem takeSign_front (s : Octets) : ∃ sign, s = sign ++ (Decimal.takeSign s).2 ∧
    ∀ more, more.head? = (Decimal.takeSign s).2.head? →
      Decimal.takeSign (sign ++ more) = ((Decimal.takeSign s).1, more) := by
  unfold Decimal.takeSign
  split
  next tail => exact ⟨[Ascii.minus], rfl, fun more _ => rfl⟩
  next tail => exact ⟨[Ascii.plus], rfl, fun more _ => rfl⟩
  next hminus hplus =>
    refine ⟨[], rfl, fun more hmore => ?_⟩
    cases more with
    | nil => rfl
    | cons b more =>
      obtain ⟨tail, rfl⟩ := List.head?_eq_some_iff.mp hmore.symm
      rw [List.nil_append]
      split
      next heq => exact (hminus tail (by rw [(List.cons.inj heq).1])).elim
      next heq => exact (hplus tail (by rw [(List.cons.inj heq).1])).elim
      next => rfl

theorem takeExponent_front {exponent : Option (Bool × Octets)} (h : takeExponent s = some (exponent, rest)) :
    TakesFront takeExponent s exponent rest := by
  cases s with
  | nil =>
    obtain ⟨rfl, rfl⟩ := Prod.mk.inj (Option.some.inj h)
    refine ⟨[], rfl, fun more hmore => ?_⟩
    obtain rfl := List.head?_eq_none_iff.mp hmore
    rfl
  | cons mark s =>
    rw [takeExponent] at h
    split at h
    next hmark =>
      obtain ⟨sign, hsign, hgoes⟩ := takeSign_front s
      generalize Decimal.takeSign s = p at h hsign hgoes
      obtain ⟨negative, body⟩ := p
      simp only [drop_takeWhile] at h hsign hgoes
      split at h
      next => cases h
      next hdigits =>
        obtain ⟨rfl, rfl⟩ := Prod.mk.inj (Option.some.inj h)
        refine ⟨mark :: (sign ++ body.takeWhile isDigit), ?_, fun more hmore => ?_⟩
        · rw [hsign, List.cons_append, List.append_assoc, List.takeWhile_append_dropWhile]
        · have hbody : (body.takeWhile isDigit ++ more).head? = body.head? := by
            rw [head?_append_of_head? hmore, List.takeWhile_append_dropWhile]
          rw [List.cons_append, List.append_assoc, takeExponent, if_pos hmark, hgoes _ hbody]
          simp only [takeWhile_goes_on hmore, if_neg hdigits, List.drop_left]
    next hmark =>
      obtain ⟨rfl, rfl⟩ := Prod.mk.inj (Option.some.inj h)
      refine ⟨[], rfl, fun more hmore => ?_⟩
      obtain ⟨tail, rfl⟩ := List.head?_eq_some_iff.mp hmore
      rw [List.nil_append, takeExponent, if_neg hmark]

/-- The numeral behind its sign. -/
def takeUnsigned? (negative : Bool) (s : Octets) : Option (Numeral × Octets) := do
  guard !(takeWhole s).isEmpty
  let (fraction, rest) ← takeFraction (s.drop (takeWhole s).length)
  let (exponent, rest) ← takeExponent rest
  pure ({ negative, whole := takeWhole s, fraction, exponent }, rest)

theorem take?_of_head? (h : s.head? ≠ some Ascii.minus) : take? s = takeUnsigned? false s := by
  unfold take?
  split
  next negative tail hsign =>
    split at hsign
    next => exact absurd rfl h
    next =>
      obtain ⟨rfl, rfl⟩ := Prod.mk.inj hsign
      rfl

theorem takeUnsigned_front {negative : Bool} {n : Numeral} (h : takeUnsigned? negative s = some (n, rest)) :
    ∃ front, front ≠ [] ∧ s = front ++ rest ∧
      ∀ more, more.head? = rest.head? → takeUnsigned? negative (front ++ more) = some (n, more) := by
  obtain ⟨_, hguard, h⟩ := Option.bind_eq_some_iff.mp h
  obtain ⟨⟨fraction, middle⟩, hfraction, h⟩ := Option.bind_eq_some_iff.mp h
  obtain ⟨⟨exponent, last⟩, hexponent, h⟩ := Option.bind_eq_some_iff.mp h
  obtain ⟨rfl, rfl⟩ := Prod.mk.inj (Option.some.inj h)
  have hne : takeWhole s ≠ [] := by
    intro hnil
    rw [hnil] at hguard
    cases hguard
  obtain ⟨tail, hs, hwhole⟩ := takeWhole_front rfl hne
  generalize takeWhole s = whole at hs hne hwhole hguard hfraction ⊢
  subst hs
  rw [List.drop_left] at hfraction
  obtain ⟨front, rfl, hfront⟩ := takeFraction_front hfraction
  obtain ⟨back, rfl, hback⟩ := takeExponent_front hexponent
  refine ⟨whole ++ (front ++ back), List.append_ne_nil_of_left_ne_nil hne _, by simp only [List.append_assoc],
    fun more hmore => ?_⟩
  have hmiddle : (back ++ more).head? = (back ++ last).head? := head?_append_of_head? hmore
  have htail : (front ++ (back ++ more)).head? = (front ++ (back ++ last)).head? := head?_append_of_head? hmiddle
  simp only [List.append_assoc]
  unfold takeUnsigned?
  rw [hwhole _ htail, hguard, List.drop_left, hfront _ hmiddle]
  simp only [Option.bind_eq_bind, Option.bind_some, hback _ hmore]
  rfl

theorem take_front {n : Numeral} (h : take? s = some (n, rest)) : ∃ front, front ≠ [] ∧ s = front ++ rest ∧
    ∀ more, more.head? = rest.head? → take? (front ++ more) = some (n, more) := by
  by_cases hminus : s.head? = some Ascii.minus
  · obtain ⟨tail, rfl⟩ := List.head?_eq_some_iff.mp hminus
    obtain ⟨front, -, rfl, hfront⟩ := takeUnsigned_front (show takeUnsigned? true tail = some (n, rest) from h)
    exact ⟨Ascii.minus :: front, List.cons_ne_nil _ _, rfl, hfront⟩
  · rw [take?_of_head? hminus] at h
    obtain ⟨front, hne, rfl, hfront⟩ := takeUnsigned_front h
    refine ⟨front, hne, rfl, fun more hmore => ?_⟩
    rw [take?_of_head? (by rwa [head?_append_of_head? hmore])]
    exact hfront more hmore

theorem isObject_of_toJson {n : Numeral} {j : Json} (h : n.toJson = .ok j) : j.isObject = false := by
  unfold toJson toReal at h
  dsimp only at h
  split_ifs at h
  all_goals cases h
  all_goals rfl

end Numeral

namespace Json

variable {s rest : Octets}

theorem unit_of_take {s' : Octets} (h : s'.take 4 = s.take 4) : unit? s' = unit? s := by
  unfold unit?
  rw [h]

/-- An escape by number is told by the octets that it takes up. -/
theorem codePoint_of_take {n size : Nat} (h : codePoint? s = some (n, size)) {s' : Octets}
    (hsame : s'.take size = s.take size) : codePoint? s' = some (n, size) := by
  have hunit : ∀ first, unit? s = some first → s'.take 4 = s.take 4 → unit? s' = some first :=
    fun first hfirst hfour => (unit_of_take hfour).trans hfirst
  obtain ⟨first, hfirst, h⟩ := Option.bind_eq_some_iff.mp h
  split at h
  next hhigh =>
    obtain ⟨_, hmark, h⟩ := Option.bind_eq_some_iff.mp h
    obtain ⟨second, hsecond, h⟩ := Option.bind_eq_some_iff.mp h
    obtain ⟨_, hlow, h⟩ := Option.bind_eq_some_iff.mp h
    obtain ⟨rfl, rfl⟩ := Prod.mk.inj (Option.some.inj h)
    have hpart : ∀ i k, i + k ≤ 10 → (s'.drop i).take k = (s.drop i).take k := by
      intro i k hik
      have hten := congrArg (fun t : Octets => (t.drop i).take k) hsame
      simpa only [List.drop_take, List.take_take, Nat.min_eq_left (show k ≤ 10 - i by omega)] using hten
    have hfirst' : unit? s' = some first := (unit_of_take (hpart 0 4 (by decide))).trans hfirst
    have hsecond' : unit? (s'.drop 6) = some second := (unit_of_take (hpart 6 4 (by decide))).trans hsecond
    unfold codePoint?
    simp only [hfirst', Option.bind_eq_bind, Option.bind_some, if_pos hhigh, hpart 4 2 (by decide), hmark, hsecond',
      hlow]
    rfl
  next hhigh =>
    obtain ⟨_, hlow, h⟩ := Option.bind_eq_some_iff.mp h
    obtain ⟨rfl, rfl⟩ := Prod.mk.inj (Option.some.inj h)
    unfold codePoint?
    simp only [unit_of_take hsame, hfirst, Option.bind_eq_bind, Option.bind_some, if_neg hhigh, hlow]
    rfl

theorem takeQuoted_front {skip : Nat} {t : Octets} (h : takeQuoted? skip s = some (t, rest)) :
    ∃ front, s = front ++ rest ∧ skip < front.length ∧ ∀ more, takeQuoted? skip (front ++ more) = some (t, more) := by
  fun_induction takeQuoted? skip s generalizing t rest with
  | case1 => cases h
  | case2 skip b s ih =>
    obtain ⟨front, rfl, hlength, hfront⟩ := ih h
    exact ⟨b :: front, rfl, Nat.succ_lt_succ hlength, hfront⟩
  | case3 tail =>
    obtain ⟨rfl, rfl⟩ := Prod.mk.inj (Option.some.inj h)
    exact ⟨[Ascii.quoteMark], rfl, by decide, fun more => rfl⟩
  | case4 => cases h
  | case5 => cases h
  | case6 tail hquote hlow ih =>
    obtain ⟨⟨n, size⟩, hcode, h⟩ := Option.bind_eq_some_iff.mp h
    obtain ⟨⟨t', last⟩, htail, h⟩ := Option.bind_eq_some_iff.mp h
    obtain ⟨rfl, rfl⟩ := Prod.mk.inj (Option.some.inj h)
    obtain ⟨front, hsplit, hlength, hfront⟩ := ih size htail
    obtain ⟨_, front, rfl⟩ := List.exists_cons_of_length_pos (Nat.zero_lt_of_lt hlength)
    obtain ⟨rfl, rfl⟩ := List.cons.inj hsplit
    have hsize : size ≤ front.length := Nat.le_of_lt (Nat.lt_of_succ_lt_succ hlength)
    refine ⟨Ascii.backslash :: Ascii.lowerU :: front, rfl, Nat.succ_pos _, fun more => ?_⟩
    have hsame : (front ++ more).take size = (front ++ last).take size := by
      rw [List.take_append_of_le_length hsize, List.take_append_of_le_length hsize]
    have hmore := hfront more
    simp only [List.cons_append] at hmore ⊢
    rw [takeQuoted?]
    simp only [hquote, hlow, if_false, if_true, codePoint_of_take hcode hsame, Option.bind_eq_bind, Option.bind_some,
      hmore]
    rfl
  | case7 letter tail hletter hquote hlow ih =>
    obtain ⟨c, hc, h⟩ := Option.bind_eq_some_iff.mp h
    obtain ⟨⟨t', last⟩, htail, h⟩ := Option.bind_eq_some_iff.mp h
    obtain ⟨rfl, rfl⟩ := Prod.mk.inj (Option.some.inj h)
    obtain ⟨front, hsplit, hlength, hfront⟩ := ih htail
    obtain ⟨_, front, rfl⟩ := List.exists_cons_of_length_pos (Nat.zero_lt_of_lt hlength)
    obtain ⟨rfl, rfl⟩ := List.cons.inj hsplit
    refine ⟨Ascii.backslash :: letter :: front, rfl, Nat.succ_pos _, fun more => ?_⟩
    have hmore := hfront more
    simp only [List.cons_append] at hmore ⊢
    rw [takeQuoted?]
    simp only [hquote, hlow, hletter, if_false, if_true, hc, Option.bind_eq_bind, Option.bind_some, hmore]
    rfl
  | case8 b tail hquote hlow hslash ih =>
    obtain ⟨⟨t', last⟩, htail, h⟩ := Option.bind_eq_some_iff.mp h
    obtain ⟨rfl, rfl⟩ := Prod.mk.inj (Option.some.inj h)
    obtain ⟨front, rfl, -, hfront⟩ := ih htail
    refine ⟨b :: front, rfl, Nat.succ_pos _, fun more => ?_⟩
    rw [List.cons_append, takeQuoted?.eq_def]
    simp only [hquote, hlow, hslash, if_false, Option.bind_eq_bind, Option.bind_some, hfront more]
    rfl

theorem readQuoted_front {t : Octets} (h : readQuoted s = .ok (t, rest)) :
    ∃ front, front ≠ [] ∧ s = front ++ rest ∧ ∀ more, readQuoted (front ++ more) = .ok (t, more) := by
  unfold readQuoted at h
  split at h
  next t' last htake =>
    split at h
    next hwell =>
      obtain ⟨rfl, rfl⟩ := Prod.mk.inj (Except.ok.inj h)
      obtain ⟨front, rfl, hlength, hfront⟩ := takeQuoted_front htake
      refine ⟨front, List.length_pos_iff.mp hlength, rfl, fun more => ?_⟩
      rw [readQuoted, hfront more]
      simp only [hwell, if_true]
      rfl
    next => cases h
  next => cases h

theorem readWord_front {j : Json} (h : readWord s = .ok (j, rest)) :
    ∃ front, front ≠ [] ∧ s = front ++ rest ∧ ∀ more, readWord (front ++ more) = .ok (j, more) := by
  unfold readWord at h
  split at h
  next hnull =>
    obtain ⟨tail, rfl⟩ := List.isPrefixOf_iff_prefix.mp hnull
    obtain ⟨rfl, rfl⟩ := Prod.mk.inj (Except.ok.inj h)
    exact ⟨octets "null", by decide, rfl, fun more => rfl⟩
  next =>
    split at h
    next htrue =>
      obtain ⟨tail, rfl⟩ := List.isPrefixOf_iff_prefix.mp htrue
      obtain ⟨rfl, rfl⟩ := Prod.mk.inj (Except.ok.inj h)
      exact ⟨octets "true", by decide, rfl, fun more => rfl⟩
    next =>
      split at h
      next hfalse =>
        obtain ⟨tail, rfl⟩ := List.isPrefixOf_iff_prefix.mp hfalse
        obtain ⟨rfl, rfl⟩ := Prod.mk.inj (Except.ok.inj h)
        exact ⟨octets "false", by decide, rfl, fun more => rfl⟩
      next => cases h

theorem readNumber_front {j : Json} (h : readNumber s = .ok (j, rest)) : j.isObject = false ∧
    ∃ front, front ≠ [] ∧ s = front ++ rest ∧
      ∀ more, more.head? = rest.head? → readNumber (front ++ more) = .ok (j, more) := by
  unfold readNumber at h
  split at h
  next n last htake =>
    cases hn : n.toJson with
    | error e =>
      rw [hn] at h
      cases h
    | ok j' =>
      rw [hn] at h
      obtain ⟨rfl, rfl⟩ := Prod.mk.inj (Except.ok.inj h)
      obtain ⟨front, hne, rfl, hfront⟩ := Numeral.take_front htake
      refine ⟨Numeral.isObject_of_toJson hn, front, hne, rfl, fun more hmore => ?_⟩
      rw [readNumber, hfront more hmore]
      simp only [hn]
      rfl
  next => cases h

end Json

end QuoteFeed
