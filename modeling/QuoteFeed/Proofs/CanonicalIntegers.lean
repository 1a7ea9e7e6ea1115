import QuoteFeed.Message
import QuoteFeed.Settings
import QuoteFeed.Proofs.Numerals

/-!
Integers in texts. The integer at the front of a text is that of the longest front that spells one, and a whole text
is taken for an integer if it is the one canonical numeral of it: printing the integer gives the text back.
-/

namespace QuoteFeed

/-- The texts of the form of an integer, each with the integer: a minus sign or none, and at least one digit. -/
inductive SpellsInteger : Octets → Int → Prop
  | plain {digits : Octets} : digits ≠ [] → digits.all isDigit = true → SpellsInteger digits (digitsValue digits)
  | negative {digits : Octets} : digits ≠ [] → digits.all isDigit = true →
      SpellsInteger (Ascii.minus :: digits) (-(digitsValue digits : Int))

/-- The canonical texts of integers: no sign but a minus sign, none for zero, and no zero before other digits. -/
inductive IsNumeral : Octets → Int → Prop
  | zero : IsNumeral [Ascii.zero] 0
  | positive {first : UInt8} {rest : Octets} : isDigit first = true → first ≠ Ascii.zero → rest.all isDigit = true →
      IsNumeral (first :: rest) (digitsValue (first :: rest))
  | negative {first : UInt8} {rest : Octets} : isDigit first = true → first ≠ Ascii.zero → rest.all isDigit = true →
      IsNumeral (Ascii.minus :: first :: rest) (-(digitsValue (first :: rest) : Int))

/-- The longest front of a text that is of the form of an integer, with the integer. -/
structure LongestSpelling (s front : Octets) (i : Int) : Prop where
  isFront : front <+: s
  spells : SpellsInteger front i
  longest : ∀ other j, other <+: s → SpellsInteger other j → other.length ≤ front.length

variable {s front other digits : Octets} {i j : Int} {n : Nat}

/-- The integers of 64 bits, one of which is the sign. -/
def FitsInt64 (i : Int) : Prop := -2 ^ 63 ≤ i ∧ i ≤ 2 ^ 63 - 1

theorem inInt64_iff : inInt64 i = true ↔ FitsInt64 i := by
  rw [inInt64, Bool.and_eq_true, decide_eq_true_eq, decide_eq_true_eq, int64Min, int64Max, FitsInt64]
  norm_num

/-! ### Canonical texts -/

theorem decimal_zero : decimal 0 = [Ascii.zero] := by
  rw [decimal_eq, if_pos (by decide)]
  rfl

theorem digitsValue_singleton (b : UInt8) : digitsValue [b] = digitValue b := by
  simp [digitsValue]

/-- The numeral of a number other than zero does not begin with a zero. -/
theorem exists_decimal_cons (hn : n ≠ 0) : ∃ first rest, decimal n = first :: rest ∧ isDigit first = true ∧
    first ≠ Ascii.zero ∧ rest.all isDigit = true := by
  induction n using Nat.strong_induction_on with
  | _ n ih =>
    rw [decimal_eq]
    split
    next hless =>
      refine ⟨digitOctet n, [], rfl, isDigit_digitOctet hless, fun hzero => hn ?_, rfl⟩
      rw [← digitValue_digitOctet hless, hzero]
      rfl
    next hless =>
      obtain ⟨first, rest, hfront, hdigit, hne, hrest⟩ := ih (n / 10) (by omega) (by omega)
      have hlast : n % 10 < 10 := by omega
      refine ⟨first, rest ++ [digitOctet (n % 10)], by rw [hfront, List.cons_append], hdigit, hne, ?_⟩
      simp [List.all_append, hrest, isDigit_digitOctet hlast]

/-- Digits that do not begin with a zero are the numeral of the number that they stand for. -/
theorem decimal_digitsValue {first : UInt8} {rest : Octets} (hfirst : isDigit first = true)
    (hne : first ≠ Ascii.zero) (hrest : rest.all isDigit = true) :
    decimal (digitsValue (first :: rest)) = first :: rest := by
  induction rest using List.reverseRecOn with
  | nil =>
    rw [digitsValue_singleton, decimal_eq, if_pos (digitValue_lt hfirst), digitOctet_digitValue hfirst]
  | append_singleton rest b ih =>
    rw [List.all_append, Bool.and_eq_true] at hrest
    have hb : isDigit b = true := by simpa using hrest.2
    have hless := digitValue_lt hb
    have hfront := ih hrest.1
    have hpos : digitsValue (first :: rest) ≠ 0 := by
      intro hzero
      rw [hzero, decimal_zero] at hfront
      exact hne (List.cons.inj hfront).1.symm
    rw [← List.cons_append, digitsValue_concat, decimal_eq, if_neg (by omega)]
    have hfrontValue : (10 * digitsValue (first :: rest) + digitValue b) / 10 = digitsValue (first :: rest) := by omega
    have hlastValue : (10 * digitsValue (first :: rest) + digitValue b) % 10 = digitValue b := by omega
    rw [hfrontValue, hlastValue, hfront, digitOctet_digitValue hb]

theorem isNumeral_decimalInt (i : Int) : IsNumeral (decimalInt i) i := by
  by_cases hi : i = 0
  · rw [hi, decimalInt, if_neg (by decide), Int.natAbs_zero, decimal_zero]
    exact .zero
  · obtain ⟨first, rest, hdecimal, hfirst, hne, hrest⟩ := exists_decimal_cons (Int.natAbs_ne_zero.mpr hi)
    have hvalue : digitsValue (first :: rest) = i.natAbs := hdecimal ▸ digitsValue_decimal i.natAbs
    rw [decimalInt, hdecimal]
    split
    next hneg =>
      have hnumeral := IsNumeral.negative hfirst hne hrest
      rwa [hvalue, show -(i.natAbs : Int) = i by omega] at hnumeral
    next hpos =>
      have hnumeral := IsNumeral.positive hfirst hne hrest
      rwa [hvalue, show (i.natAbs : Int) = i by omega] at hnumeral

theorem IsNumeral.decimalInt_eq (h : IsNumeral s i) : decimalInt i = s := by
  cases h with
  | zero => rw [decimalInt, if_neg (by decide), Int.natAbs_zero, decimal_zero]
  | positive hfirst hne hrest =>
    rw [decimalInt, if_neg (by omega), Int.natAbs_natCast, decimal_digitsValue hfirst hne hrest]
  | @negative first rest hfirst hne hrest =>
    have hdecimal := decimal_digitsValue hfirst hne hrest
    have hpos : digitsValue (first :: rest) ≠ 0 := by
      intro hzero
      rw [hzero, decimal_zero] at hdecimal
      exact hne (List.cons.inj hdecimal).1.symm
    rw [decimalInt, if_pos (by omega), Int.natAbs_neg, Int.natAbs_natCast, hdecimal]

/-- Of the texts of an integer, the one that is printed is the canonical one. -/
theorem decimalInt_eq_iff : decimalInt i = s ↔ IsNumeral s i :=
  ⟨fun h => h ▸ isNumeral_decimalInt i, IsNumeral.decimalInt_eq⟩

/-- The test by printing back accepts the canonical numerals of 64-bit integers and nothing else. -/
theorem numeralInt64?_iff_isNumeral : numeralInt64? s = some i ↔ IsNumeral s i ∧ FitsInt64 i := by
  rw [numeralInt64?_eq_some_iff, decimalInt_eq_iff, inInt64_iff, and_comm]

/-! ### The front of a text -/

/-- Digits at the front of a text are among those that are taken there. -/
theorem length_le_takeWhile (hfront : digits <+: s) (hdigits : digits.all isDigit = true) :
    digits.length ≤ (s.takeWhile isDigit).length := by
  obtain ⟨rest, rfl⟩ := hfront
  rw [List.takeWhile_append_of_pos fun b hb => List.all_eq_true.mp hdigits b hb, List.length_append]
  exact Nat.le_add_right _ _

theorem all_takeWhile (s : Octets) : (s.takeWhile isDigit).all isDigit = true :=
  List.all_eq_true.mpr fun _ hb => List.mem_takeWhile_imp hb

theorem SpellsInteger.ne_nil (h : SpellsInteger s i) : s ≠ [] := by
  cases h with
  | plain hne _ => exact hne
  | negative _ _ => exact List.cons_ne_nil _ _

theorem SpellsInteger.unique (h : SpellsInteger s i) (h' : SpellsInteger s j) : i = j := by
  cases h with
  | plain _ hall =>
    cases h' with
    | plain _ _ => rfl
    | negative _ _ => exact absurd rfl (head_ne_minus hall)
  | negative _ _ =>
    cases h' with
    | plain _ hall => exact absurd rfl (head_ne_minus hall)
    | negative _ _ => rfl

theorem LongestSpelling.unique (h : LongestSpelling s front i) (h' : LongestSpelling s other j) : i = j := by
  have hlength : front.length = other.length :=
    Nat.le_antisymm (h'.longest _ _ h.isFront h.spells) (h.longest _ _ h'.isFront h'.spells)
  have hsame : front = other := (List.prefix_of_prefix_length_le h.isFront h'.isFront hlength.le).eq_of_length hlength
  exact h.spells.unique (hsame ▸ h'.spells)

/-- A front behind a minus sign has the digits that follow the sign. -/
theorem length_le_of_minus (hfront : front <+: Ascii.minus :: s) (h : SpellsInteger front i) :
    ∃ digits, front = Ascii.minus :: digits ∧ digits ≠ [] ∧ digits.length ≤ (s.takeWhile isDigit).length := by
  cases h with
  | plain hne hall =>
    obtain ⟨b, rest, rfl⟩ := List.exists_cons_of_ne_nil hne
    exact absurd (List.cons_prefix_cons.mp hfront).1 (head_ne_minus hall)
  | @negative digits hne hall =>
    exact ⟨digits, rfl, hne, length_le_takeWhile (List.cons_prefix_cons.mp hfront).2 hall⟩

/-- A front without a sign has the digits that the text begins with. -/
theorem length_le_of_ne {b : UInt8} (hb : b ≠ Ascii.minus) (hfront : front <+: b :: s) (h : SpellsInteger front i) :
    front ≠ [] ∧ front.length ≤ ((b :: s).takeWhile isDigit).length := by
  cases h with
  | plain hne hall => exact ⟨hne, length_le_takeWhile hfront hall⟩
  | negative _ _ => exact absurd (List.cons_prefix_cons.mp hfront).1.symm hb

theorem ne_nil_of_length_le {digits taken : Octets} (hne : digits ≠ []) (hle : digits.length ≤ taken.length) :
    taken ≠ [] := by
  have hpos : 0 < digits.length := List.length_pos_iff.mpr hne
  exact List.ne_nil_of_length_pos (by omega)

/-- What is read at the front of a text is its longest front of the form of an integer; nothing is read if there is
no such front. -/
theorem leadingInt?_cases (s : Octets) : (∃ front i, leadingInt? s = some i ∧ LongestSpelling s front i) ∨
    leadingInt? s = none ∧ ∀ front i, front <+: s → ¬SpellsInteger front i := by
  cases s with
  | nil => exact .inr ⟨rfl, fun front i hfront h => h.ne_nil (List.prefix_nil.mp hfront)⟩
  | cons b body =>
    by_cases hb : b = Ascii.minus
    · subst hb
      rw [leadingInt?_minus]
      by_cases hdigits : body.takeWhile isDigit = []
      · rw [hdigits]
        refine .inr ⟨rfl, fun front i hfront h => ?_⟩
        obtain ⟨digits, -, hne, hle⟩ := length_le_of_minus hfront h
        exact ne_nil_of_length_le hne hle hdigits
      · rw [if_neg (by simpa using hdigits)]
        refine .inl ⟨Ascii.minus :: body.takeWhile isDigit, _, rfl, ?_, .negative hdigits (all_takeWhile body), ?_⟩
        · exact List.cons_prefix_cons.mpr ⟨rfl, List.takeWhile_prefix _⟩
        · intro other j hother h
          obtain ⟨digits, rfl, -, hle⟩ := length_le_of_minus hother h
          exact Nat.succ_le_succ hle
    · rw [leadingInt?_of_ne hb]
      by_cases hdigits : (b :: body).takeWhile isDigit = []
      · rw [hdigits]
        refine .inr ⟨rfl, fun front i hfront h => ?_⟩
        obtain ⟨hne, hle⟩ := length_le_of_ne hb hfront h
        exact ne_nil_of_length_le hne hle hdigits
      · rw [if_neg (by simpa using hdigits)]
        refine .inl ⟨(b :: body).takeWhile isDigit, _, rfl, List.takeWhile_prefix _,
          .plain hdigits (all_takeWhile _), fun other j hother h => (length_le_of_ne hb hother h).2⟩

theorem leadingInt?_eq_some_iff : leadingInt? s = some i ↔ ∃ front, LongestSpelling s front i := by
  rcases leadingInt?_cases s with ⟨front, j, hread, hlongest⟩ | ⟨hread, hnone⟩
  · rw [hread, Option.some_inj]
    exact ⟨fun h => ⟨front, h ▸ hlongest⟩, fun ⟨_, h⟩ => hlongest.unique h⟩
  · rw [hread]
    exact ⟨fun h => absurd h (by simp), fun ⟨other, h⟩ => absurd h.spells (hnone other i h.isFront)⟩

theorem leadingInt64?_eq_some_iff :
    leadingInt64? s = some i ↔ (∃ front, LongestSpelling s front i) ∧ FitsInt64 i := by
  rw [leadingInt64?, Option.filter_eq_some_iff, leadingInt?_eq_some_iff, inInt64_iff]

theorem leadingInt64?_eq_none_iff : leadingInt64? s = none ↔ (∀ front i, front <+: s → ¬SpellsInteger front i) ∨
    ∃ front i, LongestSpelling s front i ∧ ¬FitsInt64 i := by
  rw [leadingInt64?, Option.filter_eq_none_iff]
  rcases leadingInt?_cases s with ⟨front, j, hread, hlongest⟩ | ⟨hread, hnone⟩
  · rw [hread]
    constructor
    · intro h
      exact .inr ⟨front, j, hlongest, fun hin => h j rfl (inInt64_iff.mpr hin)⟩
    · rintro (hnone | ⟨other, k, hother, hout⟩) i hi hin
      · exact hnone front j hlongest.isFront hlongest.spells
      · obtain rfl := Option.some.inj hi
        exact hout (hlongest.unique hother ▸ inInt64_iff.mp hin)
  · rw [hread]
    exact ⟨fun _ => .inl hnone, fun _ i hi => absurd hi (by simp)⟩

/-- A time in a text is a count of milliseconds if the text is a canonical numeral, and civil time otherwise. -/
theorem timestamp_text (key s : Octets) :
    (∀ i, IsNumeral s i → FitsInt64 i → Message.timestamp key (.text s) = Message.millisField key i) ∧
      ((∀ i, IsNumeral s i → ¬FitsInt64 i) →
        Message.timestamp key (.text s) = (Instant.ofIso8601? s).elim (throw (.notTimestamp key)) pure) := by
  constructor
  · intro i hnumeral hfits
    rw [Message.timestamp, numeralInt64?_iff_isNumeral.mpr ⟨hnumeral, hfits⟩]
  · intro hnone
    have hread : numeralInt64? s = none := by
      refine Option.eq_none_iff_forall_not_mem.mpr fun i hi => ?_
      obtain ⟨hnumeral, hfits⟩ := numeralInt64?_iff_isNumeral.mp hi
      exact hnone i hnumeral hfits
    rw [Message.timestamp, hread]

/-- A variable that is set holds a time if its value is a canonical numeral, and that time. -/
theorem millisOf_eq_ok_iff {env : Settings.Environment} {name : Octets} {current : Int}
    (hset : Settings.value? env name = some s) :
    Settings.millisOf env name current = .ok i ↔ IsNumeral s i ∧ FitsInt64 i := by
  rw [← numeralInt64?_iff_isNumeral, Settings.millisOf, hset]
  change (numeralInt64? s).elim (.error (Settings.Error.environment name s)) Except.ok = Except.ok i ↔ _
  cases numeralInt64? s with
  | none => simp
  | some j => exact ⟨fun h => congrArg some (Except.ok.inj h), fun h => congrArg Except.ok (Option.some.inj h)⟩

/-- For every text: the test by printing back succeeds exactly with the integer of which the text is the canonical
numeral, if 64 bits can hold it; that integer is what a time in a text and a time in a variable are taken for. Without
the test, the integer is that of the longest front of the form of an integer, and there is none exactly if there is no
such front or if 64 bits cannot hold its integer. -/
theorem integers_read_canonically (s : Octets) :
    (∀ i, leadingInt64? s = some i ∧ decimalInt i = s ↔ IsNumeral s i ∧ FitsInt64 i) ∧
    (∀ i, numeralInt64? s = some i ↔ leadingInt64? s = some i ∧ decimalInt i = s) ∧
    (∀ key i, IsNumeral s i → FitsInt64 i → Message.timestamp key (.text s) = Message.millisField key i) ∧
    (∀ key, (∀ i, IsNumeral s i → ¬FitsInt64 i) →
      Message.timestamp key (.text s) = (Instant.ofIso8601? s).elim (throw (.notTimestamp key)) pure) ∧
    (∀ env name current, Settings.value? env name = some s →
      ∀ i, Settings.millisOf env name current = .ok i ↔ IsNumeral s i ∧ FitsInt64 i) ∧
    (∀ i, leadingInt64? s = some i ↔ (∃ front, LongestSpelling s front i) ∧ FitsInt64 i) ∧
    (leadingInt64? s = none ↔ (∀ front i, front <+: s → ¬SpellsInteger front i) ∨
      ∃ front i, LongestSpelling s front i ∧ ¬FitsInt64 i) := by
  have htest : ∀ i, numeralInt64? s = some i ↔ leadingInt64? s = some i ∧ decimalInt i = s := by
    intro i
    rw [numeralInt64?, Option.filter_eq_some_iff, decide_eq_true_eq]
  refine ⟨fun i => (htest i).symm.trans numeralInt64?_iff_isNumeral, htest, fun key => (timestamp_text key s).1,
    fun key => (timestamp_text key s).2, ?_, fun _ => leadingInt64?_eq_some_iff, leadingInt64?_eq_none_iff⟩
  intro env name current hset i
  exact millisOf_eq_ok_iff hset

/-- The numeral of the least integer of 64 bits. -/
def leastText : Octets := octets "-9223372036854775808"

theorem leastText_canonical :
    IsNumeral leastText (-9223372036854775808) ∧ FitsInt64 (-9223372036854775808) ∧
      Message.timestamp (octets "t") (.text leastText) = .error (.outOfRange (octets "t")) ∧
      Settings.millisOf [(octets "x", leastText)] (octets "x") 0 = .ok (-9223372036854775808) ∧
      (∀ i, IsNumeral (octets "-0") i → ¬FitsInt64 i) ∧
      Message.timestamp (octets "t") (.text (octets "-0")) = .error (.notTimestamp (octets "t")) := by
  obtain ⟨hcanonical, -, htime, -, hvariable, -, -⟩ := integers_read_canonically leastText
  obtain ⟨hcanonical', htest', -, hcivil, -, -, -⟩ := integers_read_canonically (octets "-0")
  have hread : IsNumeral leastText (-9223372036854775808) ∧ FitsInt64 (-9223372036854775808) :=
    (hcanonical _).mp (by decide +kernel)
  have hnone : ∀ i, IsNumeral (octets "-0") i → ¬FitsInt64 i := by
    intro i hnumeral hfits
    have hread' := (htest' i).mpr ((hcanonical' i).mpr ⟨hnumeral, hfits⟩)
    rw [show numeralInt64? (octets "-0") = none by decide +kernel] at hread'
    cases hread'
  refine ⟨hread.1, hread.2, ?_, ?_, hnone, hcivil (octets "t") hnone⟩
  · rw [htime (octets "t") _ hread.1 hread.2]
    rfl
  · exact (hvariable [(octets "x", leastText)] (octets "x") 0 (by decide +kernel) _).mpr hread

end QuoteFeed
