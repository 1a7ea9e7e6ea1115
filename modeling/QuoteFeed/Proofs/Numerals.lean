import QuoteFeed.Digits
import Mathlib.Data.List.Induction
import Mathlib.Data.List.TakeWhile
import Mathlib.Tactic.Ring

/-!
Numerals: what is written in decimal digits is read as the number that was written, in as many digits as it
takes and in a fixed number of them.
-/

namespace QuoteFeed

theorem isDigit_iff {b : UInt8} : isDigit b = true ↔ 48 ≤ b.toNat ∧ b.toNat ≤ 57 := by
  rw [isDigit, Bool.and_eq_true, decide_eq_true_eq, decide_eq_true_eq, UInt8.le_iff_toNat_le, UInt8.le_iff_toNat_le]
  exact Iff.rfl

theorem digitOctet_toNat {d : Nat} (h : d < 10) : (digitOctet d).toNat = 48 + d := by
  have hbyte : 48 + d < 256 := by omega
  simp [digitOctet, Nat.mod_eq_of_lt hbyte]

theorem isDigit_digitOctet {d : Nat} (h : d < 10) : isDigit (digitOctet d) = true := by
  rw [isDigit_iff, digitOctet_toNat h]
  omega

theorem digitValue_digitOctet {d : Nat} (h : d < 10) : digitValue (digitOctet d) = d := by
  rw [digitValue, digitOctet_toNat h]
  omega

theorem digitValue_lt {b : UInt8} (h : isDigit b = true) : digitValue b < 10 := by
  obtain ⟨_, hhigh⟩ := isDigit_iff.mp h
  unfold digitValue
  omega

theorem digitOctet_digitValue {b : UInt8} (h : isDigit b = true) : digitOctet (digitValue b) = b := by
  obtain ⟨hlow, _⟩ := isDigit_iff.mp h
  apply UInt8.toNat_inj.mp
  rw [digitOctet_toNat (digitValue_lt h), digitValue]
  omega

theorem minus_not_digit : isDigit Ascii.minus = false := by decide

theorem digitsValue_concat (s : Octets) (b : UInt8) : digitsValue (s ++ [b]) = 10 * digitsValue s + digitValue b := by
  simp [digitsValue]

theorem digitsValue_append (s t : Octets) : digitsValue (s ++ t) = digitsValue s * 10 ^ t.length + digitsValue t := by
  induction t using List.reverseRecOn with
  | nil => simp [digitsValue]
  | append_singleton t b ih =>
    rw [← List.append_assoc, digitsValue_concat, ih, digitsValue_concat, List.length_append, List.length_singleton,
      pow_succ]
    ring

theorem digitsValue_lt {s : Octets} (h : s.all isDigit = true) : digitsValue s < 10 ^ s.length := by
  induction s using List.reverseRecOn with
  | nil => simp [digitsValue]
  | append_singleton s b ih =>
    rw [List.all_append, Bool.and_eq_true] at h
    have hs := ih h.1
    have hb : digitValue b < 10 := digitValue_lt (by simpa using h.2)
    rw [digitsValue_concat, List.length_append, List.length_singleton, pow_succ]
    omega

/-! ### As many digits as it takes -/

theorem decimalOnto_eq (n : Nat) (rest : Octets) : decimalOnto n rest = decimal n ++ rest := by
  induction n using Nat.strong_induction_on generalizing rest with
  | _ n ih =>
    rw [decimal, decimalOnto, decimalOnto.eq_1 n []]
    split
    next => rfl
    next hn =>
      have hless : n / 10 < n := by omega
      rw [ih _ hless, ih _ hless [digitOctet (n % 10)], List.append_assoc]
      rfl

theorem decimal_eq (n : Nat) :
    decimal n = if n < 10 then [digitOctet n] else decimal (n / 10) ++ [digitOctet (n % 10)] := by
  rw [decimal, decimalOnto, decimalOnto_eq]

theorem decimal_ne_nil (n : Nat) : decimal n ≠ [] := by
  rw [decimal_eq]
  split <;> simp

theorem all_decimal (n : Nat) : (decimal n).all isDigit = true := by
  induction n using Nat.strong_induction_on with
  | _ n ih =>
    rw [decimal_eq]
    split
    next hn => simp [isDigit_digitOctet hn]
    next hn =>
      have hlast : n % 10 < 10 := by omega
      rw [List.all_append, ih _ (by omega)]
      simp [isDigit_digitOctet hlast]

theorem digitsValue_decimal (n : Nat) : digitsValue (decimal n) = n := by
  induction n using Nat.strong_induction_on with
  | _ n ih =>
    rw [decimal_eq]
    split
    next hn => simp [digitsValue, digitValue_digitOctet hn]
    next hn =>
      have hlast : n % 10 < 10 := by omega
      rw [digitsValue_concat, ih _ (by omega), digitValue_digitOctet hlast]
      omega

theorem head_ne_minus {b : UInt8} {s : Octets} (h : (b :: s).all isDigit = true) : b ≠ Ascii.minus := by
  rintro rfl
  rw [List.all_cons, minus_not_digit] at h
  cases h

theorem leadingInt?_minus (s : Octets) : leadingInt? (Ascii.minus :: s) =
    if (s.takeWhile isDigit).isEmpty then none else some (-(digitsValue (s.takeWhile isDigit) : Int)) :=
  rfl

theorem leadingInt?_of_ne {b : UInt8} (hb : b ≠ Ascii.minus) (s : Octets) : leadingInt? (b :: s) =
    if ((b :: s).takeWhile isDigit).isEmpty then none else some (digitsValue ((b :: s).takeWhile isDigit) : Int) := by
  unfold leadingInt?
  split
  next negative body hbody =>
    split at hbody
    next heq => exact absurd (List.cons.inj heq).1 hb
    next =>
      obtain ⟨rfl, rfl⟩ := Prod.mk.inj hbody
      rfl

theorem leadingInt?_decimalInt (i : Int) : leadingInt? (decimalInt i) = some i := by
  have hall := all_decimal i.natAbs
  have hvalue := digitsValue_decimal i.natAbs
  have hwhole := List.takeWhile_eq_self_iff.mpr (List.all_eq_true.mp hall)
  obtain ⟨b, rest, hb⟩ := List.exists_cons_of_ne_nil (decimal_ne_nil i.natAbs)
  unfold decimalInt
  have hsome : ¬(b :: rest).isEmpty = true := by simp
  rw [hb] at hall hvalue hwhole ⊢
  split
  next hneg =>
    have hi : -(i.natAbs : Int) = i := by omega
    rw [leadingInt?_minus, hwhole, hvalue, if_neg hsome, hi]
  next hpos =>
    have hi : (i.natAbs : Int) = i := by omega
    rw [leadingInt?_of_ne (head_ne_minus hall), hwhole, hvalue, if_neg hsome, hi]

/-- The numeral of an integer is read as the integer, as long as 64 bits can hold it. -/
theorem numeralInt64?_decimalInt (i : Int) : numeralInt64? (decimalInt i) = if inInt64 i then some i else none := by
  rw [numeralInt64?, leadingInt64?, leadingInt?_decimalInt]
  split
  next h => simp [h]
  next h => simp [h]

theorem numeralInt64?_eq_some_iff {s : Octets} {i : Int} :
    numeralInt64? s = some i ↔ inInt64 i = true ∧ decimalInt i = s := by
  constructor
  · intro h
    obtain ⟨hleading, hsame⟩ := Option.filter_eq_some_iff.mp h
    obtain ⟨-, hin⟩ := Option.filter_eq_some_iff.mp hleading
    exact ⟨hin, of_decide_eq_true hsame⟩
  · rintro ⟨hin, rfl⟩
    rw [numeralInt64?_decimalInt, if_pos hin]

/-! ### A fixed number of digits -/

/-- The last digits of a number, zeros in front of it where it has fewer. -/
def padded : Nat → Nat → Octets
  | 0, _ => []
  | width + 1, n => padded width (n / 10) ++ [digitOctet (n % 10)]

@[simp] theorem length_padded (width n : Nat) : (padded width n).length = width := by
  induction width generalizing n with
  | zero => rfl
  | succ width ih => simp [padded, ih]

theorem all_padded (width n : Nat) : (padded width n).all isDigit = true := by
  induction width generalizing n with
  | zero => rfl
  | succ width ih =>
    have hlast : n % 10 < 10 := by omega
    rw [padded, List.all_append, ih]
    simp [isDigit_digitOctet hlast]

theorem digitsValue_padded (width n : Nat) : digitsValue (padded width n) = n % 10 ^ width := by
  induction width generalizing n with
  | zero => simp [padded, digitsValue, Nat.mod_one]
  | succ width ih =>
    have hlast : n % 10 < 10 := by omega
    rw [padded, digitsValue_concat, ih, digitValue_digitOctet hlast, pow_succ, Nat.mul_comm _ 10, Nat.mod_mul]
    omega

theorem padded_digitsValue {s : Octets} (h : s.all isDigit = true) : padded s.length (digitsValue s) = s := by
  induction s using List.reverseRecOn with
  | nil => rfl
  | append_singleton s b ih =>
    rw [List.all_append, Bool.and_eq_true] at h
    have hb : isDigit b = true := by simpa using h.2
    have hlt := digitValue_lt hb
    have hfront : (10 * digitsValue s + digitValue b) / 10 = digitsValue s := by omega
    have hlast : (10 * digitsValue s + digitValue b) % 10 = digitValue b := by omega
    rw [List.length_append, List.length_singleton, padded, digitsValue_concat, hfront, hlast, ih h.1,
      digitOctet_digitValue hb]

/-- Digits are read as the number that they stand for. -/
theorem wholeInt?_of_digits {s : Octets} (hne : s ≠ []) (h : s.all isDigit = true) :
    wholeInt? s = some (digitsValue s : Int) := by
  have hempty : s.isEmpty = false := List.isEmpty_eq_false_iff.mpr hne
  unfold wholeInt?
  split
  next digits => exact absurd h (by simp [minus_not_digit])
  next => simp [hempty, h]

theorem wholeInt?_padded {width n : Nat} (hwidth : 0 < width) (hn : n < 10 ^ width) :
    wholeInt? (padded width n) = some (n : Int) := by
  have hne : padded width n ≠ [] := by
    intro hnil
    have hlength := length_padded width n
    rw [hnil, List.length_nil] at hlength
    omega
  rw [wholeInt?_of_digits hne (all_padded width n), digitsValue_padded, Nat.mod_eq_of_lt hn]

/-- A text that is read as an integer is made of digits, behind a minus sign or not. -/
theorem wholeInt?_cases {s : Octets} {i : Int} (h : wholeInt? s = some i) : ∃ digits : Octets,
    digits.all isDigit = true ∧
      (s = digits ∧ i = digitsValue digits ∨ s = Ascii.minus :: digits ∧ i = -(digitsValue digits : Int)) := by
  unfold wholeInt? at h
  split at h
  next digits =>
    split at h
    next hdigits =>
      rw [Bool.and_eq_true] at hdigits
      exact ⟨digits, hdigits.2, .inr ⟨rfl, (Option.some.inj h).symm⟩⟩
    next => cases h
  next =>
    split at h
    next hdigits =>
      rw [Bool.and_eq_true] at hdigits
      exact ⟨s, hdigits.2, .inl ⟨rfl, (Option.some.inj h).symm⟩⟩
    next => cases h

theorem digits_of_wholeInt? {s : Octets} {i : Int} (h : wholeInt? s = some i) (hsign : Ascii.minus ∉ s) :
    s.all isDigit = true ∧ i = digitsValue s := by
  obtain ⟨digits, hdigits, ⟨rfl, hi⟩ | ⟨rfl, -⟩⟩ := wholeInt?_cases h
  · exact ⟨hdigits, hi⟩
  · exact absurd (List.mem_cons_self ..) hsign

theorem natAbs_lt_of_wholeInt? {s : Octets} {i : Int} (h : wholeInt? s = some i) : i.natAbs < 10 ^ s.length := by
  obtain ⟨digits, hdigits, ⟨rfl, rfl⟩ | ⟨rfl, rfl⟩⟩ := wholeInt?_cases h
  · rw [Int.natAbs_natCast]
    exact digitsValue_lt hdigits
  · have hlt := digitsValue_lt hdigits
    have hpow : 10 ^ digits.length ≤ 10 ^ (digits.length + 1) := Nat.pow_le_pow_right (by decide) (by omega)
    rw [Int.natAbs_neg, Int.natAbs_natCast, List.length_cons]
    exact hlt.trans_le hpow

end QuoteFeed
