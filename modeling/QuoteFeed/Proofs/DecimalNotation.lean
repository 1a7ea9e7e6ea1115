import QuoteFeed.DecimalText
import QuoteFeed.Proofs.Rounding
import QuoteFeed.Proofs.Splitting

/-!
Decimal notation. A sign, digits with a point among them or at either end, and a power of ten make a number; a text
is read as a floating-point number exactly if it is of this form and what it denotes is in range, and the number
read is the nearest one.
-/

namespace QuoteFeed

/-- A sign in front of a number. -/
inductive SignMark where
  | none
  | plus
  | minus

namespace SignMark

def text : SignMark → Octets
  | none => []
  | plus => [Ascii.plus]
  | minus => [Ascii.minus]

def negative : SignMark → Bool
  | minus => true
  | _ => false

end SignMark

/-- The power of ten behind a number: a mark, a sign and at least one digit. -/
structure TenPower where
  upper : Bool
  sign : SignMark
  digits : Octets
  allDigits : digits.all isDigit = true
  someDigit : digits ≠ []

namespace TenPower

def text (e : TenPower) : Octets := (if e.upper then Ascii.upperE else Ascii.lowerE) :: (e.sign.text ++ e.digits)

def value (e : TenPower) : Int := if e.sign.negative then -(digitsValue e.digits : Int) else digitsValue e.digits

end TenPower

/-- A number in decimal notation: a sign, digits before and behind a point, of which there is at least one, and a
power of ten. -/
structure DecimalForm where
  sign : SignMark
  whole : Octets
  fraction : Option Octets
  power : Option TenPower
  wholeDigits : whole.all isDigit = true
  fractionDigits : ∀ digits ∈ fraction, digits.all isDigit = true
  someDigit : whole ≠ [] ∨ fraction.getD [] ≠ []

namespace DecimalForm

/-- A number without a point. -/
def ofWhole (sign : SignMark) (whole : Octets) (power : Option TenPower) (wholeDigits : whole.all isDigit = true)
    (someDigit : whole ≠ []) : DecimalForm where
  sign
  whole
  fraction := none
  power
  wholeDigits
  fractionDigits := by simp
  someDigit := .inl someDigit

variable (p : DecimalForm)

/-- The point and the digits behind it. -/
def fractionText : Octets := p.fraction.elim [] fun digits => Ascii.point :: digits

def powerText : Octets := p.power.elim [] TenPower.text

def text : Octets := p.sign.text ++ (p.whole ++ (p.fractionText ++ p.powerText))

/-- The power of ten. -/
def exponent : Int := p.power.elim 0 TenPower.value

/-- The number without its sign. -/
def magnitude : ℚ :=
  (digitsValue p.whole + digitsValue (p.fraction.getD []) / 10 ^ (p.fraction.getD []).length) * 10 ^ p.exponent

/-- The number denoted. -/
def value : ℚ := Binary64.withSign p.sign.negative p.magnitude

/-- The number denoted, as digits with an exponent. -/
def toDecimal : Decimal where
  negative := p.sign.negative
  digits := digitsValue (p.whole ++ p.fraction.getD [])
  exponent := p.exponent - (p.fraction.getD []).length

theorem magnitude_nonneg : 0 ≤ p.magnitude := by
  have hfraction : (0 : ℚ) ≤ digitsValue (p.fraction.getD []) / 10 ^ (p.fraction.getD []).length :=
    div_nonneg (Nat.cast_nonneg _) (pow_nonneg (by norm_num) _)
  exact mul_nonneg (add_nonneg (Nat.cast_nonneg _) hfraction) (zpow_nonneg (by norm_num) _)

theorem abs_value : |p.value| = p.magnitude := by
  rw [value, Binary64.withSign]
  split
  · rw [abs_neg, abs_of_nonneg p.magnitude_nonneg]
  · rw [abs_of_nonneg p.magnitude_nonneg]

theorem magnitude_eq : p.magnitude = p.toDecimal.digits * 10 ^ p.toDecimal.exponent := by
  have hten : (10 : ℚ) ^ (p.fraction.getD []).length ≠ 0 := pow_ne_zero _ (by norm_num)
  rw [magnitude, toDecimal, digitsValue_append, zpow_sub₀ (by norm_num), zpow_natCast]
  push_cast
  field_simp

/-- The nearest floating-point number is the one that the digits and the exponent give. -/
theorem roundsTo_toBinary64 : Binary64.RoundsTo p.sign.negative p.magnitude p.toDecimal.toBinary64 := by
  rw [magnitude_eq]
  exact Binary64.roundsTo_ofDecimal ..

end DecimalForm

/-! ### Reading -/

theorem point_not_digit : isDigit Ascii.point = false := by decide

theorem mark_not_digit (upper : Bool) : isDigit (if upper then Ascii.upperE else Ascii.lowerE) = false := by
  cases upper <;> decide

theorem Decimal.takeSign_plain {s : Octets} (hminus : s.head? ≠ some Ascii.minus) (hplus : s.head? ≠ some Ascii.plus) :
    takeSign s = (false, s) := by
  unfold takeSign
  split
  next => exact absurd rfl hminus
  next => exact absurd rfl hplus
  next => rfl

theorem Decimal.takeFraction_point (s : Octets) :
    takeFraction (Ascii.point :: s) = (s.takeWhile isDigit, s.dropWhile isDigit) :=
  rfl

theorem Decimal.takeFraction_plain {s : Octets} (h : s.head? ≠ some Ascii.point) : takeFraction s = ([], s) := by
  unfold takeFraction
  split
  next => exact absurd rfl h
  next => rfl

/-- No sign is a digit or a point, so it ends where the number begins. -/
theorem SignMark.takeSign_text (sign : SignMark) {s : Octets} (hminus : s.head? ≠ some Ascii.minus)
    (hplus : s.head? ≠ some Ascii.plus) : Decimal.takeSign (sign.text ++ s) = (sign.negative, s) := by
  cases sign with
  | none => exact Decimal.takeSign_plain hminus hplus
  | plus => rfl
  | minus => rfl

theorem Decimal.exists_sign (s : Octets) :
    ∃ sign : SignMark, s = sign.text ++ (takeSign s).2 ∧ sign.negative = (takeSign s).1 := by
  unfold takeSign
  split
  next s => exact ⟨.minus, rfl, rfl⟩
  next s => exact ⟨.plus, rfl, rfl⟩
  next => exact ⟨.none, rfl, rfl⟩

theorem head?_ne_of_digit {b mark : UInt8} {s : Octets} (hb : isDigit b = true) (hmark : isDigit mark = false) :
    (b :: s).head? ≠ some mark := by
  rintro heq
  rw [← Option.some.inj heq, hb] at hmark
  cases hmark

theorem head?_digits_ne {digits s : Octets} {mark : UInt8} (hall : digits.all isDigit = true) (hne : digits ≠ [])
    (hmark : isDigit mark = false) : (digits ++ s).head? ≠ some mark := by
  obtain ⟨b, rest, rfl⟩ := List.exists_cons_of_ne_nil hne
  rw [List.all_cons, Bool.and_eq_true] at hall
  exact head?_ne_of_digit hall.1 hmark

namespace TenPower

variable (e : TenPower)

theorem mark_eq : (if e.upper then Ascii.upperE else Ascii.lowerE) = Ascii.lowerE ∨
    (if e.upper then Ascii.upperE else Ascii.lowerE) = Ascii.upperE := by
  cases e.upper
  · exact .inl rfl
  · exact .inr rfl

theorem takeSign_append (more : Octets) :
    Decimal.takeSign (e.sign.text ++ (e.digits ++ more)) = (e.sign.negative, e.digits ++ more) :=
  e.sign.takeSign_text (head?_digits_ne e.allDigits e.someDigit minus_not_digit)
    (head?_digits_ne e.allDigits e.someDigit (by decide))

theorem takeExponent_text : Decimal.takeExponent e.text = (e.value, []) := by
  have hsign := e.takeSign_append []
  rw [List.append_nil] at hsign
  have hmark := e.mark_eq
  have htake := List.takeWhile_eq_self_iff.mpr (List.all_eq_true.mp e.allDigits)
  have hdrop := List.dropWhile_eq_nil_iff.mpr (List.all_eq_true.mp e.allDigits)
  rw [text, Decimal.takeExponent, hsign]
  simp only [htake, hdrop, hmark, e.someDigit, ne_eq, not_false_eq_true, and_self, if_true]
  rfl

end TenPower

namespace Decimal

/-- Whatever is taken for an exponent is one. -/
theorem exists_power {s rest : Octets} {exponent : Int} (h : takeExponent s = (exponent, rest)) :
    ∃ power : Option TenPower, s = power.elim [] TenPower.text ++ rest ∧ exponent = power.elim 0 TenPower.value := by
  cases s with
  | nil =>
    obtain ⟨rfl, rfl⟩ := Prod.mk.inj h
    exact ⟨none, rfl, rfl⟩
  | cons mark s =>
    rw [takeExponent] at h
    obtain ⟨sign, hs, hnegative⟩ := exists_sign s
    generalize takeSign s = split at h hs hnegative
    obtain ⟨negative, body⟩ := split
    dsimp only at h hs hnegative
    split at h
    next hmark =>
      obtain ⟨rfl, rfl⟩ := Prod.mk.inj h
      let e : TenPower := ⟨decide (mark = Ascii.upperE), sign, body.takeWhile isDigit, List.all_takeWhile, hmark.2⟩
      have hupper : (if e.upper then Ascii.upperE else Ascii.lowerE) = mark := by
        rcases hmark.1 with rfl | rfl <;> rfl
      refine ⟨some e, ?_, ?_⟩
      · rw [Option.elim_some, TenPower.text, hupper, hs, List.cons_append, List.append_assoc,
          List.takeWhile_append_dropWhile]
      · rw [Option.elim_some, TenPower.value, hnegative]
    next =>
      obtain ⟨rfl, rfl⟩ := Prod.mk.inj h
      exact ⟨none, rfl, rfl⟩

theorem exists_fraction (s : Octets) : ∃ fraction : Option Octets,
    s = (fraction.elim [] fun digits => Ascii.point :: digits) ++ (takeFraction s).2 ∧
      fraction.getD [] = (takeFraction s).1 ∧ ∀ digits ∈ fraction, digits.all isDigit = true := by
  unfold takeFraction
  split
  next s =>
    refine ⟨some (s.takeWhile isDigit), ?_, rfl, fun digits hdigits => ?_⟩
    · rw [Option.elim_some, List.cons_append, List.takeWhile_append_dropWhile]
      rfl
    · rw [← Option.some.inj hdigits]
      exact List.all_takeWhile
  next => exact ⟨none, rfl, rfl, fun digits hdigits => by cases hdigits⟩

/-- What is taken from the front of a text is a number in decimal notation. -/
theorem exists_form {s rest : Octets} {d : Decimal} (h : take? s = some (d, rest)) :
    ∃ p : DecimalForm, s = p.text ++ rest ∧ d = p.toDecimal := by
  unfold take? at h
  obtain ⟨sign, hs, hnegative⟩ := exists_sign s
  generalize takeSign s = split at h hs hnegative
  obtain ⟨negative, body⟩ := split
  dsimp only at h hs hnegative
  obtain ⟨fraction, hfraction, hdigits, hall⟩ := exists_fraction (body.dropWhile isDigit)
  generalize takeFraction (body.dropWhile isDigit) = split at h hfraction hdigits
  obtain ⟨fractionDigits, tail⟩ := split
  dsimp only at h hfraction hdigits
  split at h
  next => cases h
  next hsome =>
    cases hexponent : takeExponent tail with
    | mk exponent last =>
      rw [hexponent] at h
      obtain ⟨rfl, rfl⟩ := Prod.mk.inj (Option.some.inj h)
      obtain ⟨power, htail, hvalue⟩ := exists_power hexponent
      have hdigit : body.takeWhile isDigit ≠ [] ∨ fraction.getD [] ≠ [] := by
        rw [hdigits]
        simpa [Decidable.or_iff_not_imp_left] using hsome
      refine ⟨⟨sign, body.takeWhile isDigit, fraction, power, List.all_takeWhile, hall, hdigit⟩, ?_, ?_⟩
      · simp only [DecimalForm.text, DecimalForm.fractionText, DecimalForm.powerText, List.append_assoc]
        rw [← htail, ← hfraction, List.takeWhile_append_dropWhile, hs]
      · rw [DecimalForm.toDecimal, DecimalForm.exponent, hnegative, hdigits, hvalue]

end Decimal

namespace DecimalForm

variable (p : DecimalForm)

theorem powerText_head {b : UInt8} (hb : b ∈ p.powerText.head?) : isDigit b = false ∧ b ≠ Ascii.point := by
  unfold powerText at hb
  cases hpower : p.power with
  | none =>
    rw [hpower] at hb
    cases hb
  | some e =>
    rw [hpower] at hb
    obtain rfl := Option.some.inj hb
    refine ⟨mark_not_digit e.upper, ?_⟩
    cases e.upper <;> decide

theorem tail_head {b : UInt8} (hb : b ∈ (p.fractionText ++ p.powerText).head?) : isDigit b = false := by
  unfold fractionText at hb
  cases hfraction : p.fraction with
  | none =>
    rw [hfraction] at hb
    exact (p.powerText_head hb).1
  | some digits =>
    rw [hfraction] at hb
    obtain rfl := Option.some.inj hb
    exact point_not_digit

theorem takeFraction_text :
    Decimal.takeFraction (p.fractionText ++ p.powerText) = (p.fraction.getD [], p.powerText) := by
  have hdigit : ∀ b ∈ p.powerText.head?, isDigit b = false := fun b hb => (p.powerText_head hb).1
  unfold fractionText
  cases hfraction : p.fraction with
  | none =>
    exact Decimal.takeFraction_plain fun hpoint => (p.powerText_head hpoint).2 rfl
  | some digits =>
    have hall := p.fractionDigits digits hfraction
    rw [Option.elim_some, List.cons_append, Option.getD_some, Decimal.takeFraction_point,
      takeWhile_append_stop hall hdigit, dropWhile_append_stop hall hdigit]

/-- Behind its sign a number begins with a digit or a point. -/
theorem unsigned_head (more : Octets) {mark : UInt8} (hdigit : isDigit mark = false) (hpoint : mark ≠ Ascii.point) :
    (p.whole ++ (p.fractionText ++ (p.powerText ++ more))).head? ≠ some mark := by
  by_cases hwhole : p.whole = []
  · have hfraction := p.someDigit.resolve_left fun hne => hne hwhole
    cases hsome : p.fraction with
    | none =>
      rw [hsome] at hfraction
      exact absurd rfl hfraction
    | some digits =>
      rw [hwhole, fractionText, hsome]
      exact fun heq => hpoint (Option.some.inj heq).symm
  · exact head?_digits_ne p.wholeDigits hwhole hdigit

theorem takeSign_append (more : Octets) :
    Decimal.takeSign (p.sign.text ++ (p.whole ++ (p.fractionText ++ (p.powerText ++ more)))) =
      (p.sign.negative, p.whole ++ (p.fractionText ++ (p.powerText ++ more))) :=
  p.sign.takeSign_text (p.unsigned_head more minus_not_digit (by decide))
    (p.unsigned_head more (by decide) (by decide))

theorem takeExponent_text : Decimal.takeExponent p.powerText = (p.exponent, []) := by
  unfold powerText exponent
  cases p.power with
  | none => rfl
  | some e => exact e.takeExponent_text

/-- The notation of a number is taken for the number. -/
theorem take_text : Decimal.take? p.text = some (p.toDecimal, []) := by
  have hsign := p.takeSign_append []
  rw [List.append_nil] at hsign
  have htake := takeWhile_append_stop p.wholeDigits (fun b hb => p.tail_head hb)
  have hdrop := dropWhile_append_stop p.wholeDigits (fun b hb => p.tail_head hb)
  have hdigit : ¬(p.whole.isEmpty && (p.fraction.getD []).isEmpty) = true := by
    simpa [Decidable.or_iff_not_imp_left] using p.someDigit
  rw [text, Decimal.take?, hsign]
  simp only [htake, hdrop, p.takeFraction_text, if_neg hdigit, p.takeExponent_text]
  rfl

theorem length_dropWhile_append {front more : Octets} (hfront : front.all isDigit = true) :
    ((front ++ more).dropWhile isDigit).length ≤ more.length := by
  rw [List.dropWhile_append_of_pos (List.all_eq_true.mp hfront)]
  exact List.length_dropWhile_le ..

theorem takeWhile_digits_ne_nil {digits more : Octets} (hall : digits.all isDigit = true) (hne : digits ≠ []) :
    (digits ++ more).takeWhile isDigit ≠ [] := by
  rw [List.takeWhile_append_of_pos (List.all_eq_true.mp hall)]
  exact List.append_ne_nil_of_left_ne_nil hne _

theorem length_takeFraction (s : Octets) : (Decimal.takeFraction s).2.length ≤ s.length := by
  obtain ⟨fraction, hs, -, -⟩ := Decimal.exists_fraction s
  have hlength := congrArg List.length hs
  rw [List.length_append] at hlength
  omega

theorem length_takeExponent (s : Octets) : (Decimal.takeExponent s).2.length ≤ s.length := by
  obtain ⟨exponent, rest, hsplit⟩ : ∃ exponent rest, Decimal.takeExponent s = (exponent, rest) := ⟨_, _, rfl⟩
  obtain ⟨power, hs, -⟩ := Decimal.exists_power hsplit
  have hlength := congrArg List.length hs
  rw [List.length_append] at hlength
  rw [hsplit]
  dsimp only
  omega

theorem length_takeExponent_power (e : TenPower) (more : Octets) :
    (Decimal.takeExponent (e.text ++ more)).2.length ≤ more.length := by
  have hmark := e.mark_eq
  have hdigits : (e.digits ++ more).takeWhile isDigit ≠ [] := takeWhile_digits_ne_nil e.allDigits e.someDigit
  rw [TenPower.text, List.cons_append, List.append_assoc, Decimal.takeExponent, e.takeSign_append more]
  simp only [hmark, hdigits, ne_eq, not_false_eq_true, and_self, if_true]
  exact length_dropWhile_append e.allDigits

/-- What is left over behind the digits in front of the point, a fraction and a power of ten is left over behind the
number. -/
theorem length_rest (more : Octets) :
    (Decimal.takeExponent (Decimal.takeFraction
      ((p.whole ++ (p.fractionText ++ (p.powerText ++ more))).dropWhile isDigit)).2).2.length ≤ more.length := by
  have hpower : ∀ e : TenPower, ∀ b ∈ (e.text ++ more).head?, isDigit b = false := by
    intro e b hb
    obtain rfl := Option.some.inj hb
    exact mark_not_digit e.upper
  unfold fractionText powerText
  cases hfraction : p.fraction with
  | none =>
    cases p.power with
    | none =>
      refine (length_takeExponent _).trans ((length_takeFraction _).trans ?_)
      exact length_dropWhile_append p.wholeDigits
    | some e =>
      have hpoint : (e.text ++ more).head? ≠ some Ascii.point := by
        intro heq
        obtain hmark := Option.some.inj heq
        rcases e.mark_eq with h | h <;> rw [h] at hmark <;> cases hmark
      simp only [Option.elim_none, Option.elim_some, List.nil_append]
      rw [dropWhile_append_stop p.wholeDigits (hpower e), Decimal.takeFraction_plain hpoint]
      exact length_takeExponent_power e more
  | some digits =>
    have hall := p.fractionDigits digits hfraction
    have hpoint : ∀ s : Octets, ∀ b ∈ (Ascii.point :: s).head?, isDigit b = false := by
      rintro s b ⟨⟩
      exact point_not_digit
    simp only [Option.elim_some, List.cons_append]
    rw [dropWhile_append_stop p.wholeDigits (hpoint _), Decimal.takeFraction_point]
    cases p.power with
    | none => exact (length_takeExponent _).trans (length_dropWhile_append hall)
    | some e =>
      rw [Option.elim_some, dropWhile_append_stop hall (hpower e)]
      exact length_takeExponent_power e more

theorem takes_digit (more : Octets) :
    (p.whole ++ (p.fractionText ++ (p.powerText ++ more))).takeWhile isDigit ≠ [] ∨
      (Decimal.takeFraction ((p.whole ++ (p.fractionText ++ (p.powerText ++ more))).dropWhile isDigit)).1 ≠ [] := by
  by_cases hwhole : p.whole = []
  · right
    have hfraction := p.someDigit.resolve_left fun hne => hne hwhole
    cases hsome : p.fraction with
    | none =>
      rw [hsome] at hfraction
      exact absurd rfl hfraction
    | some digits =>
      rw [hsome] at hfraction
      rw [hwhole, fractionText, hsome]
      exact takeWhile_digits_ne_nil (p.fractionDigits digits hsome) hfraction
  · exact .inl (takeWhile_digits_ne_nil p.wholeDigits hwhole)

/-- Nothing is left over behind the notation of a number that belongs to it, so the longest one is taken. -/
theorem take_longest (more : Octets) :
    ∃ d rest, Decimal.take? (p.text ++ more) = some (d, rest) ∧ rest.length ≤ more.length := by
  have hsign := p.takeSign_append more
  have hrest := p.length_rest more
  have hdigit := p.takes_digit more
  simp only [text, List.append_assoc]
  rw [Decimal.take?, hsign]
  generalize p.whole ++ (p.fractionText ++ (p.powerText ++ more)) = body at hrest hdigit
  dsimp only
  generalize Decimal.takeFraction (body.dropWhile isDigit) = split at hrest hdigit
  obtain ⟨fraction, tail⟩ := split
  rw [if_neg (by simpa [Decidable.or_iff_not_imp_left] using hdigit)]
  exact ⟨_, _, rfl, hrest⟩

/-- A text denotes one number at most. -/
theorem value_eq_of_text {p q : DecimalForm} (h : p.text = q.text) : p.value = q.value := by
  have htake := p.take_text
  rw [h, q.take_text] at htake
  have hsame : q.toDecimal = p.toDecimal := (Prod.mk.inj (Option.some.inj htake)).1
  have hsign : q.sign.negative = p.sign.negative := congrArg Decimal.negative hsame
  rw [value, value, magnitude_eq, magnitude_eq, hsame, hsign]

theorem isOctet_of_digits {digits : Octets} (h : digits.all isDigit = true) : digits.all Decimal.isOctet = true := by
  rw [List.all_eq_true] at h ⊢
  intro b hb
  simp [Decimal.isOctet, h b hb]

theorem isOctet_text : p.text.all Decimal.isOctet = true := by
  have hsign : ∀ sign : SignMark, sign.text.all Decimal.isOctet = true := by
    intro sign
    cases sign <;> decide
  have hfraction : p.fractionText.all Decimal.isOctet = true := by
    unfold fractionText
    cases hsome : p.fraction with
    | none => rfl
    | some digits =>
      rw [Option.elim_some, List.all_cons, isOctet_of_digits (p.fractionDigits digits hsome)]
      decide
  have hpower : p.powerText.all Decimal.isOctet = true := by
    unfold powerText
    cases p.power with
    | none => rfl
    | some e =>
      rw [Option.elim_some, TenPower.text, List.all_cons, List.all_append, hsign, isOctet_of_digits e.allDigits]
      cases e.upper <;> decide
  rw [text, List.all_append, List.all_append, List.all_append, hsign, isOctet_of_digits p.wholeDigits, hfraction,
    hpower]
  rfl

theorem text_ne_nil : p.text ≠ [] := by
  intro hnil
  have htake := p.take_text
  rw [hnil] at htake
  cases htake

theorem ofText_text : Binary64.ofText? p.text = (some p.toDecimal.toBinary64).filter Binary64.isFinite := by
  have hne : ¬p.text.isEmpty = true := by
    rw [List.isEmpty_iff]
    exact p.text_ne_nil
  rw [Binary64.ofText?, Decimal.ofText?, p.take_text, p.isOctet_text]
  simp [hne]

end DecimalForm

namespace Binary64

theorem exists_form_of_ofText? {s : Octets} {x : Binary64} (h : ofText? s = some x) :
    ∃ p : DecimalForm, p.text = s ∧ x = p.toDecimal.toBinary64 ∧ x.isFinite = true := by
  unfold ofText? Decimal.ofText? at h
  split at h
  next => cases h
  next =>
    obtain ⟨hread, hfinite⟩ := Option.filter_eq_some_iff.mp h
    obtain ⟨d, hd, rfl⟩ := Option.map_eq_some_iff.mp hread
    split at hd
    next d' htake =>
      obtain rfl := Option.some.inj hd
      obtain ⟨p, hs, rfl⟩ := Decimal.exists_form htake
      rw [List.append_nil] at hs
      exact ⟨p, hs.symm, rfl, hfinite⟩
    next => cases hd

theorem ofText_form_iff {p : DecimalForm} {x : Binary64} :
    ofText? p.text = some x ↔ RoundsTo p.sign.negative p.magnitude x ∧ p.magnitude < 2 ^ 1024 - 2 ^ 970 := by
  have hrounds := p.roundsTo_toBinary64
  rw [p.ofText_text, Option.filter_eq_some_iff, Option.some.injEq]
  constructor
  · rintro ⟨rfl, hfinite⟩
    exact ⟨hrounds, hrounds.isFinite_iff.mp hfinite⟩
  · rintro ⟨hx, hlt⟩
    obtain rfl := hrounds.unique hx
    exact ⟨rfl, hx.isFinite_iff.mpr hlt⟩

/-- A text is read as a floating-point number exactly if it is a number in decimal notation that is in range, and what
is read is the nearest finite number, the one with an even last bit of two. Below the least normal number there are the
subnormal ones and zero. -/
theorem decimal_numbers_read_exactly :
    (∀ s : Octets, (ofText? s).isSome = true ↔ ∃ p : DecimalForm, p.text = s ∧ |p.value| < 2 ^ 1024 - 2 ^ 970) ∧
    (∀ p q : DecimalForm, p.text = q.text → p.value = q.value) ∧
    ∀ p : DecimalForm, |p.value| < 2 ^ 1024 - 2 ^ 970 → ∃ rank : Fin rankLimit,
      ofText? p.text = some (finite p.sign.negative rank) ∧
      (∀ i k : Int, ∀ y : Binary64, (finite p.sign.negative rank).toUnits = some i → y.toUnits = some k →
        |unitsOf p.value - i| < |unitsOf p.value - k| ∨
          |unitsOf p.value - i| = |unitsOf p.value - k| ∧ (k = i ∨ (finite p.sign.negative rank).bits % 2 = 0)) ∧
      (rank.val < binade ↔ |p.value| < 1 / 2 ^ 1022 - 1 / 2 ^ 1075) ∧ (rank.val = 0 ↔ |p.value| ≤ 1 / 2 ^ 1075) := by
  have hread : ∀ p : DecimalForm, |p.value| < 2 ^ 1024 - 2 ^ 970 → ∃ rank : Fin rankLimit,
      RoundsTo p.sign.negative p.magnitude (finite p.sign.negative rank) ∧ Rounds (unitsOf p.magnitude) rank ∧
      ofText? p.text = some (finite p.sign.negative rank) := by
    intro p hlt
    rw [p.abs_value] at hlt
    have hrounds := p.roundsTo_toBinary64
    obtain ⟨rank, hx, hrank⟩ := hrounds.exists_rank (hrounds.isFinite_iff.mpr hlt)
    rw [hx] at hrounds
    exact ⟨rank, hrounds, hrank, ofText_form_iff.mpr ⟨hrounds, hlt⟩⟩
  refine ⟨fun s => ⟨fun hsome => ?_, ?_⟩, fun p q => DecimalForm.value_eq_of_text, fun p hlt => ?_⟩
  · obtain ⟨x, hx⟩ := Option.isSome_iff_exists.mp hsome
    obtain ⟨p, rfl, -, -⟩ := exists_form_of_ofText? hx
    refine ⟨p, rfl, ?_⟩
    rw [p.abs_value]
    exact (ofText_form_iff.mp hx).2
  · rintro ⟨p, rfl, hlt⟩
    obtain ⟨rank, -, -, hx⟩ := hread p hlt
    rw [hx]
    rfl
  · obtain ⟨rank, hrounds, hrank, hx⟩ := hread p hlt
    rw [p.abs_value]
    exact ⟨rank, hx, fun i k y hi hk => hrounds.nearest p.magnitude_nonneg hi hk, hrank.lt_binade_iff,
      hrank.eq_zero_iff⟩

/-- A number far below the least magnitude. -/
def faintForm : DecimalForm :=
  .ofWhole .minus (octets "1") (some ⟨false, .minus, octets "400", by decide +kernel, by decide +kernel⟩)
    (by decide +kernel) (by decide +kernel)

theorem faintForm_read : faintForm.text = octets "-1e-400" ∧ |faintForm.value| < 2 ^ 1024 - 2 ^ 970 ∧
    ∃ rank : Fin rankLimit, ofText? faintForm.text = some (finite true rank) ∧ rank.val = 0 := by
  have hfinite : faintForm.toDecimal.toBinary64.isFinite = true := by decide +kernel
  have hlt : |faintForm.value| < 2 ^ 1024 - 2 ^ 970 := by
    rw [faintForm.abs_value]
    exact faintForm.roundsTo_toBinary64.isFinite_iff.mp hfinite
  obtain ⟨rank, hread, -, -, hzero⟩ := decimal_numbers_read_exactly.2.2 faintForm hlt
  refine ⟨by decide +kernel, hlt, rank, hread, hzero.mpr ?_⟩
  rw [faintForm.abs_value, faintForm.magnitude_eq]
  exact decimal_le_least (by decide +kernel)

end Binary64

end QuoteFeed
