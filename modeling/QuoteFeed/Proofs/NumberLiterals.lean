import QuoteFeed.Proofs.FrameNumbers
import QuoteFeed.Proofs.OpenFrames
import QuoteFeed.Proofs.Quoting

/-!
Number literals of documents. A literal is read as an integer where 64 bits can hold it, else as the nearest
floating-point number, or it is out of range; the same octets in quotes are a text, and the number that this text
stands for is the same one.
-/

namespace QuoteFeed

/-- The number is written as documents have it: no plus sign in front, digits before the point and none behind a
leading zero, and digits behind a point. -/
structure DecimalForm.IsLiteral (p : DecimalForm) : Prop where
  unplussed : p.sign ≠ .plus
  whole : p.whole ≠ []
  leading : p.whole.head? = some Ascii.zero → p.whole = [Ascii.zero]
  fraction : p.fraction ≠ some []

/-- No octet that comes next belongs to a number. -/
def EndsNumber (more : Octets) : Prop :=
  ∀ b ∈ more.head?, isDigit b = false ∧ b ≠ Ascii.point ∧ b ≠ Ascii.lowerE ∧ b ≠ Ascii.upperE

/-- What closes an object behind a value ends a number, too. -/
theorem Json.Closes.endsNumber {back : Octets} {after : Except Error (List (Octets × Json))} (h : Closes back after) :
    EndsNumber back := by
  obtain ⟨b, hhead, hb⟩ := h.head?
  intro b' hb'
  rw [hhead] at hb'
  obtain rfl := Option.some.inj hb'
  have hblank : isBlank b = true →
      b = Ascii.space ∨ b = Ascii.tab ∨ b = Ascii.lineFeed ∨ b = Ascii.carriageReturn := by
    simp only [isBlank, Bool.or_eq_true, decide_eq_true_eq, or_assoc, imp_self]
  rcases hb with hb | rfl | rfl
  · rcases hblank hb with rfl | rfl | rfl | rfl <;> decide
  · decide
  · decide

namespace DecimalForm

variable {p : DecimalForm} {more : Octets}

/-- The notation in quotes. -/
def quoted (p : DecimalForm) : Octets := Ascii.quoteMark :: (p.text ++ [Ascii.quoteMark])

/-- The number as a document spells it. -/
def numeral (p : DecimalForm) : Numeral where
  negative := p.sign.negative
  whole := p.whole
  fraction := p.fraction
  exponent := p.power.map fun e => (e.sign.negative, e.digits)

theorem toDecimal_numeral (p : DecimalForm) : p.numeral.toDecimal = p.toDecimal := by
  unfold Numeral.toDecimal toDecimal exponent numeral
  cases p.power with
  | none => rfl
  | some e => rfl

theorem takeExponent_literal (p : DecimalForm) (hmore : EndsNumber more) :
    Numeral.takeExponent (p.powerText ++ more) = some (p.power.map fun e => (e.sign.negative, e.digits), more) := by
  unfold powerText
  cases p.power with
  | none =>
    cases more with
    | nil => rfl
    | cons b more =>
      obtain ⟨-, -, hlower, hupper⟩ := hmore b rfl
      exact if_neg (by simp [hlower, hupper])
  | some e =>
    have hdigits := takeWhile_append_stop e.allDigits fun b hb => (hmore b hb).1
    have hsome : ¬e.digits.isEmpty = true := by simpa using e.someDigit
    rw [Option.elim_some, TenPower.text, List.cons_append, List.append_assoc, Numeral.takeExponent, if_pos e.mark_eq,
      e.takeSign_append more]
    simp only [hdigits, if_neg hsome, List.drop_left]
    rfl

theorem takeFraction_literal (hp : p.IsLiteral) (hmore : EndsNumber more) :
    Numeral.takeFraction (p.fractionText ++ (p.powerText ++ more)) = some (p.fraction, p.powerText ++ more) := by
  have hstop : ∀ b ∈ (p.powerText ++ more).head?, isDigit b = false ∧ b ≠ Ascii.point := by
    intro b hb
    by_cases hpower : p.powerText = []
    · rw [hpower] at hb
      exact ⟨(hmore b hb).1, (hmore b hb).2.1⟩
    · rw [List.head?_append_of_ne_nil _ hpower] at hb
      exact p.powerText_head hb
  unfold fractionText
  cases hfraction : p.fraction with
  | none => exact Numeral.takeFraction_of_head? fun hpoint => (hstop _ hpoint).2 rfl
  | some digits =>
    have hall := p.fractionDigits digits hfraction
    have hsome : ¬digits.isEmpty = true := by
      intro hempty
      rw [List.isEmpty_iff] at hempty
      exact hp.fraction (hfraction.trans (congrArg some hempty))
    have hdigit : ∀ b ∈ (p.powerText ++ more).head?, isDigit b = false := fun b hb => (hstop b hb).1
    rw [Option.elim_some, List.cons_append, Numeral.takeFraction_point, takeWhile_append_stop hall hdigit,
      dropWhile_append_stop hall hdigit, if_neg hsome]

theorem takeWhole_literal (hp : p.IsLiteral) (hmore : EndsNumber more) :
    Numeral.takeWhole (p.whole ++ (p.fractionText ++ (p.powerText ++ more))) = p.whole := by
  unfold Numeral.takeWhole
  rw [← List.head?_eq_getElem?, List.head?_append_of_ne_nil _ hp.whole]
  split
  next hzero => exact (hp.leading hzero).symm
  next =>
    refine takeWhile_append_stop p.wholeDigits fun b hb => ?_
    rw [← List.append_assoc] at hb
    by_cases htail : p.fractionText ++ p.powerText = []
    · rw [htail] at hb
      exact (hmore b hb).1
    · rw [List.head?_append_of_ne_nil _ htail] at hb
      exact p.tail_head hb

/-- A literal is taken for the number that it spells. -/
theorem take_literal (hp : p.IsLiteral) (hmore : EndsNumber more) :
    Numeral.take? (p.text ++ more) = some (p.numeral, more) := by
  have hunsigned : ∀ negative, Numeral.takeUnsigned? negative (p.whole ++ (p.fractionText ++ (p.powerText ++ more))) =
      some ({ p.numeral with negative }, more) := by
    intro negative
    have hsome : (!p.whole.isEmpty) = true := by simpa using hp.whole
    unfold Numeral.takeUnsigned?
    rw [takeWhole_literal hp hmore, hsome, List.drop_left, takeFraction_literal hp hmore]
    simp only [Option.bind_eq_bind, Option.bind_some, takeExponent_literal p hmore]
    rfl
  simp only [text, List.append_assoc]
  cases hsign : p.sign with
  | none =>
    have hplain := p.unsigned_head more minus_not_digit (by decide)
    refine (Numeral.take?_of_head? hplain).trans ((hunsigned false).trans ?_)
    simp [numeral, hsign, SignMark.negative]
  | plus => exact absurd hsign hp.unplussed
  | minus =>
    refine (hunsigned true).trans ?_
    simp [numeral, hsign, SignMark.negative]

end DecimalForm

namespace Json

variable {p : DecimalForm} {back : Octets}

theorem readValue_number {fuel : Nat} {b : UInt8} {s : Octets} (hb : b = Ascii.minus ∨ isDigit b = true) :
    readValue (fuel + 1) (b :: s) = readNumber (b :: s) := by
  have hother : ∀ mark : UInt8, mark ≠ Ascii.minus → isDigit mark = false → b ≠ mark := by
    rintro mark hminus hdigit rfl
    rcases hb with h | h
    · exact hminus h
    · rw [hdigit] at h
      cases h
  have hblank : isBlank b = false := by
    simp only [isBlank, Bool.or_eq_false_iff, decide_eq_false_iff_not]
    exact ⟨⟨⟨hother _ (by decide) (by decide), hother _ (by decide) (by decide)⟩, hother _ (by decide) (by decide)⟩,
      hother _ (by decide) (by decide)⟩
  have hskip : skipBlanks (b :: s) = b :: s := by
    rw [skipBlanks_eq, List.dropWhile_cons, hblank]
    rfl
  rw [readValue, hskip]
  dsimp only
  rw [if_neg (hother _ (by decide) (by decide)), if_neg (hother _ (by decide) (by decide)),
    if_neg (hother _ (by decide) (by decide)), if_pos hb]

/-- As a number a literal comes to what its numeral comes to. -/
theorem comesTo_number (hp : p.IsLiteral) (hback : EndsNumber back) : ComesTo p.text back p.numeral.toJson := by
  intro fuel hfuel
  obtain ⟨fuel, rfl⟩ : ∃ n, fuel = n + 1 := ⟨fuel - 1, by omega⟩
  obtain ⟨b, tail, htext, hb⟩ : ∃ b tail, p.text = b :: tail ∧ (b = Ascii.minus ∨ isDigit b = true) := by
    obtain ⟨d, digits, hwhole⟩ := List.exists_cons_of_ne_nil hp.whole
    have hd : isDigit d = true := List.all_eq_true.mp p.wholeDigits d (by rw [hwhole]; exact List.mem_cons_self)
    rw [DecimalForm.text, hwhole]
    cases hsign : p.sign with
    | none => exact ⟨d, _, rfl, .inr hd⟩
    | plus => exact absurd hsign hp.unplussed
    | minus => exact ⟨Ascii.minus, _, rfl, .inl rfl⟩
  have htake := p.take_literal hp hback
  rw [htext, List.cons_append] at htake ⊢
  rw [readValue_number hb, readNumber, htake]

theorem escapeOctet_decimal {b : UInt8} (hb : Decimal.isOctet b = true) : escapeOctet b = [b] ∧ b < 0x80 := by
  have hall : ∀ n : Fin 256, Decimal.isOctet (UInt8.ofFin n) = true →
      escapeOctet (UInt8.ofFin n) = [UInt8.ofFin n] ∧ UInt8.ofFin n < 0x80 := by
    decide +kernel
  exact hall b.toFin hb

theorem quote_decimal {s : Octets} (hs : s.all Decimal.isOctet = true) :
    quote s = Ascii.quoteMark :: (s ++ [Ascii.quoteMark]) := by
  have hplain : s.flatMap escapeOctet = s := by
    induction s with
    | nil => rfl
    | cons b s ih =>
      rw [List.all_cons, Bool.and_eq_true] at hs
      rw [List.flatMap_cons, (escapeOctet_decimal hs.1).1, ih hs.2]
      rfl
  rw [quote, hplain]
  rfl

theorem wellFormed_decimal {s : Octets} (hs : s.all Decimal.isOctet = true) : Utf8.wellFormed s = true := by
  induction s with
  | nil => rfl
  | cons b s ih =>
    rw [List.all_cons, Bool.and_eq_true] at hs
    rw [Utf8.wellFormed.eq_def]
    simp only [(escapeOctet_decimal hs.1).2, if_true]
    exact ih hs.2

/-- In quotes it comes to the text that it is. -/
theorem comesTo_quoted (p : DecimalForm) (back : Octets) : ComesTo p.quoted back (.ok (.text p.text)) := by
  intro fuel hfuel
  obtain ⟨fuel, rfl⟩ : ∃ n, fuel = n + 1 := ⟨fuel - 1, by omega⟩
  rw [DecimalForm.quoted, ← quote_decimal p.isOctet_text]
  exact readValue_quote (wellFormed_decimal p.isOctet_text)

end Json

namespace Binary64

/-- Two floating-point numbers are the same number, the sign of a zero apart. -/
def SameNumber (x y : Binary64) : Prop := ∃ units, x.toUnits = some units ∧ y.toUnits = some units

theorem SameNumber.refl {x : Binary64} (hx : x.isFinite = true) : SameNumber x x := by
  cases x with
  | finite negative rank => exact ⟨_, toUnits_finite negative rank, toUnits_finite negative rank⟩
  | _ => cases hx

theorem RoundsTo.sameNumber {negative sign : Bool} {n : Nat} {x y : Binary64} (hx : RoundsTo negative n x)
    (hy : RoundsTo sign n y) (hfinite : y.isFinite = true) (hsign : n ≠ 0 → negative = sign) : SameNumber x y := by
  by_cases hn : n = 0
  · subst hn
    have hzero : ∀ {negative : Bool} {z : Binary64}, RoundsTo negative (0 : Nat) z → z = .zero negative := by
      intro negative z hz
      exact hz.unique (roundsTo_zero negative (by simp) (by simp))
    rw [hzero hx, hzero hy]
    cases negative <;> cases sign <;> exact ⟨0, by decide +kernel, by decide +kernel⟩
  · rw [hsign hn] at hx
    rw [hx.unique hy]
    exact .refl hfinite

end Binary64

namespace DecimalForm

open Binary64 (SameNumber RoundsTo)

variable {p : DecimalForm}

/-- A literal and its text are the same number, or the one is out of range and the other is no number. -/
inductive ReadAlike (p : DecimalForm) : Prop where
  | number {j : Json} {x y : Binary64} : p.numeral.toJson = .ok j → Message.finiteNumber? j = some x →
      Binary64.ofText? p.text = some y → SameNumber x y → ReadAlike p
  | refused {e : Json.Error} : p.numeral.toJson = .error e → Binary64.ofText? p.text = none → ReadAlike p

theorem toReal_alike (h : p.numeral.toJson = p.numeral.toReal) : ReadAlike p := by
  have htext := p.ofText_text
  have hreal : p.numeral.toReal =
      if p.toDecimal.toBinary64.isFinite then .ok (.real p.toDecimal.toBinary64) else .error .outOfRange := by
    rw [Numeral.toReal, p.toDecimal_numeral]
    rfl
  by_cases hfinite : p.toDecimal.toBinary64.isFinite = true
  · rw [if_pos hfinite] at hreal
    rw [Option.filter_some, if_pos hfinite] at htext
    have hnumber : Message.finiteNumber? (.real p.toDecimal.toBinary64) = some p.toDecimal.toBinary64 :=
      (Message.finiteNumber?_number rfl).mpr ⟨rfl, hfinite⟩
    exact .number (h.trans hreal) hnumber htext (.refl hfinite)
  · rw [if_neg hfinite] at hreal
    rw [Option.filter_some, if_neg hfinite] at htext
    exact .refused (h.trans hreal) htext

theorem integer_alike {j : Json} {i : Int} (hplain : p.fraction = none ∧ p.power = none) (hj : p.numeral.toJson = .ok j)
    (hnumber : j.number? = some (.ofInt i)) (habs : i.natAbs = digitsValue p.whole)
    (hsign : i ≠ 0 → decide (i < 0) = p.sign.negative) (hsmall : i.natAbs < 2 ^ 64) : ReadAlike p := by
  have hmagnitude : p.magnitude = i.natAbs := by
    rw [magnitude, exponent, hplain.1, hplain.2, habs]
    simp [digitsValue]
  have hround := p.roundsTo_toBinary64
  rw [hmagnitude] at hround
  have hfinite := hround.isFinite_of_small hsmall
  have htext : Binary64.ofText? p.text = some p.toDecimal.toBinary64 := by
    rw [p.ofText_text, Option.filter_some, if_pos hfinite]
  have hinteger := Binary64.roundsTo_ofInt i
  have hread := (Message.finiteNumber?_number hnumber).mpr ⟨rfl, hinteger.isFinite_of_small hsmall⟩
  exact .number hj hread htext (hinteger.sameNumber hround hfinite fun hne => hsign (by omega))

/-- Whether it is an integer within 64 bits, one beyond them, or has a fraction or a power of ten, a literal is read
like its text. -/
theorem read_alike (p : DecimalForm) : ReadAlike p := by
  by_cases hplain : p.fraction = none ∧ p.power = none
  · have hbare : ¬(p.numeral.fraction.isSome || p.numeral.exponent.isSome) = true := by
      simp [numeral, hplain.1, hplain.2]
    -- 64 bits hold other integers with a sign than without one
    by_cases hnegative : p.sign.negative = true
    · by_cases hsmall : digitsValue p.whole ≤ 9223372036854775808
      · have hj : p.numeral.toJson = .ok (.signed (Int64.ofInt (-digitsValue p.whole))) := by
          rw [Numeral.toJson, if_neg hbare]
          exact (if_pos hnegative).trans (if_pos hsmall)
        have hvalue : (Int64.ofInt (-digitsValue p.whole)).toInt = -digitsValue p.whole :=
          Int64.toInt_ofInt_of_le (by omega) (by omega)
        have hnumber : (Json.signed (Int64.ofInt (-digitsValue p.whole))).number? =
            some (.ofInt (-digitsValue p.whole)) := by
          rw [Json.number?, hvalue]
        exact integer_alike hplain hj hnumber (by omega) (fun hne => by simp [hnegative]; omega) (by omega)
      · refine toReal_alike ?_
        rw [Numeral.toJson, if_neg hbare]
        exact (if_pos hnegative).trans (if_neg hsmall)
    · by_cases hsmall : digitsValue p.whole < 18446744073709551616
      · have hj : p.numeral.toJson = .ok (.unsigned (digitsValue p.whole).toUInt64) := by
          rw [Numeral.toJson, if_neg hbare]
          exact (if_neg hnegative).trans (if_pos hsmall)
        have hvalue : (digitsValue p.whole).toUInt64.toNat = digitsValue p.whole := Nat.mod_eq_of_lt hsmall
        have hnumber : (Json.unsigned (digitsValue p.whole).toUInt64).number? =
            some (.ofInt (digitsValue p.whole)) := by
          rw [Json.number?, hvalue]
        exact integer_alike hplain hj hnumber (by omega) (fun _ => by simp [hnegative]) (by omega)
      · refine toReal_alike ?_
        rw [Numeral.toJson, if_neg hbare]
        exact (if_neg hnegative).trans (if_neg hsmall)
  · refine toReal_alike ?_
    have hmore : (p.numeral.fraction.isSome || p.numeral.exponent.isSome) = true := by
      simp only [numeral, Option.isSome_map, Bool.or_eq_true, Option.isSome_iff_ne_none]
      exact not_and_or.mp hplain
    rw [Numeral.toJson, if_pos hmore]

end DecimalForm

end QuoteFeed
