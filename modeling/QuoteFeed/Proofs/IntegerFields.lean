import QuoteFeed.Proofs.Layers

/-!
The fields that hold integers: which integers they hold, which values in a document they are set to as they are
written, and which ones they take for something else.
-/

namespace QuoteFeed

namespace Settings

namespace Field

def isTime : Field → Bool
  | reconnectBase | reconnectMax | heartbeatInterval | staleLimit => true
  | _ => false

def isIntegral (f : Field) : Bool := f.isTime || f = maxAttempts

/-- The integers that a field has room for: signed ones of 64 bits for times, unsigned ones of 32 bits for attempts. -/
def Holds (f : Field) (i : Int) : Prop :=
  if f = maxAttempts then 0 ≤ i ∧ i < 4294967296 else int64Min ≤ i ∧ i ≤ int64Max

instance (f : Field) (i : Int) : Decidable (f.Holds i) :=
  inferInstanceAs (Decidable (if f = maxAttempts then 0 ≤ i ∧ i < 4294967296 else int64Min ≤ i ∧ i ≤ int64Max))

/-- The value is an integer, as it is written, and the field has room for it. -/
def Fits (f : Field) (v : Json) : Prop := ∃ i, v.integer? = some i ∧ f.Holds i

/-- The values that a field accepts although they do not fit. -/
inductive Slips : Field → Json → Prop
  | time {f : Field} {n : UInt64} (hf : f.isTime = true) (hn : 9223372036854775808 ≤ n.toNat) : Slips f (.unsigned n)
  | truth (b : Bool) : Slips maxAttempts (.bool b)
  | real (x : Binary64) : Slips maxAttempts (.real x)
  | unsigned {n : UInt64} (hn : 4294967296 ≤ n.toNat) : Slips maxAttempts (.unsigned n)
  | signed {i : Int64} (hi : i.toInt < 0 ∨ 4294967296 ≤ i.toInt) : Slips maxAttempts (.signed i)

variable {f : Field} {v : Json} {e : Error} {x : Value} {i : Int}

theorem read_time (hf : f.isTime = true) : f.read v = (millis f.key v).map .integer := by
  cases f <;> first | rfl | cases hf

theorem holds_time (hf : f.isTime = true) : f.Holds i ↔ int64Min ≤ i ∧ i ≤ int64Max := by
  cases f <;> first | exact Iff.rfl | cases hf

theorem millis_of_integer? (hi : v.integer? = some i) : millis f.key v = .ok (wrapInt64 i) := by
  rw [millis, hi]
  rfl

theorem time_or_attempts (h : f.isIntegral = true) : f.isTime = true ∨ f = maxAttempts := by
  cases f <;> first | exact .inl rfl | exact .inr rfl | cases h

/-- A value that fits is taken for the integer that it is. -/
theorem read_of_fits (hf : f.isIntegral = true) (hi : v.integer? = some i) (h : f.Holds i) :
    f.read v = .ok (.integer i) := by
  rcases time_or_attempts hf with htime | rfl
  · obtain ⟨hlow, hhigh⟩ := (holds_time htime).mp h
    have hin : inInt64 i = true := by simp [inInt64, hlow, hhigh]
    rw [read_time htime, millis_of_integer? hi, wrapInt64_of_inInt64 hin]
    rfl
  · obtain ⟨hlow, hhigh⟩ := h
    cases v with
    | unsigned n =>
      obtain rfl := Option.some.inj hi
      have hn : n.toUInt32.toNat = n.toNat := by
        rw [UInt64.toNat_toUInt32]
        omega
      change Except.ok (Value.integer n.toUInt32.toNat) = _
      rw [hn]
    | signed k =>
      obtain rfl := Option.some.inj hi
      have hk : ((UInt32.ofInt k.toInt).toNat : Int) = k.toInt := by
        rw [UInt32.ofInt, UInt32.toNat_ofNat']
        omega
      change Except.ok (Value.integer (UInt32.ofInt k.toInt).toNat) = _
      rw [hk]
    | _ => cases hi

theorem not_fits_of_slips (h : f.Slips v) : ¬f.Fits v := by
  rintro ⟨i, hi, hholds⟩
  cases h with
  | time hf hn =>
    obtain rfl := Option.some.inj hi
    have hhigh := ((holds_time hf).mp hholds).2
    simp only [int64Max] at hhigh
    omega
  | truth b => cases hi
  | real x => cases hi
  | unsigned hn =>
    obtain rfl := Option.some.inj hi
    have hhigh := hholds.2
    omega
  | signed hk =>
    obtain rfl := Option.some.inj hi
    have hlow := hholds.1
    have hhigh := hholds.2
    omega

theorem slips_of_read (hf : f.isIntegral = true) (hread : f.read v = .ok x) (hmisfit : ¬f.Fits v) : f.Slips v := by
  rcases time_or_attempts hf with htime | rfl
  · cases v with
    | unsigned n =>
      refine .time htime ?_
      by_contra hn
      refine hmisfit ⟨n.toNat, rfl, (holds_time htime).mpr ?_⟩
      simp only [int64Min, int64Max]
      omega
    | signed k =>
      exact absurd ⟨k.toInt, rfl, (holds_time htime).mpr ⟨k.le_toInt, k.toInt_le⟩⟩ hmisfit
    | _ =>
      rw [read_time htime] at hread
      cases hread
  · cases v with
    | bool b => exact .truth b
    | real x => exact .real x
    | unsigned n =>
      refine .unsigned ?_
      by_contra hn
      exact hmisfit ⟨n.toNat, rfl, by omega, by omega⟩
    | signed k =>
      refine .signed ?_
      by_contra hk
      exact hmisfit ⟨k.toInt, rfl, by omega, by omega⟩
    | _ => cases hread

/-- A field of integers accepts what fits and what slips, and nothing else. -/
theorem exists_read_iff (hf : f.isIntegral = true) : (∃ x, f.read v = .ok x) ↔ f.Fits v ∨ f.Slips v := by
  constructor
  · rintro ⟨x, hread⟩
    by_cases hfits : f.Fits v
    · exact .inl hfits
    · exact .inr (slips_of_read hf hread hfits)
  · rintro (⟨i, hi, hholds⟩ | hslip)
    · exact ⟨_, read_of_fits hf hi hholds⟩
    · cases hslip with
      | time htime hn =>
        rw [read_time htime, millis_of_integer? rfl]
        exact ⟨_, rfl⟩
      | _ => exact ⟨_, rfl⟩

end Field

variable {j : Json} {s : Settings}

/-- No integer of a document is taken for another one. If the document is accepted, every field of integers that it
mentions holds the integer that is written there; if one does not fit, the document is rejected as such. -/
structure TakesExactly (j : Json) (r : Except Error Settings) : Prop where
  accepted : ∀ t, r = .ok t → ∀ (f : Field) v, f.isIntegral = true → j.member? f.key = some v →
    ∃ i, v.integer? = some i ∧ f.Holds i ∧ f.value t = .integer i
  rejected : ∀ (f : Field) v, f.isIntegral = true → j.member? f.key = some v → ¬f.Fits v →
    ∃ e, r = .error e ∧ e.IsRuntime

/-- No value in a document is one that a field of integers accepts although it does not fit. -/
def NoSlip (j : Json) : Prop := ∀ (f : Field) v, j.member? f.key = some v → ¬f.Slips v

theorem Field.isIntegral_of_slips {f : Field} {v : Json} (h : f.Slips v) : f.isIntegral = true := by
  cases h with
  | time hf hn => rw [isIntegral, hf, Bool.true_or]
  | _ => rfl

theorem takesExactly_overlay_iff :
    TakesExactly j (overlay j s).result ↔ (∃ e, (overlay j s).result = .error e) ∨ NoSlip j := by
  constructor
  · intro hexact
    cases hr : (overlay j s).result with
    | error e => exact .inl ⟨e, rfl⟩
    | ok t =>
      refine .inr fun f v hmember hslip => ?_
      obtain ⟨e, he, -⟩ := hexact.rejected f v (Field.isIntegral_of_slips hslip) hmember
        (Field.not_fits_of_slips hslip)
      cases hr.symm.trans he
  · intro hsafe
    cases hr : (overlay j s).result with
    | error e =>
      constructor
      · intro t ht
        cases ht
      · intro f v hf hmember hmisfit
        exact ⟨e, rfl, isRuntime_of_overlay hr⟩
    | ok t =>
      have hnoslip : NoSlip j := by
        rcases hsafe with ⟨e, he⟩ | hnoslip
        · cases hr.symm.trans he
        · exact hnoslip
      -- an accepted value that did not fit would be one that slips
      have hfits : ∀ (f : Field) v, f.isIntegral = true → j.member? f.key = some v →
          f.read v = .ok (f.value t) ∧ f.Fits v := by
        intro f v hf hmember
        have hread := after_of_overlay hr f
        rw [Field.After, hmember] at hread
        exact ⟨hread, ((Field.exists_read_iff hf).mp ⟨_, hread⟩).resolve_right (hnoslip f v hmember)⟩
      constructor
      · intro u hu f v hf hmember
        obtain rfl := Except.ok.inj hu
        obtain ⟨hread, i, hi, hholds⟩ := hfits f v hf hmember
        refine ⟨i, hi, hholds, ?_⟩
        exact Except.ok.inj (hread.symm.trans (Field.read_of_fits hf hi hholds))
      · intro f v hf hmember hmisfit
        exact absurd (hfits f v hf hmember).2 hmisfit

/-- Integers are taken exactly from a text or a file just in case the document is rejected or none of its values
slips. A text that cannot be read is rejected as such unless it has a number too large for floating point; a file
that cannot be read always is. -/
theorem integers_taken_exactly_iff (text path : Octets) (s : Settings) :
    (∀ j, Json.read text = .ok j →
      (TakesExactly j (applyText text s).result ↔ (∃ e, (applyText text s).result = .error e) ∨ NoSlip j)) ∧
    (∀ j rest, Json.readFirst text = .ok (j, rest) →
      (TakesExactly j (ofFile path (some text)) ↔ (∃ e, ofFile path (some text) = .error e) ∨ NoSlip j)) ∧
    (∀ fault, Json.read text = .error fault →
      ∃ e, (applyText text s).result = .error e ∧ (e.IsRuntime ↔ fault = .malformed)) ∧
    ∀ fault, Json.readFirst text = .error fault → ∃ e, ofFile path (some text) = .error e ∧ e.IsRuntime := by
  refine ⟨?_, ?_, ?_, ?_⟩
  · intro j hread
    rw [applyText_of_read hread]
    exact takesExactly_overlay_iff
  · intro j rest hread
    rw [ofFile_of_readFirst hread]
    exact takesExactly_overlay_iff
  · intro fault hread
    rw [applyText, hread]
    cases fault with
    | malformed => exact ⟨_, rfl, iff_of_true trivial rfl⟩
    | wrongType => exact ⟨_, rfl, iff_of_false id Json.Error.noConfusion⟩
    | outOfRange => exact ⟨_, rfl, iff_of_false id Json.Error.noConfusion⟩
  · intro fault hread
    rw [ofFile, hread]
    exact ⟨_, rfl, trivial⟩

def patientText : Octets := octets "\x7b\"reconnect_base_ms\":250,\"max_reconnect_attempts\":3\x7d"

def patientDocument : Json :=
  .object [(octets "max_reconnect_attempts", .unsigned 3), (octets "reconnect_base_ms", .unsigned 250)]

theorem patientText_taken : Json.read patientText = .ok patientDocument ∧
    TakesExactly patientDocument (applyText patientText {}).result ∧
    TakesExactly patientDocument (ofFile (octets "feed.json") (some patientText)) ∧
    Json.readFirst [] = .error .malformed ∧ ∃ e, (applyText [] {}).result = .error e ∧ e.IsRuntime := by
  have hread : Json.read patientText = .ok patientDocument := rfl
  have hfirst : Json.readFirst patientText = .ok (patientDocument, []) := rfl
  have hnoslip : NoSlip patientDocument := by
    intro f v hmember hslip
    have hfits : f.Fits v := by
      cases f with
      | reconnectBase =>
        obtain rfl : Json.unsigned 250 = v := Option.some.inj hmember
        exact ⟨250, rfl, by decide⟩
      | maxAttempts =>
        obtain rfl : Json.unsigned 3 = v := Option.some.inj hmember
        exact ⟨3, rfl, by decide⟩
      | _ => cases hmember
    exact Field.not_fits_of_slips hslip hfits
  obtain ⟨htext, hfile, -, -⟩ := integers_taken_exactly_iff patientText (octets "feed.json") {}
  obtain ⟨-, -, hfault, -⟩ := integers_taken_exactly_iff [] (octets "feed.json") {}
  obtain ⟨e, he, hruntime⟩ := hfault .malformed rfl
  exact ⟨hread, (htext _ hread).mpr (.inr hnoslip), (hfile _ _ hfirst).mpr (.inr hnoslip), rfl, e, he,
    hruntime.mpr rfl⟩

/-- A truth value where a count of attempts is due. -/
def truthText : Octets := octets "\x7b\"max_reconnect_attempts\":true\x7d"

theorem truthText_accepted :
    ¬∀ (text : Octets) (j : Json) (s : Settings), Json.read text = .ok j →
      TakesExactly j (applyText text s).result := by
  intro hclaim
  have hread : Json.read truthText = .ok (.object [(octets "max_reconnect_attempts", .bool true)]) := rfl
  have hset : applyText truthText {} = ({ maxAttempts := 1 }, none) := by decide +kernel
  have hexact := hclaim truthText _ {} hread
  rw [hset] at hexact
  obtain ⟨i, hi, -⟩ := hexact.accepted _ rfl .maxAttempts (.bool true) rfl rfl
  cases hi

end Settings

end QuoteFeed
