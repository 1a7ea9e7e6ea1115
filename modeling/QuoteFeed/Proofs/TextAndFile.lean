import QuoteFeed.Proofs.Documents
import QuoteFeed.Proofs.Layers

/-!
Settings from a text and from a file with the same content. A file counts up to the end of its first document, and
a text as a whole, or up to a 0 octet behind its document.
-/

namespace QuoteFeed

namespace Settings

variable {text front rest path : Octets} {j : Json} {s t : Settings} {e : Error}

theorem applyText_eq_ok_iff :
    (applyText text s).result = .ok t ↔ ∃ j, Json.read text = .ok j ∧ overlay j s = (t, none) := by
  constructor
  · intro h
    cases hread : Json.read text with
    | ok j =>
      rw [applyText_of_read hread] at h
      exact ⟨j, rfl, Outcome.result_eq_ok h⟩
    | error fault =>
      rw [applyText, hread] at h
      cases fault <;> cases h
  · rintro ⟨j, hread, ho⟩
    rw [applyText_of_read hread, ho]
    rfl

theorem ofFile_eq_ok_iff : ofFile path (some text) = .ok t ↔
    ∃ j rest, Json.readFirst text = .ok (j, rest) ∧ overlay j {} = (t, none) := by
  constructor
  · intro h
    cases hread : Json.readFirst text with
    | ok p =>
      rw [ofFile_of_readFirst hread] at h
      exact ⟨p.1, p.2, rfl, Outcome.result_eq_ok h⟩
    | error fault =>
      rw [ofFile, hread] at h
      cases h
  · rintro ⟨j, rest, hread, ho⟩
    rw [ofFile_of_readFirst hread, ho]
    rfl

theorem isObject_of_overlay (h : overlay j s = (t, none)) : j.isObject = true := (overlay_ok_iff.mp h).1

/-- A file has the settings that the text in front of some rest has. -/
theorem ofFile_eq_ok_iff_front : ofFile path (some text) = .ok t ↔
    ∃ front rest, text = front ++ rest ∧ (applyText front {}).result = .ok t := by
  rw [ofFile_eq_ok_iff]
  constructor
  · rintro ⟨j, rest, hread, ho⟩
    obtain ⟨front, rfl, hfront⟩ := Json.readFirst_front hread (isObject_of_overlay ho)
    have hwhole : Json.read front = .ok j := by
      have hnone := hfront []
      rw [List.append_nil] at hnone
      exact Json.read_eq_ok_iff.mpr ⟨[], hnone, rfl⟩
    exact ⟨front, rest, rfl, applyText_eq_ok_iff.mpr ⟨j, hwhole, ho⟩⟩
  · rintro ⟨front, rest, rfl, h⟩
    obtain ⟨j, hread, ho⟩ := applyText_eq_ok_iff.mp h
    obtain ⟨left, hfirst, -⟩ := Json.read_eq_ok_iff.mp hread
    obtain ⟨document, rfl, hdocument⟩ := Json.readFirst_front hfirst (isObject_of_overlay ho)
    rw [List.append_assoc]
    exact ⟨j, left ++ rest, hdocument _, ho⟩

/-- A text ends with a 0 octet, for settings as for documents. -/
theorem applyText_append_zero (h : (applyText text s).result = .ok t) (more : Octets) :
    (applyText (text ++ 0 :: more) s).result = .ok t := by
  obtain ⟨j, hread, ho⟩ := applyText_eq_ok_iff.mp h
  exact applyText_eq_ok_iff.mpr ⟨j, Json.read_append_zero hread (isObject_of_overlay ho) more, ho⟩

theorem isRuntime_of_ofFile {content : Option Octets} (h : ofFile path content = .error e) : e.IsRuntime := by
  cases content with
  | none =>
    cases h
    trivial
  | some text =>
    cases hread : Json.readFirst text with
    | ok p =>
      rw [ofFile_of_readFirst hread] at h
      exact isRuntime_of_overlay h
    | error fault =>
      rw [ofFile, hread] at h
      cases h
      trivial

/-- A text has one fault that is not one of taking settings: a number too large for floating point. -/
theorem isRuntime_of_applyText (h : (applyText text s).result = .error e) :
    e.IsRuntime ↔ Json.read text ≠ .error .outOfRange := by
  cases hread : Json.read text with
  | ok j =>
    rw [applyText_of_read hread] at h
    exact iff_of_true (isRuntime_of_overlay h) (by simp)
  | error fault =>
    rw [applyText, hread] at h
    rcases Json.faultsRightly_read text fault hread with rfl | rfl
    · cases h
      exact iff_of_true trivial (by simp)
    · cases h
      exact iff_of_false id (by simp)

/-- Two ways to take settings come to the same settings or to none at all, and what they fail by is a fault of taking
settings. -/
structure Agree (x y : Except Error Settings) : Prop where
  same : ∀ t, x = .ok t ↔ y = .ok t
  runtime : ∀ e, x = .error e ∨ y = .error e → e.IsRuntime

/-- A file and a text with the same content agree just in case the text has no fault by a number out of range, and
any settings that the text in front of some rest has are its own. For a file has the settings of a front of it and
always fails rightly, and a text fails wrongly just in case of such a number. -/
theorem file_agrees_with_text_iff (path text : Octets) :
    (Agree (ofFile path (some text)) (applyText text {}).result ↔ Json.read text ≠ .error .outOfRange ∧
      ∀ front rest t, text = front ++ rest → (applyText front {}).result = .ok t →
        (applyText text {}).result = .ok t) ∧
    (∀ t, ofFile path (some text) = .ok t ↔
      ∃ front rest, text = front ++ rest ∧ (applyText front {}).result = .ok t) ∧
    (∀ e, ofFile path (some text) = .error e → e.IsRuntime) ∧
    ∀ e, (applyText text {}).result = .error e → (e.IsRuntime ↔ Json.read text ≠ .error .outOfRange) := by
  refine ⟨⟨fun hagree => ⟨fun hrange => ?_, fun front rest t hfront ht => ?_⟩, ?_⟩, fun t => ofFile_eq_ok_iff_front,
    fun e => isRuntime_of_ofFile, fun e => isRuntime_of_applyText⟩
  · have he : (applyText text {}).result = .error (.document .outOfRange) := by
      rw [applyText, hrange]
      rfl
    exact hagree.runtime _ (.inr he)
  · exact (hagree.same t).mp (ofFile_eq_ok_iff_front.mpr ⟨front, rest, hfront, ht⟩)
  · rintro ⟨hrange, hfronts⟩
    constructor
    · intro t
      constructor
      · intro h
        obtain ⟨front, rest, hfront, ht⟩ := ofFile_eq_ok_iff_front.mp h
        exact hfronts front rest t hfront ht
      · intro h
        exact ofFile_eq_ok_iff_front.mpr ⟨text, [], (List.append_nil text).symm, h⟩
    · intro e he
      rcases he with hfile | htext
      · exact isRuntime_of_ofFile hfile
      · exact (isRuntime_of_applyText htext).mpr hrange

/-- A document that names an address. -/
def addressText : Octets := octets "\x7b\"url\":\"ws://h/p\"\x7d"

/-- The same document with something behind it. -/
def trailedText : Octets := addressText ++ octets " x"

/-- A document with a number that is too large for floating point. -/
def vastText : Octets := octets "\x7b\"x\":1e400\x7d"

def addressSettings : Settings := { url := octets "ws://h/p" }

theorem addressText_taken : (applyText addressText {}).result = .ok addressSettings := by
  have htaken : applyText addressText {} = (addressSettings, none) := by decide +kernel
  exact congrArg Outcome.result htaken

theorem addressText_agrees : (applyText addressText {}).result = .ok addressSettings ∧
    Agree (ofFile (octets "feed.json") (some addressText)) (applyText addressText {}).result ∧
    ofFile (octets "feed.json") (some trailedText) = .ok addressSettings ∧
    ∃ e, (applyText trailedText {}).result = .error e ∧ e.IsRuntime := by
  have hread : Json.read addressText = .ok (.object [(octets "url", .text (octets "ws://h/p"))]) := rfl
  have htrailed : Json.read trailedText = .error .malformed := rfl
  have he : (applyText trailedText {}).result = .error (.malformedText .malformed) := by
    rw [applyText, htrailed]
    rfl
  obtain ⟨hagree, hfronts, -⟩ := file_agrees_with_text_iff (octets "feed.json") addressText
  obtain ⟨-, hfile, -, hfaults⟩ := file_agrees_with_text_iff (octets "feed.json") trailedText
  refine ⟨addressText_taken, hagree.mpr ⟨by rw [hread]; simp, fun front rest t hfront ht => ?_⟩,
    (hfile _).mpr ⟨addressText, _, rfl, addressText_taken⟩, _, he, (hfaults _ he).mpr (by rw [htrailed]; simp)⟩
  have hown := (hfronts _).mpr ⟨addressText, [], (List.append_nil _).symm, addressText_taken⟩
  have hother := (hfronts t).mpr ⟨front, rest, hfront, ht⟩
  rw [addressText_taken, Except.ok.inj (hown.symm.trans hother)]

/-- What follows a document, and a number that is too large, tell the two ways apart. -/
theorem trailedText_and_vastText_disagree :
    ¬Agree (ofFile (octets "feed.json") (some trailedText)) (applyText trailedText {}).result ∧
      ¬Agree (ofFile (octets "feed.json") (some vastText)) (applyText vastText {}).result := by
  constructor
  · intro hagree
    have hfile : ofFile (octets "feed.json") (some trailedText) = .ok addressSettings :=
      ofFile_eq_ok_iff_front.mpr ⟨addressText, _, rfl, addressText_taken⟩
    obtain ⟨j, hread, -⟩ := applyText_eq_ok_iff.mp ((hagree.same _).mp hfile)
    have htrailed : Json.read trailedText = .error .malformed := rfl
    cases hread.symm.trans htrailed
  · intro hagree
    have htext : applyText vastText {} = ({}, some (.document .outOfRange)) := by decide +kernel
    exact hagree.runtime (.document .outOfRange) (.inr (congrArg Outcome.result htext))

end Settings

end QuoteFeed
