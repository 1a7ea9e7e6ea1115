import QuoteFeed.JsonReader
import QuoteFeed.JsonWriter
import Mathlib.Tactic.SplitIfs

/-!
A text that has been written in quotes reads as itself.
-/

namespace QuoteFeed

namespace Json

theorem unit_of_control : ∀ n < 32, unit? [Ascii.zero, Ascii.zero, hexOctet (n / 16), hexOctet (n % 16)] = some n := by
  decide

theorem codePoint_of_control {n : Nat} (hn : n < 32) (rest : Octets) :
    codePoint? (Ascii.zero :: Ascii.zero :: hexOctet (n / 16) :: hexOctet (n % 16) :: rest) = some (n, 4) := by
  have hu : unit? (Ascii.zero :: Ascii.zero :: hexOctet (n / 16) :: hexOctet (n % 16) :: rest) = some n :=
    unit_of_control n hn
  have h1 : ¬(0xD800 ≤ n ∧ n < 0xDC00) := by omega
  have h2 : (!(decide (0xDC00 ≤ n) && decide (n < 0xE000))) = true := by
    simp
    omega
  have hg : (guard ((!(decide (0xDC00 ≤ n) && decide (n < 0xE000))) = true) : Option Unit) = some () := if_pos h2
  unfold codePoint?
  rw [hu]
  refine (if_neg h1).trans ?_
  exact congrArg (fun passed : Option Unit => passed.bind fun _ => some (n, 4)) hg

theorem takeQuoted_skip (skipped s : Octets) : takeQuoted? skipped.length (skipped ++ s) = takeQuoted? 0 s := by
  induction skipped with
  | nil => rfl
  | cons b skipped ih => exact ih

theorem takeQuoted_control {b : UInt8} (hb : b < 32) (s : Octets) :
    takeQuoted? 0 (Ascii.backslash :: Ascii.lowerU :: Ascii.zero :: Ascii.zero :: hexOctet (b.toNat / 16) ::
      hexOctet (b.toNat % 16) :: s) = (takeQuoted? 0 s).map fun p => (b :: p.1, p.2) := by
  have hlt : b.toNat < 32 := hb
  have hs := takeQuoted_skip [Ascii.lowerU, Ascii.zero, Ascii.zero, hexOctet (b.toNat / 16), hexOctet (b.toNat % 16)] s
  have he : Utf8.encode b.toNat = [b] := by simp [Utf8.encode, show b.toNat < 128 by omega]
  have hq : ¬Ascii.backslash = Ascii.quoteMark := nofun
  have hl : ¬Ascii.backslash < 32 := by decide
  rw [takeQuoted?]
  simp only [hq, hl, if_false, if_true, codePoint_of_control hlt, Option.bind_eq_bind, Option.bind_some, he]
  simp only [List.cons_append, List.nil_append, List.length_cons, List.length_nil] at hs
  rw [hs]
  cases takeQuoted? 0 s <;> rfl

/-- The written form of an octet reads as that octet, whatever follows it. -/
theorem takeQuoted_escapeOctet (b : UInt8) (s : Octets) :
    takeQuoted? 0 (escapeOctet b ++ s) = (takeQuoted? 0 s).map fun p => (b :: p.1, p.2) := by
  have hletter : ∀ letter c, escaped? letter = some c → letter ≠ Ascii.lowerU →
      takeQuoted? 0 (Ascii.backslash :: letter :: s) = (takeQuoted? 0 s).map fun p => (c :: p.1, p.2) := by
    intro letter c hc hu
    simp only [takeQuoted?, hu, if_false, hc]
    cases takeQuoted? 0 s <;> rfl
  unfold escapeOctet
  split_ifs with hq h8 h12 hn hr ht hb
  · rcases hq with rfl | rfl
    · exact hletter _ _ rfl nofun
    · exact hletter _ _ rfl nofun
  · exact h8 ▸ hletter _ _ rfl nofun
  · exact h12 ▸ hletter _ _ rfl nofun
  · exact hn ▸ hletter _ _ rfl nofun
  · exact hr ▸ hletter _ _ rfl nofun
  · exact ht ▸ hletter _ _ rfl nofun
  · exact takeQuoted_control hb s
  · have hq' : ¬b = Ascii.quoteMark := fun h => hq (.inl h)
    have hbs : ¬b = Ascii.backslash := fun h => hq (.inr h)
    simp only [List.cons_append, List.nil_append, takeQuoted?, hq', hb, hbs, if_false]
    cases takeQuoted? 0 s <;> rfl

theorem takeQuoted_quoted (s rest : Octets) :
    takeQuoted? 0 (s.flatMap escapeOctet ++ Ascii.quoteMark :: rest) = some (s, rest) := by
  induction s with
  | nil => rfl
  | cons b s ih => rw [List.flatMap_cons, List.append_assoc, takeQuoted_escapeOctet, ih, Option.map_some]

variable {s rest : Octets} {fuel : Nat}

theorem readQuoted_quoted (h : Utf8.wellFormed s = true) :
    readQuoted (s.flatMap escapeOctet ++ Ascii.quoteMark :: rest) = .ok (s, rest) := by
  unfold readQuoted
  rw [takeQuoted_quoted]
  simp only [h, if_true]
  rfl

theorem quote_append (s rest : Octets) :
    quote s ++ rest = Ascii.quoteMark :: (s.flatMap escapeOctet ++ Ascii.quoteMark :: rest) := by
  simp [quote]

theorem readValue_quote (h : Utf8.wellFormed s = true) :
    readValue (fuel + 1) (quote s ++ rest) = .ok (text s, rest) := by
  have hb : ∀ t, skipBlanks (Ascii.quoteMark :: t) = Ascii.quoteMark :: t := fun _ => rfl
  rw [quote_append, readValue, hb]
  simp only [if_true, readQuoted_quoted h]
  rfl

def texts (members : List (Octets × Octets)) : List (Octets × Json) := members.map fun m => (m.1, text m.2)

theorem writeMember_text {m : Octets × Octets} (hk : Utf8.wellFormed m.1 = true) (hv : Utf8.wellFormed m.2 = true) :
    writeMember (m.1, text m.2) = .ok (quote m.1 ++ Ascii.colon :: quote m.2) := by
  simp only [writeMember, write, writeText, hk, hv, if_true]
  rfl

/-- A member that is a text reads as itself; what comes next depends on the mark behind it. -/
theorem readMembers_text {m : Octets × Octets} (hk : Utf8.wellFormed m.1 = true) (hv : Utf8.wellFormed m.2 = true) :
    readMembers (fuel + 2) (quote m.1 ++ Ascii.colon :: quote m.2 ++ rest) =
      match skipBlanks rest with
      | Ascii.closeBrace :: rest => pure ([(m.1, text m.2)], rest)
      | Ascii.comma :: rest => do
        let (members, rest) ← readMembers (fuel + 1) rest
        pure ((m.1, text m.2) :: members, rest)
      | _ => throw .malformed := by
  have hc : ∀ t, skipBlanks (Ascii.colon :: t) = Ascii.colon :: t := fun _ => rfl
  rw [List.append_assoc, quote_append]
  change (readQuoted (m.1.flatMap escapeOctet ++ Ascii.quoteMark :: Ascii.colon :: (quote m.2 ++ rest))).bind _ = _
  rw [readQuoted_quoted hk]
  change (readValue (fuel + 1) (quote m.2 ++ rest)).bind _ = _
  rw [readValue_quote hv]
  rfl

theorem readMembers_last {m : Octets × Octets} (hk : Utf8.wellFormed m.1 = true) (hv : Utf8.wellFormed m.2 = true) :
    readMembers (fuel + 2) (quote m.1 ++ Ascii.colon :: quote m.2 ++ Ascii.closeBrace :: rest) =
      .ok ([(m.1, text m.2)], rest) := by
  rw [readMembers_text hk hv]
  rfl

theorem readMembers_next {m : Octets × Octets} {members : List (Octets × Json)} {left : Octets}
    (hk : Utf8.wellFormed m.1 = true) (hv : Utf8.wellFormed m.2 = true)
    (h : readMembers (fuel + 1) rest = .ok (members, left)) :
    readMembers (fuel + 2) (quote m.1 ++ Ascii.colon :: quote m.2 ++ Ascii.comma :: rest) =
      .ok ((m.1, text m.2) :: members, left) := by
  rw [readMembers_text hk hv]
  change (readMembers (fuel + 1) rest).bind _ = _
  rw [h]
  rfl

/-- The members of an object of texts are written in a form that reads as themselves. -/
theorem writeMembers_texts {members : List (Octets × Octets)} (hne : members ≠ [])
    (h : ∀ m ∈ members, Utf8.wellFormed m.1 = true ∧ Utf8.wellFormed m.2 = true) :
    ∃ s, writeMembers (texts members) = .ok (Ascii.quoteMark :: s) ∧ members.length ≤ s.length ∧
      ∀ fuel rest, members.length < fuel →
        readMembers fuel (Ascii.quoteMark :: s ++ Ascii.closeBrace :: rest) = .ok (texts members, rest) := by
  induction members with
  | nil => exact absurd rfl hne
  | cons m members ih =>
    obtain ⟨hk, hv⟩ := h m (List.mem_cons_self)
    have hq := quote_append m.1 (Ascii.colon :: quote m.2)
    cases members with
    | nil =>
      refine ⟨m.1.flatMap escapeOctet ++ Ascii.quoteMark :: Ascii.colon :: quote m.2, ?_, ?_, ?_⟩
      · exact ((writeMembers.eq_2 _).trans (writeMember_text hk hv)).trans (congrArg _ hq)
      · simp
        omega
      · intro fuel rest hf
        obtain ⟨fuel, rfl⟩ := Nat.exists_eq_add_of_le hf
        rw [List.length_singleton, Nat.add_comm, ← hq]
        exact readMembers_last hk hv
    | cons n members =>
      obtain ⟨s, hs, hl, hr⟩ := ih (by simp) fun m' hm => h m' (List.mem_cons_of_mem m hm)
      have hqs := quote_append m.1 (Ascii.colon :: quote m.2 ++ Ascii.comma :: Ascii.quoteMark :: s)
      rw [← List.append_assoc] at hqs
      refine ⟨m.1.flatMap escapeOctet ++ Ascii.quoteMark :: (Ascii.colon :: quote m.2 ++ Ascii.comma ::
        Ascii.quoteMark :: s), ?_, ?_, ?_⟩
      · change (do pure ((← writeMember (m.1, text m.2)) ++ Ascii.comma :: (← writeMembers (texts (n :: members))))) = _
        rw [writeMember_text hk hv, hs]
        exact congrArg _ hqs
      · simp at hl ⊢
        omega
      · intro fuel rest hf
        obtain ⟨fuel, rfl⟩ := Nat.exists_eq_add_of_le hf
        have hr' := hr ((n :: members).length + 1 + fuel) rest (by omega)
        rw [← hqs, List.append_assoc, List.cons_append]
        rw [show (m :: n :: members).length.succ + fuel = (members.length + 1 + fuel) + 2 by simp; omega]
        refine readMembers_next hk hv ?_
        rw [show members.length + 1 + fuel + 1 = (n :: members).length + 1 + fuel by simp; omega]
        exact hr'

/-- An object of texts, its keys in order, is written in a form that reads as itself. -/
theorem read_object {members : List (Octets × Octets)} (hne : members ≠ [])
    (h : ∀ m ∈ members, Utf8.wellFormed m.1 = true ∧ Utf8.wellFormed m.2 = true)
    (hs : ofMembers (texts members) = object (texts members)) :
    ∃ frame, (object (texts members)).write = .ok frame ∧ read frame = .ok (object (texts members)) := by
  obtain ⟨s, hw, hl, hr⟩ := writeMembers_texts hne h
  refine ⟨Ascii.openBrace :: (Ascii.quoteMark :: s) ++ [Ascii.closeBrace], ?_, ?_⟩
  · change (do pure (Ascii.openBrace :: (← writeMembers (texts members)) ++ [Ascii.closeBrace])) = _
    rw [hw]
    rfl
  · have hm := hr (2 * (s.length + 3) + 1) [] (by omega)
    have hv : readFirst (Ascii.openBrace :: (Ascii.quoteMark :: s) ++ [Ascii.closeBrace]) =
        .ok (object (texts members), []) := by
      unfold readFirst
      have hlen : (Ascii.openBrace :: (Ascii.quoteMark :: s) ++ [Ascii.closeBrace]).length = s.length + 3 := by simp
      rw [hlen]
      change (readMembers (2 * (s.length + 3) + 1) (Ascii.quoteMark :: s ++ [Ascii.closeBrace])).bind _ = _
      rw [hm, ← hs]
      rfl
    unfold read
    rw [hv]
    rfl

end Json

end QuoteFeed
