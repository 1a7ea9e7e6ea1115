import QuoteFeed.Proofs.Documents
import QuoteFeed.Proofs.EpochTimes

/-!
Frames with a place for a value. Whatever is put there, the members around it are read as before, and the frame has a
fault if one of them has or if the value has.
-/

namespace QuoteFeed

namespace Json

variable {fuel : Nat} {key k : Octets} {s rest front back : Octets} {j : Json} {r : Except Error Json}
  {before after : Except Error (List (Octets × Json))}

/-- Some octets come to a document or to a fault, with others behind them that are left. -/
def ComesTo (s back : Octets) (r : Except Error Json) : Prop :=
  ∀ fuel, 2 * s.length + 1 ≤ fuel → readValue fuel (s ++ back) = r.map fun j => (j, back)

/-- What has been read once is read again, whatever comes later. -/
theorem comesTo_of_reads (h : readValue fuel (s ++ back) = .ok (j, back)) (hback : back ≠ []) (more : Octets) :
    ComesTo s (back ++ more) (.ok j) := by
  obtain ⟨front, -, hsplit, hfront⟩ := (reads_fronts fuel).1 h
  obtain rfl : s = front := List.append_cancel_right hsplit
  intro fuel hfuel
  have hhead : (back ++ more).head? = back.head? := by
    rw [head?_append_of_ne_nil hback more [], List.append_nil]
  exact hfront fuel (back ++ more) (by omega) (.inr hhead)

/-- What is made of the octets behind a member: its object ends, or other members follow. -/
def readBehind (fuel : Nat) (m : Octets × Json) (s : Octets) : Except Error (List (Octets × Json) × Octets) :=
  match skipBlanks s with
  | Ascii.closeBrace :: rest => .ok ([m], rest)
  | Ascii.comma :: rest => (readMembers fuel rest).map fun q => (m :: q.1, q.2)
  | _ => .error .malformed

theorem readMembers_leads {value : Octets} (h : LeadsMember s key value) :
    readMembers (fuel + 1) s = (readValue fuel value).bind fun p => readBehind fuel (key, p.1) p.2 := by
  obtain ⟨quoted, colon, hquote, hkey, hcolon⟩ := h
  rw [readMembers, hquote]
  change (readQuoted quoted).bind _ = _
  simp only [hkey, Except.bind]
  rw [hcolon]
  change (readValue fuel value).bind _ = _
  congr 1

theorem LeadsMember.head? {value : Octets} (h : LeadsMember s key value) :
    (skipBlanks s).head? = some Ascii.quoteMark := by
  obtain ⟨quoted, _, hquote, -, -⟩ := h
  rw [hquote]
  rfl

theorem LeadsMember.length_pos {value : Octets} (h : LeadsMember s key value) : 0 < s.length := by
  obtain ⟨_, _, hquote, -, -⟩ := h
  refine List.length_pos_iff.mpr (ne_nil_of_skipBlanks ?_)
  rw [hquote]
  exact List.cons_ne_nil _ _

theorem LeadsMember.append (h : LeadsMember s key []) (more : Octets) : LeadsMember (s ++ more) key more := by
  obtain ⟨front, hs, hfront⟩ := leadsMember_front h
  rw [hs, List.append_nil]
  exact hfront more

/-- A text leads up to the value of a member behind others, and what these come to. -/
inductive LeadsTo (key : Octets) : Octets → Except Error (List (Octets × Json)) → Prop where
  | here {name blanks : Octets} : LeadsMember name key [] → skipBlanks blanks = [] →
      LeadsTo key (name ++ blanks) (.ok [])
  | later {name value gap front k : Octets} {r : Except Error Json} {before : Except Error (List (Octets × Json))} :
      LeadsMember name k [] → (∀ more, ComesTo value (gap ++ more) r) → skipBlanks gap = [Ascii.comma] →
      LeadsTo key front before →
      LeadsTo key (name ++ (value ++ (gap ++ front))) (r.bind fun j => before.map ((k, j) :: ·))

/-- A text ends an object behind the value of a member, and what the members in between come to. -/
inductive Closes : Octets → Except Error (List (Octets × Json)) → Prop where
  | last {back rest : Octets} : skipBlanks back = Ascii.closeBrace :: rest → atEnd rest = true → Closes back (.ok [])
  | more {back tail rest : Octets} {after : Except Error (List (Octets × Json))} :
      skipBlanks back = Ascii.comma :: tail →
      (∀ fuel, 2 * tail.length + 1 ≤ fuel → readMembers fuel tail = after.map fun a => (a, rest)) →
      atEnd rest = true → Closes back after

theorem Closes.head? (h : Closes back after) : ∃ b, back.head? = some b ∧
    (isBlank b = true ∨ b = Ascii.closeBrace ∨ b = Ascii.comma) := by
  have hmark : ∃ b, (skipBlanks back).head? = some b ∧ (b = Ascii.closeBrace ∨ b = Ascii.comma) := by
    cases h with
    | last hback _ => exact ⟨_, by rw [hback]; rfl, .inl rfl⟩
    | more hback _ _ => exact ⟨_, by rw [hback]; rfl, .inr rfl⟩
  obtain ⟨mark, hhead, hmark⟩ := hmark
  cases back with
  | nil => cases hhead
  | cons b back =>
    refine ⟨b, rfl, ?_⟩
    by_cases hb : isBlank b = true
    · exact .inl hb
    · rw [skipBlanks_eq, List.dropWhile_cons, if_neg hb] at hhead
      rw [Option.some.inj hhead]
      exact .inr hmark

theorem Closes.reads (h : Closes back after) : ∃ rest, atEnd rest = true ∧ ∀ fuel m, 2 * back.length ≤ fuel →
    readBehind fuel m back = after.map fun a => (m :: a, rest) := by
  cases h with
  | last hback hrest =>
    refine ⟨_, hrest, fun fuel m _ => ?_⟩
    rw [readBehind, hback]
    rfl
  | @more tail rest _ hback hread hrest =>
    refine ⟨rest, hrest, fun fuel m hfuel => ?_⟩
    obtain ⟨gap, hgap, hsplit, -⟩ := exists_gap hback
    have hlength := List.length_pos_iff.mpr (ne_nil_of_skipBlanks hgap)
    have htail := hread fuel (by rw [hsplit, List.length_append] at hfuel; omega)
    rw [readBehind, hback]
    change (readMembers fuel tail).map _ = _
    rw [htail]
    cases after <;> rfl

/-- The members around a value are read in front of it and behind it; the first fault from the left decides. -/
theorem LeadsTo.reads (h : LeadsTo key front before) (hs : ComesTo s back r) (hback : Closes back after) :
    ∃ rest, atEnd rest = true ∧ ∀ fuel, 2 * (front ++ (s ++ back)).length + 1 ≤ fuel →
      readMembers fuel (front ++ (s ++ back)) =
        before.bind fun b => r.bind fun j => after.map fun a => (b ++ (key, j) :: a, rest) := by
  obtain ⟨rest, hrest, hbehind⟩ := hback.reads
  refine ⟨rest, hrest, ?_⟩
  -- each member in front takes up one step of the fuel, and more than one octet pays for it
  induction h with
  | @here name blanks hname hblanks =>
    intro fuel hfuel
    obtain ⟨fuel, rfl⟩ : ∃ n, fuel = n + 1 := ⟨fuel - 1, by omega⟩
    have hskip : skipBlanks (blanks ++ (s ++ back)) = skipBlanks (s ++ back) := by
      obtain ⟨_, hsplit, hmore⟩ := exists_blanks blanks
      rw [hblanks, List.append_nil] at hsplit
      rw [hsplit]
      exact hmore (s ++ back)
    have hlength := hname.length_pos
    simp only [List.length_append] at hfuel
    rw [List.append_assoc, readMembers_leads (hname.append _), ← readValue_skipBlanks, hskip, readValue_skipBlanks,
      hs fuel (by omega)]
    cases r with
    | error e => rfl
    | ok j => exact hbehind fuel (key, j) (by omega)
  | @later name value gap front k r' before hname hvalue hgap hfront ih =>
    intro fuel hfuel
    obtain ⟨fuel, rfl⟩ : ∃ n, fuel = n + 1 := ⟨fuel - 1, by omega⟩
    obtain ⟨mark, hmark, hsplit, hcomma⟩ := exists_gap hgap
    obtain rfl : gap = mark := by rw [hsplit, List.append_nil]
    have hlength := List.length_pos_iff.mpr (ne_nil_of_skipBlanks hmark)
    simp only [List.length_append] at hfuel
    have hlater := ih fuel (by simp only [List.length_append]; omega)
    simp only [List.append_assoc]
    rw [readMembers_leads (hname.append _), hvalue _ fuel (by omega)]
    cases r' with
    | error e => rfl
    | ok j' =>
      change readBehind fuel (k, j') (gap ++ (front ++ (s ++ back))) = _
      rw [readBehind, hcomma]
      change (readMembers fuel (front ++ (s ++ back))).map _ = _
      rw [hlater]
      cases before with
      | error e => rfl
      | ok b =>
        cases r with
        | error e => rfl
        | ok j => cases after <;> rfl

theorem LeadsTo.head? (h : LeadsTo key front before) (more : Octets) :
    (skipBlanks (front ++ more)).head? = some Ascii.quoteMark := by
  cases h with
  | here hname _ =>
    rw [List.append_assoc]
    exact (hname.append _).head?
  | later hname _ _ _ =>
    rw [List.append_assoc]
    exact (hname.append _).head?

/-! ### Members -/

/-- The last member with a key counts. -/
theorem member?_ofMembers (members : List (Octets × Json)) (k : Octets) :
    (ofMembers members).member? k = (members.reverse.find? fun m => m.1 = k).map (·.2) := by
  induction members using List.reverseRecOn with
  | nil => rfl
  | append_singleton members m ih =>
    have hinsert : ofMembers (members ++ [m]) = (ofMembers members).withMember m.1 m.2 := by
      simp [ofMembers, withMember]
    rw [hinsert, List.reverse_append, List.reverse_singleton, List.singleton_append, List.find?_cons]
    by_cases hk : m.1 = k
    · subst hk
      rw [member?_withMember_self rfl]
      simp
    · rw [member?_withMember_of_ne hk, ih]
      simp [hk]

section

variable {b a : List (Octets × Json)}

theorem member?_amid (h : ∀ m ∈ a, m.1 ≠ key) : (ofMembers (b ++ (key, j) :: a)).member? key = some j := by
  have hnone : (a.reverse.find? fun m => m.1 = key) = none := by
    rw [List.find?_eq_none]
    intro m hm
    simpa using h m (List.mem_reverse.mp hm)
  rw [member?_ofMembers, List.reverse_append, List.reverse_cons, List.append_assoc, List.find?_append, hnone]
  simp

theorem member?_beside (hk : key ≠ k) :
    (ofMembers (b ++ (key, j) :: a)).member? k = (ofMembers (b ++ a)).member? k := by
  rw [member?_ofMembers, member?_ofMembers, List.reverse_append, List.reverse_cons, List.append_assoc,
    List.reverse_append, List.find?_append, List.find?_append]
  simp [hk]

end

/-- A text is an object but for the value of one member, the last one with its key. -/
structure OpenFrame (key : Octets) where
  opening : Octets
  front : Octets
  back : Octets
  before : Except Error (List (Octets × Json))
  after : Except Error (List (Octets × Json))
  opens : skipBlanks (skipMark opening) = [Ascii.openBrace]
  leads : LeadsTo key front before
  closes : Closes back after
  last : ∀ members, after = .ok members → ∀ m ∈ members, m.1 ≠ key

namespace OpenFrame

variable (f : OpenFrame key)

/-- The frame with a value put in. -/
def fill (value : Octets) : Octets := f.opening ++ (f.front ++ (value ++ f.back))

theorem skipMark_append {opening : Octets} (h : skipBlanks (skipMark opening) = [Ascii.openBrace]) (more : Octets) :
    skipMark (opening ++ more) = skipMark opening ++ more := by
  by_cases hmark : [0xEF, 0xBB, 0xBF].isPrefixOf opening = true
  · obtain ⟨tail, rfl⟩ := List.isPrefixOf_iff_prefix.mp hmark
    rfl
  · rw [skipMark, if_neg hmark] at h
    have hne : opening ≠ [] := ne_nil_of_skipBlanks (by rw [h]; exact List.cons_ne_nil _ _)
    obtain ⟨b, tail, rfl⟩ := List.exists_cons_of_ne_nil hne
    have hb : b ≠ 0xEF := by
      rintro rfl
      cases h
    have hhead : (b :: tail).head? ≠ some 0xEF := fun heq => hb (Option.some.inj heq)
    rw [skipMark_of_head? hhead]
    exact skipMark_of_head? hhead

/-- The frame reads as what is put in, together with the other members. -/
theorem read_fill {value : Octets} (hvalue : ComesTo value f.back r) : read (f.fill value) =
    f.before.bind fun b => r.bind fun j => f.after.map fun a => ofMembers (b ++ (key, j) :: a) := by
  obtain ⟨rest, hrest, hmembers⟩ := f.leads.reads hvalue f.closes
  obtain ⟨gap, -, hsplit, hbrace⟩ := exists_gap f.opens
  rw [List.append_nil] at hsplit
  have hfirst : readFirst (f.fill value) = (readMembers (2 * (f.fill value).length + 1)
      (f.front ++ (value ++ f.back))).map fun p => (ofMembers p.1, p.2) := by
    have hhead : (skipBlanks (f.front ++ (value ++ f.back))).head? ≠ some Ascii.closeBrace := by
      rw [f.leads.head?]
      decide
    rw [readFirst, fill, skipMark_append f.opens, ← readValue_skipBlanks, hsplit, hbrace]
    exact readValue_object hhead
  have hlength : (f.front ++ (value ++ f.back)).length ≤ (f.fill value).length :=
    (List.suffix_append f.opening _).length_le
  rw [hmembers _ (by omega)] at hfirst
  rw [read, hfirst]
  cases f.before with
  | error e => rfl
  | ok b =>
    cases r with
    | error e => rfl
    | ok j =>
      cases f.after with
      | error e => rfl
      | ok a =>
        simp [Except.bind, Except.map, hrest, bind, pure, Except.pure]

end OpenFrame

end Json

end QuoteFeed
