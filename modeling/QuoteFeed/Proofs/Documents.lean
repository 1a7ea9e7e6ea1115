import QuoteFeed.Proofs.Fronts

/-!
The first document of a text. Lists and objects are read from the front of a text like what they are made of, and
as soon as an object has ended, nothing that follows matters any more.
-/

namespace QuoteFeed

namespace Json

variable {s rest : Octets}

/-! ### Blanks -/

def isBlank (b : UInt8) : Bool :=
  b = Ascii.space || b = Ascii.tab || b = Ascii.lineFeed || b = Ascii.carriageReturn

theorem skipBlanks_eq (s : Octets) : skipBlanks s = s.dropWhile isBlank := rfl

theorem exists_blanks (s : Octets) : ∃ blanks, s = blanks ++ skipBlanks s ∧
    ∀ more, skipBlanks (blanks ++ more) = skipBlanks more := by
  refine ⟨s.takeWhile isBlank, (List.takeWhile_append_dropWhile ..).symm, fun more => ?_⟩
  have hall : ∀ b ∈ s.takeWhile isBlank, isBlank b = true := fun b hb => List.mem_takeWhile_imp hb
  exact List.dropWhile_append_of_pos hall

theorem skipBlanks_of_head? {more : Octets} (h : more.head? = (skipBlanks s).head?) : skipBlanks more = more := by
  cases more with
  | nil => rfl
  | cons b more =>
    have hb : isBlank b = false := by
      have hnot := List.head?_dropWhile_not isBlank s
      rw [← skipBlanks_eq, ← h] at hnot
      simpa using hnot
    rw [skipBlanks_eq, List.dropWhile_cons, hb]
    rfl

@[simp] theorem skipBlanks_skipBlanks (s : Octets) : skipBlanks (skipBlanks s) = skipBlanks s := skipBlanks_of_head? rfl

section

attribute [local simp] readValue readItems readMembers

theorem readValue_skipBlanks (fuel : Nat) (s : Octets) : readValue fuel (skipBlanks s) = readValue fuel s := by
  cases fuel with
  | zero => rfl
  | succ fuel => simp

theorem readItems_skipBlanks (fuel : Nat) (s : Octets) : readItems fuel (skipBlanks s) = readItems fuel s := by
  cases fuel with
  | zero => rfl
  | succ fuel => simp [readValue_skipBlanks]

theorem readMembers_skipBlanks (fuel : Nat) (s : Octets) : readMembers fuel (skipBlanks s) = readMembers fuel s := by
  cases fuel with
  | zero => rfl
  | succ fuel => simp

end

/-! ### Lists and objects -/

variable {fuel : Nat} {j : Json} {tail : Octets}

theorem readValue_list_nil (h : skipBlanks tail = Ascii.closeBracket :: rest) :
    readValue (fuel + 1) (Ascii.openBracket :: tail) = .ok (list [], rest) := by
  have hskip : skipBlanks (Ascii.openBracket :: tail) = Ascii.openBracket :: tail := rfl
  rw [readValue, hskip]
  dsimp only
  rw [if_neg (by decide), if_pos rfl, h]
  rfl

theorem readValue_list (h : (skipBlanks tail).head? ≠ some Ascii.closeBracket) :
    readValue (fuel + 1) (Ascii.openBracket :: tail) =
      (readItems fuel tail).map fun p => (list p.1, p.2) := by
  have hskip : skipBlanks (Ascii.openBracket :: tail) = Ascii.openBracket :: tail := rfl
  rw [readValue, hskip]
  dsimp only
  rw [if_neg (by decide), if_pos rfl, ← readItems_skipBlanks]
  split
  next heq => exact absurd (congrArg List.head? heq) h
  next => cases readItems fuel (skipBlanks tail) <;> rfl

theorem readValue_object_nil (h : skipBlanks tail = Ascii.closeBrace :: rest) :
    readValue (fuel + 1) (Ascii.openBrace :: tail) = .ok (object [], rest) := by
  have hskip : skipBlanks (Ascii.openBrace :: tail) = Ascii.openBrace :: tail := rfl
  rw [readValue, hskip]
  dsimp only
  rw [if_neg (by decide), if_neg (by decide), if_pos rfl, h]
  rfl

theorem readValue_object (h : (skipBlanks tail).head? ≠ some Ascii.closeBrace) :
    readValue (fuel + 1) (Ascii.openBrace :: tail) =
      (readMembers fuel tail).map fun p => (ofMembers p.1, p.2) := by
  have hskip : skipBlanks (Ascii.openBrace :: tail) = Ascii.openBrace :: tail := rfl
  rw [readValue, hskip]
  dsimp only
  rw [if_neg (by decide), if_neg (by decide), if_pos rfl, ← readMembers_skipBlanks]
  split
  next heq => exact absurd (congrArg List.head? heq) h
  next => cases readMembers fuel (skipBlanks tail) <;> rfl

/-- A list of elements is read one by one: what leads up to a document, the document, and what comes behind it, which
is the end or a comma and further elements. -/
def ReadsElements {κ α : Type} (read : Nat → Octets → Except Error (List α × Octets))
    (leads : Octets → κ → Octets → Prop) (make : κ → Json → α) (close : UInt8) : Prop :=
  ∀ fuel s elements rest, read (fuel + 1) s = .ok (elements, rest) ↔
    ∃ key value j middle, leads s key value ∧ readValue fuel value = .ok (j, middle) ∧
      (skipBlanks middle = close :: rest ∧ elements = [make key j] ∨
        ∃ tail later, skipBlanks middle = Ascii.comma :: tail ∧ read fuel tail = .ok (later, rest) ∧
          elements = make key j :: later)

/-- Nothing leads up to an item of a list. -/
def LeadsItem (s : Octets) (_ : Unit) (value : Octets) : Prop := s = value

theorem readItems_elements : ReadsElements readItems LeadsItem (fun _ j => j) Ascii.closeBracket := by
  intro fuel s items rest
  rw [readItems]
  constructor
  · intro h
    obtain ⟨⟨j, middle⟩, hvalue, h⟩ := Except.exists_of_bind_eq_ok h
    refine ⟨(), s, j, middle, rfl, hvalue, ?_⟩
    dsimp only at h
    split at h
    next tail hclose =>
      obtain ⟨rfl, rfl⟩ := Prod.mk.inj (Except.ok.inj h)
      exact .inl ⟨hclose, rfl⟩
    next tail hcomma =>
      obtain ⟨⟨later, last⟩, hlater, h⟩ := Except.exists_of_bind_eq_ok h
      obtain ⟨rfl, rfl⟩ := Prod.mk.inj (Except.ok.inj h)
      exact .inr ⟨tail, later, hcomma, hlater, rfl⟩
    next => cases h
  · rintro ⟨_, value, j, middle, rfl, hvalue, hend⟩
    simp only [hvalue, bind, Except.bind]
    rcases hend with ⟨hclose, rfl⟩ | ⟨tail, later, hcomma, hlater, rfl⟩
    · rw [hclose]
      rfl
    · rw [hcomma]
      change (readItems fuel tail).bind _ = _
      rw [hlater]
      rfl

/-- A key and a colon lead up to the value of a member. -/
def LeadsMember (s key value : Octets) : Prop :=
  ∃ quoted colon, skipBlanks s = Ascii.quoteMark :: quoted ∧ readQuoted quoted = .ok (key, colon) ∧
    skipBlanks colon = Ascii.colon :: value

theorem readMembers_elements : ReadsElements readMembers LeadsMember Prod.mk Ascii.closeBrace := by
  intro fuel s members rest
  rw [readMembers]
  constructor
  · intro h
    split at h
    next quoted hquote =>
      obtain ⟨⟨key, colon⟩, hkey, h⟩ := Except.exists_of_bind_eq_ok h
      dsimp only at h
      split at h
      next value hcolon =>
        obtain ⟨⟨j, middle⟩, hvalue, h⟩ := Except.exists_of_bind_eq_ok h
        refine ⟨key, value, j, middle, ⟨quoted, colon, hquote, hkey, hcolon⟩, hvalue, ?_⟩
        dsimp only at h
        split at h
        next last hclose =>
          obtain ⟨rfl, rfl⟩ := Prod.mk.inj (Except.ok.inj h)
          exact .inl ⟨hclose, rfl⟩
        next tail hcomma =>
          obtain ⟨⟨later, last⟩, hlater, h⟩ := Except.exists_of_bind_eq_ok h
          obtain ⟨rfl, rfl⟩ := Prod.mk.inj (Except.ok.inj h)
          exact .inr ⟨tail, later, hcomma, hlater, rfl⟩
        next => cases h
      next => cases h
    next => cases h
  · rintro ⟨key, value, j, middle, ⟨quoted, colon, hquote, hkey, hcolon⟩, hvalue, hend⟩
    rw [hquote]
    change (readQuoted quoted).bind _ = _
    simp only [hkey, Except.bind]
    rw [hcolon]
    change (readValue fuel value).bind _ = _
    simp only [hvalue, Except.bind]
    rcases hend with ⟨hclose, rfl⟩ | ⟨tail, later, hcomma, hlater, rfl⟩
    · rw [hclose]
      rfl
    · rw [hcomma]
      change (readMembers fuel tail).bind _ = _
      rw [hlater]
      rfl

/-- The octets in front of `rest` are read as something, with enough fuel for their number and in front of any text
that ends them. -/
def ReadsFront {α : Type} (read : Nat → Octets → Except Error (α × Octets)) (extra : Nat) (ends : Octets → Prop)
    (s : Octets) (a : α) (rest : Octets) : Prop :=
  ∃ front, skipBlanks front ≠ [] ∧ s = front ++ rest ∧
    ∀ fuel more, 2 * front.length + extra ≤ fuel → ends more → read fuel (front ++ more) = .ok (a, more)

/-- Only an object ends by itself, whatever comes next. -/
def Ends (j : Json) (rest more : Octets) : Prop := j.isObject = true ∨ more.head? = rest.head?

abbrev ValueFront (s : Octets) (j : Json) (rest : Octets) : Prop := ReadsFront readValue 0 (Ends j rest) s j rest

abbrev ItemsFront (s : Octets) (items : List Json) (rest : Octets) : Prop :=
  ReadsFront readItems 1 (fun _ => True) s items rest

abbrev MembersFront (s : Octets) (members : List (Octets × Json)) (rest : Octets) : Prop :=
  ReadsFront readMembers 1 (fun _ => True) s members rest

theorem skipBlanks_append {front : Octets} (h : skipBlanks front ≠ []) (more : Octets) :
    skipBlanks (front ++ more) = skipBlanks front ++ more := by
  have hempty : (front.dropWhile isBlank).isEmpty = false := List.isEmpty_eq_false_iff.mpr h
  rw [skipBlanks_eq, List.dropWhile_append, hempty]
  rfl

theorem skipBlanks_append_ne_nil {front back : Octets} (h : skipBlanks front ≠ [] ∨ skipBlanks back ≠ []) :
    skipBlanks (front ++ back) ≠ [] := by
  by_cases hfront : skipBlanks front = []
  · have hempty : (front.dropWhile isBlank).isEmpty = true := List.isEmpty_iff.mpr hfront
    rw [skipBlanks_eq, List.dropWhile_append, if_pos hempty]
    exact h.resolve_left (not_not_intro hfront)
  · rw [skipBlanks_append hfront]
    exact List.append_ne_nil_of_left_ne_nil hfront back

theorem head?_append_of_ne_nil {front : Octets} (h : front ≠ []) (more rest : Octets) :
    (front ++ more).head? = (front ++ rest).head? := by
  cases front with
  | nil => exact absurd rfl h
  | cons b front => rfl

theorem skipBlanks_head? {front : Octets} (h : skipBlanks front ≠ []) (more rest : Octets) :
    (skipBlanks (front ++ more)).head? = (skipBlanks (front ++ rest)).head? := by
  rw [skipBlanks_append h, skipBlanks_append h]
  exact head?_append_of_ne_nil h more rest

/-- A mark with the blanks in front of it. -/
theorem exists_gap {mark : UInt8} (h : skipBlanks s = mark :: tail) : ∃ gap, skipBlanks gap ≠ [] ∧ s = gap ++ tail ∧
    ∀ more, skipBlanks (gap ++ more) = mark :: more := by
  obtain ⟨blanks, hsplit, hskip⟩ := exists_blanks s
  have hgap : ∀ more, skipBlanks (blanks ++ mark :: more) = mark :: more := fun more =>
    (hskip _).trans (skipBlanks_of_head? (s := s) (by rw [h]; rfl))
  refine ⟨blanks ++ [mark], ?_, ?_, fun more => ?_⟩
  · rw [hgap]
    exact List.cons_ne_nil _ _
  · rw [List.append_assoc, List.singleton_append, ← h, ← hsplit]
  · rw [List.append_assoc, List.singleton_append, hgap]

theorem ne_nil_of_skipBlanks (h : skipBlanks s ≠ []) : s ≠ [] := by
  rintro rfl
  exact h rfl

theorem ReadsFront.of_skipBlanks {α : Type} {read : Nat → Octets → Except Error (α × Octets)} {extra : Nat}
    {ends : Octets → Prop} {a : α} (hread : ∀ fuel s, read fuel (skipBlanks s) = read fuel s)
    (h : ReadsFront read extra ends (skipBlanks s) a rest) : ReadsFront read extra ends s a rest := by
  obtain ⟨front, hne, hs, hfront⟩ := h
  obtain ⟨blanks, hsplit, hskip⟩ := exists_blanks s
  refine ⟨blanks ++ front, by rwa [hskip], ?_, fun fuel more hfuel hends => ?_⟩
  · rw [List.append_assoc, ← hs, ← hsplit]
  · rw [List.length_append] at hfuel
    have hmore := hfront fuel more (by omega) hends
    rw [← hread, List.append_assoc, hskip, hread]
    exact hmore

theorem leadsMember_front {key value : Octets} (h : LeadsMember s key value) :
    ∃ front, s = front ++ value ∧ ∀ more, LeadsMember (front ++ more) key more := by
  obtain ⟨quoted, colon, hquote, hkey, hcolon⟩ := h
  obtain ⟨mark, -, rfl, hmark⟩ := exists_gap hquote
  obtain ⟨name, -, rfl, hname⟩ := readQuoted_front hkey
  obtain ⟨gap, -, rfl, hgap⟩ := exists_gap hcolon
  refine ⟨mark ++ (name ++ gap), by simp only [List.append_assoc], fun more => ?_⟩
  simp only [List.append_assoc]
  exact ⟨name ++ (gap ++ more), gap ++ more, hmark _, hname _, hgap more⟩

/-- Elements are read from the front of a text if what leads up to them is, and the documents and the elements that
follow. -/
theorem elementsFront {κ α : Type} {read : Nat → Octets → Except Error (List α × Octets)}
    {leads : Octets → κ → Octets → Prop} {make : κ → Json → α} {close : UInt8}
    (hread : ReadsElements read leads make close)
    (hleads : ∀ {s key value}, leads s key value → ∃ front, s = front ++ value ∧ ∀ more, leads (front ++ more) key more)
    (hvalue : ∀ {s j rest}, readValue fuel s = .ok (j, rest) → ValueFront s j rest)
    (hlater : ∀ {s elements rest}, read fuel s = .ok (elements, rest) →
      ReadsFront read 1 (fun _ => True) s elements rest)
    {elements : List α} (h : read (fuel + 1) s = .ok (elements, rest)) :
    ReadsFront read 1 (fun _ => True) s elements rest := by
  obtain ⟨key, value, j, middle, hlead, hj, hend⟩ := (hread ..).mp h
  obtain ⟨lead, rfl, hkey⟩ := hleads hlead
  obtain ⟨front, hne, rfl, hfront⟩ := hvalue hj
  have hblank : ∀ back, skipBlanks (lead ++ (front ++ back)) ≠ [] := fun back => by
    rw [← List.append_assoc]
    exact skipBlanks_append_ne_nil (.inl (skipBlanks_append_ne_nil (.inr hne)))
  rcases hend with ⟨hclose, rfl⟩ | ⟨tail, later, hcomma, hrest, rfl⟩
  · obtain ⟨gap, hgap, rfl, hskip⟩ := exists_gap hclose
    refine ⟨lead ++ (front ++ gap), hblank gap, by simp only [List.append_assoc], fun fuel more hfuel _ => ?_⟩
    obtain ⟨fuel, rfl⟩ : ∃ n, fuel = n + 1 := ⟨fuel - 1, by omega⟩
    simp only [List.length_append] at hfuel
    simp only [List.append_assoc]
    -- a mark behind the document, and blanks in front of it, end a number as they did before
    have hends : Ends j (gap ++ rest) (gap ++ more) := .inr (head?_append_of_ne_nil (ne_nil_of_skipBlanks hgap) ..)
    have hj' := hfront fuel (gap ++ more) (by omega) hends
    exact (hread ..).mpr ⟨key, _, j, _, hkey _, hj', .inl ⟨hskip more, rfl⟩⟩
  · obtain ⟨gap, hgap, rfl, hskip⟩ := exists_gap hcomma
    obtain ⟨back, -, rfl, hback⟩ := hlater hrest
    refine ⟨lead ++ (front ++ (gap ++ back)), hblank _, by simp only [List.append_assoc], fun fuel more hfuel _ => ?_⟩
    obtain ⟨fuel, rfl⟩ : ∃ n, fuel = n + 1 := ⟨fuel - 1, by omega⟩
    have hlength := List.length_pos_iff.mpr (ne_nil_of_skipBlanks hgap)
    simp only [List.length_append] at hfuel
    simp only [List.append_assoc]
    have hends : Ends j (gap ++ (back ++ rest)) (gap ++ (back ++ more)) :=
      .inr (head?_append_of_ne_nil (ne_nil_of_skipBlanks hgap) ..)
    have hj' := hfront fuel (gap ++ (back ++ more)) (by omega) hends
    have hlater' := hback fuel more (by omega) trivial
    exact (hread ..).mpr ⟨key, _, j, _, hkey _, hj', .inr ⟨back ++ more, later, hskip _, hlater', rfl⟩⟩

/-- What stands between brackets is read from the front of a text if the elements are. -/
theorem enclosedFront {α : Type} {read : Nat → Octets → Except Error (List α × Octets)} {make : List α → Json}
    {first close : UInt8} {empty : Json} (hmark : ∀ more, skipBlanks (first :: more) = first :: more)
    (hnil : ∀ {fuel tail rest}, skipBlanks tail = close :: rest →
      readValue (fuel + 1) (first :: tail) = .ok (empty, rest))
    (hcons : ∀ {fuel tail}, (skipBlanks tail).head? ≠ some close →
      readValue (fuel + 1) (first :: tail) = (read fuel tail).map fun p => (make p.1, p.2))
    (helements : ∀ {s elements rest}, read fuel s = .ok (elements, rest) →
      ReadsFront read 1 (fun _ => True) s elements rest)
    (h : readValue (fuel + 1) (first :: tail) = .ok (j, rest)) : ValueFront (first :: tail) j rest := by
  have hne : ∀ front, skipBlanks (first :: front) ≠ [] := fun front => by
    rw [hmark]
    exact List.cons_ne_nil _ _
  by_cases hempty : (skipBlanks tail).head? = some close
  · obtain ⟨after, hclose⟩ := List.head?_eq_some_iff.mp hempty
    rw [hnil hclose] at h
    obtain ⟨rfl, rfl⟩ := Prod.mk.inj (Except.ok.inj h)
    obtain ⟨gap, -, rfl, hskip⟩ := exists_gap hclose
    refine ⟨first :: gap, hne gap, rfl, fun fuel more hfuel _ => ?_⟩
    rw [List.length_cons] at hfuel
    obtain ⟨fuel, rfl⟩ : ∃ n, fuel = n + 1 := ⟨fuel - 1, by omega⟩
    exact hnil (hskip more)
  · rw [hcons hempty] at h
    obtain ⟨⟨elements, last⟩, hread, h⟩ := Except.exists_of_map_eq_ok h
    obtain ⟨rfl, rfl⟩ := Prod.mk.inj h
    obtain ⟨front, hblank, rfl, hfront⟩ := helements hread
    refine ⟨first :: front, hne front, rfl, fun fuel more hfuel _ => ?_⟩
    rw [List.length_cons] at hfuel
    obtain ⟨fuel, rfl⟩ : ∃ n, fuel = n + 1 := ⟨fuel - 1, by omega⟩
    rw [skipBlanks_head? hblank last more] at hempty
    rw [List.cons_append, hcons hempty, hfront fuel more (by omega) trivial]
    rfl

theorem valueFront_succ (hitems : ∀ {s items rest}, readItems fuel s = .ok (items, rest) → ItemsFront s items rest)
    (hmembers : ∀ {s members rest}, readMembers fuel s = .ok (members, rest) → MembersFront s members rest)
    (h : readValue (fuel + 1) s = .ok (j, rest)) : ValueFront s j rest := by
  rw [← readValue_skipBlanks] at h
  refine .of_skipBlanks readValue_skipBlanks ?_
  cases hs : skipBlanks s with
  | nil =>
    rw [hs] at h
    cases h
  | cons b tail =>
    have hblank : ∀ more, skipBlanks (b :: more) = b :: more := fun more =>
      skipBlanks_of_head? (s := s) (by rw [hs]; rfl)
    rw [hs] at h
    have hread := h
    rw [readValue, hblank] at hread
    dsimp only at hread
    split_ifs at hread with hquote hbracket hbrace hnumber
    · obtain ⟨⟨t, last⟩, hquoted, hread⟩ := Except.exists_of_bind_eq_ok hread
      obtain ⟨rfl, rfl⟩ := Prod.mk.inj (Except.ok.inj hread)
      obtain ⟨front, -, rfl, hfront⟩ := readQuoted_front hquoted
      refine ⟨b :: front, ?_, rfl, fun fuel more hfuel _ => ?_⟩
      · rw [hblank]
        exact List.cons_ne_nil _ _
      · rw [List.length_cons] at hfuel
        obtain ⟨fuel, rfl⟩ : ∃ n, fuel = n + 1 := ⟨fuel - 1, by omega⟩
        rw [List.cons_append, readValue, hblank]
        simp only [if_pos hquote, hfront more]
        rfl
    · subst hbracket
      exact enclosedFront (fun _ => rfl) readValue_list_nil readValue_list hitems h
    · subst hbrace
      exact enclosedFront (fun _ => rfl) readValue_object_nil readValue_object hmembers h
    · obtain ⟨hplain, front, hne, hsplit, hfront⟩ := readNumber_front hread
      obtain ⟨_, front, rfl⟩ := List.exists_cons_of_ne_nil hne
      obtain ⟨rfl, rfl⟩ := List.cons.inj hsplit
      refine ⟨b :: front, ?_, rfl, fun fuel more hfuel hends => ?_⟩
      · rw [hblank]
        exact List.cons_ne_nil _ _
      · rw [List.length_cons] at hfuel
        obtain ⟨fuel, rfl⟩ : ∃ n, fuel = n + 1 := ⟨fuel - 1, by omega⟩
        have hmore := hfront more (hends.resolve_left (by rw [hplain]; exact Bool.false_ne_true))
        rw [List.cons_append] at hmore ⊢
        rw [readValue, hblank]
        simp only [if_neg hquote, if_neg hbracket, if_neg hbrace, if_pos hnumber, hmore]
    · obtain ⟨front, hne, hsplit, hfront⟩ := readWord_front hread
      obtain ⟨_, front, rfl⟩ := List.exists_cons_of_ne_nil hne
      obtain ⟨rfl, rfl⟩ := List.cons.inj hsplit
      refine ⟨b :: front, ?_, rfl, fun fuel more hfuel hends => ?_⟩
      · rw [hblank]
        exact List.cons_ne_nil _ _
      · rw [List.length_cons] at hfuel
        obtain ⟨fuel, rfl⟩ : ∃ n, fuel = n + 1 := ⟨fuel - 1, by omega⟩
        have hmore := hfront more
        rw [List.cons_append] at hmore ⊢
        rw [readValue, hblank]
        simp only [if_neg hquote, if_neg hbracket, if_neg hbrace, if_neg hnumber, hmore]

/-- Each reader keeps to the front of the text that it has read. -/
theorem reads_fronts (fuel : Nat) :
    (∀ {s j rest}, readValue fuel s = .ok (j, rest) → ValueFront s j rest) ∧
    (∀ {s items rest}, readItems fuel s = .ok (items, rest) → ItemsFront s items rest) ∧
    ∀ {s members rest}, readMembers fuel s = .ok (members, rest) → MembersFront s members rest := by
  induction fuel with
  | zero => exact ⟨by simp [readValue], by simp [readItems], by simp [readMembers]⟩
  | succ fuel ih =>
    obtain ⟨hvalue, hitems, hmembers⟩ := ih
    exact ⟨valueFront_succ hitems hmembers,
      elementsFront readItems_elements (fun h => ⟨[], h, fun _ => rfl⟩) hvalue hitems,
      elementsFront readMembers_elements leadsMember_front hvalue hmembers⟩

theorem readValue_byteOrder (fuel : Nat) (s : Octets) : readValue fuel (0xEF :: s) = .error .malformed := by
  cases fuel <;> rfl

theorem skipMark_of_head? (h : s.head? ≠ some 0xEF) : skipMark s = s := by
  refine if_neg fun hmark => ?_
  obtain ⟨tail, rfl⟩ := List.isPrefixOf_iff_prefix.mp hmark
  exact h rfl

/-- An object at the front of a text is the first document of every text that begins with it. -/
theorem readFirst_front (h : readFirst s = .ok (j, rest)) (hobject : j.isObject = true) :
    ∃ front, s = front ++ rest ∧ ∀ more, readFirst (front ++ more) = .ok (j, more) := by
  unfold readFirst at h
  obtain ⟨front, hne, hsplit, hfront⟩ := (reads_fronts _).1 h
  by_cases hmark : [0xEF, 0xBB, 0xBF].isPrefixOf s = true
  · obtain ⟨tail, rfl⟩ := List.isPrefixOf_iff_prefix.mp hmark
    obtain rfl : tail = front ++ rest := hsplit
    refine ⟨[0xEF, 0xBB, 0xBF] ++ front, rfl, fun more => ?_⟩
    exact hfront _ more (by simp; omega) (.inl hobject)
  · rw [skipMark, if_neg hmark] at hsplit h
    subst hsplit
    refine ⟨front, rfl, fun more => ?_⟩
    have hhead : (front ++ more).head? ≠ some 0xEF := by
      rw [head?_append_of_ne_nil (ne_nil_of_skipBlanks hne) more rest]
      intro hmarked
      obtain ⟨tail, htail⟩ := List.head?_eq_some_iff.mp hmarked
      rw [htail, readValue_byteOrder] at h
      cases h
    rw [readFirst, skipMark_of_head? hhead]
    exact hfront _ more (by simp; omega) (.inl hobject)

/-! ### Faults -/

/-- Whatever is wrong, it is the text or a number in it, and not the use made of a document. -/
def FaultsRightly {α : Type} (x : Except Error α) : Prop := ∀ e, x = .error e → e = .malformed ∨ e = .outOfRange

section

variable {α γ : Type}

theorem faultsRightly_pure (a : α) : FaultsRightly (pure a : Except Error α) := fun _ h => nomatch h

theorem faultsRightly_malformed : FaultsRightly (throw .malformed : Except Error α) :=
  fun _ h => .inl (Except.error.inj h).symm

theorem FaultsRightly.bind {x : Except Error α} {f : α → Except Error γ} (hx : FaultsRightly x)
    (hf : ∀ a, FaultsRightly (f a)) : FaultsRightly (x >>= f) := by
  intro e h
  cases x with
  | error e' => exact hx e (congrArg Except.error (Except.error.inj h))
  | ok a => exact hf a e h

theorem faultsRightly_readQuoted (s : Octets) : FaultsRightly (readQuoted s) := by
  unfold readQuoted
  split
  next =>
    split
    · exact faultsRightly_pure _
    · exact faultsRightly_malformed
  next => exact faultsRightly_malformed

theorem faultsRightly_readWord (s : Octets) : FaultsRightly (readWord s) := by
  unfold readWord
  split_ifs
  · exact faultsRightly_pure _
  · exact faultsRightly_pure _
  · exact faultsRightly_pure _
  · exact faultsRightly_malformed

theorem faultsRightly_toReal (n : Numeral) : FaultsRightly n.toReal := by
  unfold Numeral.toReal
  dsimp only
  split_ifs
  · exact faultsRightly_pure _
  · exact fun e h => .inr (Except.error.inj h).symm

theorem faultsRightly_toJson (n : Numeral) : FaultsRightly n.toJson := by
  unfold Numeral.toJson
  dsimp only
  split_ifs
  · exact faultsRightly_toReal n
  · exact faultsRightly_pure _
  · exact faultsRightly_toReal n
  · exact faultsRightly_pure _
  · exact faultsRightly_toReal n

theorem faultsRightly_readNumber (s : Octets) : FaultsRightly (readNumber s) := by
  unfold readNumber
  split
  next n rest _ =>
    change FaultsRightly (n.toJson >>= fun j => pure (j, rest))
    exact (faultsRightly_toJson n).bind fun _ => faultsRightly_pure _
  next => exact faultsRightly_malformed

end

theorem reads_fault_rightly (fuel : Nat) : (∀ s, FaultsRightly (readValue fuel s)) ∧
    (∀ s, FaultsRightly (readItems fuel s)) ∧ ∀ s, FaultsRightly (readMembers fuel s) := by
  induction fuel with
  | zero =>
    refine ⟨fun s => ?_, fun s => ?_, fun s => ?_⟩
    · rw [readValue]
      exact faultsRightly_malformed
    · rw [readItems]
      exact faultsRightly_malformed
    · rw [readMembers]
      exact faultsRightly_malformed
  | succ fuel ih =>
    obtain ⟨hvalue, hitems, hmembers⟩ := ih
    refine ⟨fun s => ?_, fun s => ?_, fun s => ?_⟩
    · rw [readValue]
      split
      next => exact faultsRightly_malformed
      next b tail _ =>
        split_ifs
        · exact (faultsRightly_readQuoted tail).bind fun _ => faultsRightly_pure _
        · split
          next => exact faultsRightly_pure _
          next => exact (hitems _).bind fun _ => faultsRightly_pure _
        · split
          next => exact faultsRightly_pure _
          next => exact (hmembers _).bind fun _ => faultsRightly_pure _
        · exact faultsRightly_readNumber _
        · exact faultsRightly_readWord _
    · rw [readItems]
      refine (hvalue s).bind fun p => ?_
      dsimp only
      split
      next => exact faultsRightly_pure _
      next => exact (hitems _).bind fun _ => faultsRightly_pure _
      next => exact faultsRightly_malformed
    · rw [readMembers]
      split
      next =>
        refine (faultsRightly_readQuoted _).bind fun p => ?_
        dsimp only
        split
        next =>
          refine (hvalue _).bind fun p => ?_
          split
          next => exact faultsRightly_pure _
          next => exact (hmembers _).bind fun _ => faultsRightly_pure _
          next => exact faultsRightly_malformed
        next => exact faultsRightly_malformed
      next => exact faultsRightly_malformed

theorem faultsRightly_readFirst (s : Octets) : FaultsRightly (readFirst s) := (reads_fault_rightly _).1 _

theorem faultsRightly_read (s : Octets) : FaultsRightly (read s) := by
  unfold read
  refine (faultsRightly_readFirst s).bind fun p => ?_
  dsimp only
  split_ifs
  · exact faultsRightly_pure p.1
  · exact faultsRightly_malformed

theorem read_eq_ok_iff {text : Octets} :
    read text = .ok j ↔ ∃ rest, readFirst text = .ok (j, rest) ∧ atEnd rest = true := by
  constructor
  · intro h
    obtain ⟨⟨j', rest⟩, hfirst, h⟩ := Except.exists_of_bind_eq_ok h
    dsimp only at h
    split_ifs at h with hend
    · obtain rfl := Except.ok.inj h
      exact ⟨rest, hfirst, hend⟩
  · rintro ⟨rest, hfirst, hend⟩
    rw [read, hfirst]
    exact if_pos hend

theorem atEnd_append_zero {rest : Octets} (h : atEnd rest = true) (more : Octets) :
    atEnd (rest ++ 0 :: more) = true := by
  cases hrest : skipBlanks rest with
  | nil =>
    rw [skipBlanks_eq, List.dropWhile_eq_nil_iff] at hrest
    have hzero : skipBlanks (rest ++ 0 :: more) = 0 :: more := by
      rw [skipBlanks_eq, List.dropWhile_append_of_pos hrest]
      rfl
    rw [atEnd, hzero]
    rfl
  | cons b tail =>
    have hne : skipBlanks rest ≠ [] := by simp [hrest]
    rw [atEnd, hrest] at h
    rw [atEnd, skipBlanks_append hne, hrest]
    exact h

/-- Whatever comes behind a 0 octet counts for nothing once an object has been read. -/
theorem read_append_zero {text : Octets} (h : read text = .ok j) (hobject : j.isObject = true) (more : Octets) :
    read (text ++ 0 :: more) = .ok j := by
  obtain ⟨rest, hfirst, hend⟩ := read_eq_ok_iff.mp h
  obtain ⟨front, rfl, hfront⟩ := readFirst_front hfirst hobject
  refine read_eq_ok_iff.mpr ⟨rest ++ 0 :: more, ?_, atEnd_append_zero hend more⟩
  rw [List.append_assoc]
  exact hfront _

end Json

end QuoteFeed
