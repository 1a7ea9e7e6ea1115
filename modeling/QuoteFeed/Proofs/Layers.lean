import QuoteFeed.Settings
import Mathlib.Data.List.Forall2
import Mathlib.Data.List.Nodup

/-!
Settings under a document: what each field is after the layer, and what a fault leaves. The fields are looked
through one after the other, so that whatever holds of a layer comes by induction from what one field does.
-/

namespace QuoteFeed

namespace Settings

/-- The faults of taking settings from a document. The others are those of the document itself, of the environment
and of settings that cannot be used. -/
def Error.IsRuntime : Error → Prop
  | notObject | notMillis _ | badValue _ | malformedText _ | noFile _ | malformedFile _ _ => True
  | _ => False

/-- What a field can be. -/
inductive Value where
  | text (s : Octets)
  | integer (i : Int)
  | number (x : Binary64)
  | texts (list : List Octets)
deriving DecidableEq

namespace Field

/-- What a field is in settings. -/
def value (f : Field) (s : Settings) : Value :=
  match f with
  | url => .text s.url
  | reconnectBase => .integer s.reconnectBase
  | reconnectMax => .integer s.reconnectMax
  | heartbeatInterval => .integer s.heartbeatInterval
  | staleLimit => .integer s.staleLimit
  | moveLimit => .number s.moveLimit
  | maxAttempts => .integer s.maxAttempts.toNat
  | markets => .texts s.markets

/-- What a field takes the value in a document for. -/
def read (f : Field) (v : Json) : Except Error Value :=
  match f with
  | url => (v.getText.mapError .badValue).map .text
  | moveLimit => (v.getNumber.mapError .badValue).map .number
  | maxAttempts => (v.getCount.mapError .badValue).map fun n => .integer n.toNat
  | markets => (v.getTexts.mapError .badValue).map .texts
  | reconnectBase | reconnectMax | heartbeatInterval | staleLimit => (millis f.key v).map .integer

/-- What a layer makes of a field: the value in the document, or what it was if the document does not mention it. -/
def After (f : Field) (j : Json) (s t : Settings) : Prop :=
  match j.member? f.key with
  | some v => f.read v = .ok (f.value t)
  | none => f.value t = f.value s

/-- What a document says of a field, if it mentions it: a value or a fault. -/
def inDocument (f : Field) (j : Json) : Option (Except Error Value) := (j.member? f.key).map f.read

/-- A field is what is said of it, or what it was if nothing is said. -/
def Follows (f : Field) (said : Option (Except Error Value)) (s t : Settings) : Prop :=
  said.getD (.ok (f.value s)) = .ok (f.value t)

/-- A step that sets a field to what is said of it, or fails by it. -/
structure Sets (f : Field) (said : Option (Except Error Value)) (step : Settings → Except Error Settings) : Prop where
  ok : ∀ s t, step s = .ok t → f.Follows said s t ∧ ∀ g, g ≠ f → g.value t = g.value s
  error : ∀ s e, step s = .error e → said = some (.error e)

/-- The steps of a layer set one field each. -/
abbrev SetInTurn (said : Field → Option (Except Error Value)) (fields : List Field)
    (layer : List (Settings → Except Error Settings)) : Prop :=
  List.Forall₂ (fun f step => f.Sets (said f) step) fields layer

end Field

theorem eq_of_values {s t : Settings} (h : ∀ f : Field, f.value s = f.value t) : s = t := by
  have hurl := h .url
  have hbase := h .reconnectBase
  have hmax := h .reconnectMax
  have hheartbeat := h .heartbeatInterval
  have hstale := h .staleLimit
  have hmove := h .moveLimit
  have hattempts := h .maxAttempts
  have hmarkets := h .markets
  simp only [Field.value, Value.text.injEq, Value.integer.injEq, Value.number.injEq, Value.texts.injEq, Int.natCast_inj,
    UInt32.toNat_inj] at hurl hbase hmax hheartbeat hstale hmove hattempts hmarkets
  cases s
  cases t
  congr

namespace Field

variable {α : Type} {f g : Field} {fields : List Field} {j v : Json} {s s' t t' : Settings} {e : Error} {x : Value}

theorem ok_of_updated {r : Except Error α} {update : α → Settings} (h : (do pure (update (← r))) = Except.ok t) :
    ∃ a, r = .ok a ∧ update a = t := by
  cases r with
  | error e => cases h
  | ok a => exact ⟨a, rfl, Except.ok.inj h⟩

theorem error_of_updated {r : Except Error α} {update : α → Settings}
    (h : (do pure (update (← r))) = Except.error e) : r = .error e := by
  cases r with
  | error e' =>
    cases h
    rfl
  | ok a => cases h

/-- A field that is set holds what the value was taken for, and the other fields are as they were. -/
theorem set_ok (h : f.set v s = .ok t) : f.read v = .ok (f.value t) ∧ ∀ g, g ≠ f → g.value t = g.value s := by
  cases f
  all_goals
    obtain ⟨a, ha, rfl⟩ := ok_of_updated h
    refine ⟨?_, fun g hg => ?_⟩
    · rw [read, ha]
      rfl
    · cases g <;> first | rfl | exact absurd rfl hg

theorem set_error (h : f.set v s = .error e) : f.read v = .error e := by
  cases f
  all_goals
    have he := error_of_updated h
    rw [read, he]
    rfl

theorem isRuntime_of_badValue {r : Except Json.Error α} {make : α → Value}
    (h : (r.mapError Error.badValue).map make = .error e) : e.IsRuntime := by
  cases r with
  | error e' =>
    cases h
    exact trivial
  | ok a => cases h

theorem isRuntime_of_millis {key : Octets} (h : (millis key v).map Value.integer = .error e) : e.IsRuntime := by
  unfold millis at h
  split at h
  next => cases h
  next =>
    cases h
    exact trivial

theorem isRuntime_of_read (h : f.read v = .error e) : e.IsRuntime := by
  cases f
  case url | moveLimit | maxAttempts | markets => exact isRuntime_of_badValue h
  case reconnectBase | reconnectMax | heartbeatInterval | staleLimit => exact isRuntime_of_millis h

theorem after_iff_follows : f.After j s t ↔ f.Follows (f.inDocument j) s t := by
  unfold After Follows inDocument
  cases j.member? f.key with
  | some v => exact Iff.rfl
  | none => exact ⟨fun h => congrArg Except.ok h.symm, fun h => (Except.ok.inj h).symm⟩

theorem Follows.of_eq {said : Option (Except Error Value)} (h : f.Follows said s t) (hs : f.value s = f.value s')
    (ht : f.value t = f.value t') : f.Follows said s' t' := by
  unfold Follows at h ⊢
  rw [← hs, ← ht]
  exact h

theorem Follows.not_error {said : Option (Except Error Value)} (h : f.Follows said s t) : said ≠ some (.error e) := by
  rintro rfl
  cases h

/-- What is said of a field, together with what it was, tells what it is. -/
theorem Follows.unique {said : Option (Except Error Value)} (h : f.Follows said s t) (h' : f.Follows said s t') :
    f.value t = f.value t' := Except.ok.inj (h.symm.trans h')

/-- A field that is what is said of it stays so when the same is said again. -/
theorem Follows.again {said : Option (Except Error Value)} (h : f.Follows said s t) : f.Follows said t t := by
  cases said with
  | some x => exact h
  | none => rfl

theorem sets_take (f : Field) (j : Json) : f.Sets (f.inDocument j) (f.take j) := by
  unfold inDocument
  constructor
  · intro s t h
    unfold take at h
    cases hmember : j.member? f.key with
    | some v =>
      rw [hmember] at h
      exact set_ok h
    | none =>
      rw [hmember] at h
      obtain rfl := Except.ok.inj h
      exact ⟨rfl, fun g _ => rfl⟩
  · intro s e h
    unfold take at h
    cases hmember : j.member? f.key with
    | some v =>
      rw [hmember] at h
      exact congrArg some (set_error h)
    | none =>
      rw [hmember] at h
      cases h

theorem setInTurn_take (j : Json) (fields : List Field) :
    SetInTurn (fun f => f.inDocument j) fields (fields.map fun f => f.take j) :=
  List.forall₂_map_right_iff.mpr (List.forall₂_same.mpr fun f _ => f.sets_take j)

section

variable {said : Field → Option (Except Error Value)} {layer : List (Settings → Except Error Settings)}

/-- Fields that are looked through without a fault are what is said of them. -/
theorem steps_ok (hsets : SetInTurn said fields layer) (hnodup : fields.Nodup) (h : steps layer s = (t, none)) :
    (∀ f ∈ fields, f.Follows (said f) s t) ∧ ∀ f, f ∉ fields → f.value t = f.value s := by
  induction hsets generalizing s with
  | nil =>
    obtain ⟨rfl, -⟩ := Prod.mk.inj h
    exact ⟨fun f hf => absurd hf List.not_mem_nil, fun f _ => rfl⟩
  | @cons f step rest layer hstep hrests ih =>
    obtain ⟨hf, hrest⟩ := List.nodup_cons.mp hnodup
    rw [steps] at h
    cases htake : step s with
    | error e =>
      rw [htake] at h
      cases h
    | ok u =>
      rw [htake] at h
      obtain ⟨hafter, hother⟩ := hstep.ok s u htake
      obtain ⟨hlater, hsame⟩ := ih hrest h
      constructor
      · intro g hg
        rcases List.mem_cons.mp hg with rfl | hin
        · exact hafter.of_eq rfl (hsame g hf).symm
        · have hne : g ≠ f := fun heq => hf (heq ▸ hin)
          exact (hlater g hin).of_eq (hother g hne) rfl
      · intro g hg
        have hout : g ∉ rest := List.not_mem_of_not_mem_cons hg
        exact (hsame g hout).trans (hother g (List.ne_of_not_mem_cons hg))

/-- The first fault ends the layer: the fields in front of it are what is said of them, and the fields from there on
are as they were. -/
theorem steps_error (hsets : SetInTurn said fields layer) (hnodup : fields.Nodup) (h : steps layer s = (t, some e)) :
    ∃ before f after, fields = before ++ f :: after ∧ said f = some (.error e) ∧
      (∀ g ∈ before, g.Follows (said g) s t) ∧ ∀ g, g ∉ before → g.value t = g.value s := by
  induction hsets generalizing s with
  | nil => cases h
  | @cons f step rest layer hstep hrests ih =>
    obtain ⟨hf, hrest⟩ := List.nodup_cons.mp hnodup
    rw [steps] at h
    cases htake : step s with
    | error e' =>
      rw [htake] at h
      cases h
      exact ⟨[], f, rest, rfl, hstep.error _ _ htake, fun g hg => absurd hg List.not_mem_nil, fun g _ => rfl⟩
    | ok u =>
      rw [htake] at h
      obtain ⟨hafter, hother⟩ := hstep.ok s u htake
      obtain ⟨before, g, after, rfl, hread, hbefore, hsame⟩ := ih hrest h
      have hout : f ∉ before := fun hin => hf (List.mem_append_left _ hin)
      refine ⟨f :: before, g, after, rfl, hread, ?_, ?_⟩
      · intro k hk
        rcases List.mem_cons.mp hk with rfl | hin
        · exact hafter.of_eq rfl (hsame k hout).symm
        · have hne : k ≠ f := fun heq => hout (heq ▸ hin)
          exact (hbefore k hin).of_eq (hother k hne) rfl
      · intro k hk
        have hnot : k ∉ before := List.not_mem_of_not_mem_cons hk
        exact (hsame k hnot).trans (hother k (List.ne_of_not_mem_cons hk))

theorem steps_frame {fault : Option Error} (hsets : SetInTurn said fields layer) (hnodup : fields.Nodup)
    (h : steps layer s = (t, fault)) (hf : f ∉ fields) : f.value t = f.value s := by
  cases fault with
  | none => exact (steps_ok hsets hnodup h).2 f hf
  | some e =>
    obtain ⟨before, g, after, rfl, -, -, hsame⟩ := steps_error hsets hnodup h
    exact hsame f fun hin => hf (List.mem_append_left _ hin)

theorem Sets.again {said : Option (Except Error Value)} {step : Settings → Except Error Settings}
    (hstep : f.Sets said step) (h : step s = .ok t) (hvalue : f.value t = f.value t') : step t' = .ok t' := by
  have hfollows := ((hstep.ok s t h).1.of_eq rfl hvalue).again
  cases htake : step t' with
  | error e => exact absurd (hstep.error t' e htake) hfollows.not_error
  | ok u =>
    obtain ⟨hown, hother⟩ := hstep.ok t' u htake
    have hsame : u = t' := by
      apply eq_of_values
      intro g
      by_cases hg : g = f
      · subst hg
        exact hown.unique hfollows
      · exact hother g hg
    rw [hsame]

/-- Whatever a layer comes to, it comes to the same once more: what is set already is set to the same values again, up
to the same fault. -/
theorem steps_again {fault : Option Error} (hsets : SetInTurn said fields layer) (hnodup : fields.Nodup)
    (h : steps layer s = (t, fault)) : steps layer t = (t, fault) := by
  induction hsets generalizing s with
  | nil =>
    obtain ⟨rfl, rfl⟩ := Prod.mk.inj h
    rfl
  | @cons f step rest layer hstep hrests ih =>
    obtain ⟨hf, hrest⟩ := List.nodup_cons.mp hnodup
    rw [steps] at h
    cases htake : step s with
    | error e =>
      rw [htake] at h
      obtain ⟨rfl, rfl⟩ := Prod.mk.inj h
      rw [steps, htake]
    | ok u =>
      rw [htake] at h
      have hvalue : f.value u = f.value t := (steps_frame hrests hrest h hf).symm
      rw [steps, hstep.again htake hvalue]
      exact ih hrest h

end

theorem mem_all (f : Field) : f ∈ all := by cases f <;> decide

theorem nodup_all : all.Nodup := by decide

end Field

variable {j : Json} {s t : Settings} {e : Error}

theorem overlay_eq (hobject : j.isObject = true) : overlay j s = steps (Field.all.map fun f => f.take j) s :=
  if_pos hobject

theorem overlay_error (hobject : j.isObject = true) (h : overlay j s = (t, some e)) :
    ∃ before f after, Field.all = before ++ f :: after ∧ f.inDocument j = some (.error e) ∧
      (∀ g ∈ before, g.Follows (g.inDocument j) s t) ∧ ∀ g, g ∉ before → g.value t = g.value s := by
  rw [overlay_eq hobject] at h
  exact Field.steps_error (Field.setInTurn_take j Field.all) Field.nodup_all h

theorem overlay_fault (h : overlay j s = (t, some e)) :
    e = .notObject ∨ ∃ f v, j.member? (Field.key f) = some v ∧ f.read v = .error e := by
  by_cases hobject : j.isObject = true
  · obtain ⟨-, f, -, -, hsaid, -⟩ := overlay_error hobject h
    obtain ⟨v, hmember, hread⟩ := Option.map_eq_some_iff.mp hsaid
    exact .inr ⟨f, v, hmember, hread⟩
  · rw [overlay, if_neg hobject] at h
    cases h
    exact .inl rfl

/-- What the layer of a document comes to when it is accepted, field by field. -/
theorem overlay_ok_iff : overlay j s = (t, none) ↔ j.isObject = true ∧ ∀ f : Field, f.After j s t := by
  constructor
  · intro h
    by_cases hobject : j.isObject = true
    · rw [overlay_eq hobject] at h
      have hafter := (Field.steps_ok (Field.setInTurn_take j Field.all) Field.nodup_all h).1
      exact ⟨hobject, fun f => Field.after_iff_follows.mpr (hafter f f.mem_all)⟩
    · rw [overlay, if_neg hobject] at h
      cases h
  · rintro ⟨hobject, hafter⟩
    obtain ⟨u, fault, h⟩ : ∃ u fault, overlay j s = (u, fault) := ⟨_, _, rfl⟩
    cases fault with
    | none =>
      rw [h]
      rw [overlay_eq hobject] at h
      have hsame : u = t := by
        apply eq_of_values
        intro f
        have hu := (Field.steps_ok (Field.setInTurn_take j Field.all) Field.nodup_all h).1 f f.mem_all
        exact hu.unique (Field.after_iff_follows.mp (hafter f))
      rw [hsame]
    | some e =>
      obtain ⟨-, f, -, -, hsaid, -⟩ := overlay_error hobject h
      exact absurd hsaid (Field.after_iff_follows.mp (hafter f)).not_error

/-! ### What a layer comes to -/

/-- The settings, or the fault that ended the layer. -/
def Outcome.result : Outcome → Except Error Settings
  | (t, none) => .ok t
  | (_, some e) => .error e

theorem Outcome.result_eq_ok {o : Outcome} (h : o.result = .ok t) : o = (t, none) := by
  obtain ⟨u, _ | e⟩ := o
  · rw [Except.ok.inj h]
  · cases h

theorem Outcome.result_eq_error {o : Outcome} (h : o.result = .error e) : ∃ t, o = (t, some e) := by
  obtain ⟨u, _ | e'⟩ := o
  · cases h
  · exact ⟨u, by rw [Except.error.inj h]⟩

theorem after_of_overlay (h : (overlay j s).result = .ok t) (f : Field) : f.After j s t :=
  (overlay_ok_iff.mp (Outcome.result_eq_ok h)).2 f

theorem isRuntime_of_overlay (h : (overlay j s).result = .error e) : e.IsRuntime := by
  obtain ⟨t, ho⟩ := Outcome.result_eq_error h
  rcases overlay_fault ho with rfl | ⟨f, v, -, hread⟩
  · exact trivial
  · exact Field.isRuntime_of_read hread

theorem applyText_of_read {text : Octets} (h : Json.read text = .ok j) : applyText text s = overlay j s := by
  rw [applyText, h]

theorem ofFile_of_readFirst {path text rest : Octets} (h : Json.readFirst text = .ok (j, rest)) :
    ofFile path (some text) = (overlay j {}).result := by
  rw [ofFile, h]
  obtain ⟨t, fault, ho⟩ : ∃ t fault, overlay j {} = (t, fault) := ⟨_, _, rfl⟩
  simp only [ho]
  cases fault <;> rfl

end Settings

end QuoteFeed
