import QuoteFeed.Backoff
import QuoteFeed.Settings
import Mathlib.Algebra.Order.Ring.Int
import Mathlib.Tactic.Ring

/-!
The delays between attempts, against what they are meant to be: the base, doubled for each attempt
since the last reset, up to the greatest delay. The doubling is done in 64 bits and stops only when the
greatest delay has been reached, so that it goes beyond 64 bits if the greatest delay is near their end.
-/

namespace QuoteFeed

theorem wrapInt64_of_overflow {i : Int} (hlow : 2 ^ 63 ≤ i) (hhigh : i < 2 ^ 64) : wrapInt64 i = i - 2 ^ 64 := by
  rw [wrapInt64, Int.bmod_def]
  split <;> omega

/-- What is checked before there is a result holds when there is one. -/
theorem Except.checked_eq_ok_iff {ε α : Type} {p : Prop} [Decidable p] {e : ε} {x : Except ε α} {a : α} :
    (if p then (throw e : Except ε PUnit) >>= fun _ => x else x) = .ok a ↔ ¬p ∧ x = .ok a := by
  by_cases hp : p
  · rw [if_pos hp]
    exact iff_of_false (by rintro ⟨⟩) fun h => h.1 hp
  · rw [if_neg hp]
    exact ⟨fun h => ⟨hp, h⟩, And.right⟩

namespace Settings

variable {s : Settings} {endpoint : Endpoint}

/-- What makes settings usable: times and a limit that fit, and an address that can be read. -/
theorem endpoint_eq_ok_iff : s.endpoint = .ok endpoint ↔
    0 < s.reconnectBase ∧ s.reconnectBase ≤ s.reconnectMax ∧ 0 < s.heartbeatInterval ∧ 0 < s.staleLimit ∧
      ¬s.moveLimit.less (.zero false) = true ∧ Endpoint.parse s.url = .ok endpoint := by
  unfold Settings.endpoint
  cases Endpoint.parse s.url with
  | error e => simp [Except.mapError, bind, Except.bind]
  | ok parsed =>
    show (do
      if s.reconnectBase ≤ 0 then throw Error.basePositive
      if s.reconnectMax < s.reconnectBase then throw Error.maxBelowBase
      if s.heartbeatInterval ≤ 0 then throw Error.heartbeatPositive
      if s.staleLimit ≤ 0 then throw Error.stalePositive
      if s.moveLimit.less (.zero false) then throw Error.moveNegative
      pure parsed : Except Error Endpoint) = .ok endpoint ↔ _
    simp only [Except.checked_eq_ok_iff, not_le, not_lt, pure, Except.pure, Except.ok.injEq]

/-- Settings that can be used have a positive base, which the greatest delay is not below. -/
theorem delays_of_validate (h : s.validate = .ok ()) : 0 < s.reconnectBase ∧ s.reconnectBase ≤ s.reconnectMax := by
  cases hendpoint : s.endpoint with
  | error e =>
    rw [validate, hendpoint] at h
    cases h
  | ok endpoint =>
    obtain ⟨hbase, hmax, -⟩ := endpoint_eq_ok_iff.mp hendpoint
    exact ⟨hbase, hmax⟩

end Settings

/-- What is done with the delays. -/
inductive BackoffOp where
  | next
  | peek
  | reset
deriving DecidableEq

namespace Backoff

/-- The delays that settings ask for. -/
def ofSettings (s : Settings) : Backoff := { base := s.reconnectBase, max := s.reconnectMax }

/-- Does something with the delays: the delay it tells, and what it leaves. -/
def perform (b : Backoff) : BackoffOp → Option Int × Backoff
  | .next => (some b.next.1, b.next.2)
  | .peek => (some b.peek, b)
  | .reset => (none, b.reset)

/-- What is left when some things have been done, the last one first. -/
def after (b : Backoff) (history : List BackoffOp) : Backoff := history.foldr (fun op b => (b.perform op).2) b

/-- The delays that have been taken since the last reset. -/
def taken (history : List BackoffOp) : Nat := (history.takeWhile fun op => op ≠ .reset).count .next

@[simp] theorem taken_next {history : List BackoffOp} : taken (.next :: history) = taken history + 1 := by simp [taken]

@[simp] theorem taken_peek {history : List BackoffOp} : taken (.peek :: history) = taken history := by simp [taken]

@[simp] theorem taken_reset {history : List BackoffOp} : taken (.reset :: history) = 0 := by simp [taken]

theorem after_eq {b : Backoff} (hb : b.attempts = 0) (history : List BackoffOp) :
    b.after history = { b with attempts := taken history } := by
  induction history with
  | nil =>
    obtain ⟨base, max, attempts⟩ := b
    cases hb
    rfl
  | cons op history ih =>
    have hstep : b.after (op :: history) = ((b.after history).perform op).2 := rfl
    rw [hstep, ih]
    cases op with
    | next => simp [perform, Backoff.next, advance]
    | peek => simp [perform]
    | reset => simp [perform, Backoff.reset]

theorem taken_le_append {later : List BackoffOp} (hlater : .reset ∉ later) (history : List BackoffOp) :
    taken history ≤ taken (later ++ history) := by
  have hall : ∀ op ∈ later, decide (op ≠ .reset) = true := fun op hop => by
    simpa using fun h : op = .reset => hlater (h ▸ hop)
  unfold taken
  rw [List.takeWhile_append_of_pos hall, List.count_append]
  exact Nat.le_add_left _ _

variable {max delay : Int} {n : Nat}

/-- What the loop does in its last round. -/
theorem grow_succ (n : Nat) (delay : Int) :
    grow max (n + 1) delay =
      if grow max n delay < max then wrapInt64 (2 * grow max n delay) else grow max n delay := by
  induction n generalizing delay with
  | zero => rfl
  | succ n ih =>
    rw [grow]
    split
    next hlt => rw [ih, grow, if_pos hlt]
    next hge => simp [grow, hge]

/-- No doubling that the present delay takes leaves the 64 bits. -/
def Fits (b : Backoff) : Prop :=
  ∀ k < b.attempts, grow b.max k b.base < b.max → inInt64 (2 * grow b.max k b.base) = true

/-- As long as what is doubled is below `2 ^ 62`, the loop doubles or has passed the greatest delay. -/
theorem grow_of_fits (hpos : 0 < delay) (hfits : ∀ k < n, delay * 2 ^ k < max → delay * 2 ^ k < 2 ^ 62) :
    grow max n delay = delay * 2 ^ n ∨ max ≤ grow max n delay ∧ max ≤ delay * 2 ^ n := by
  induction n with
  | zero => exact .inl (by simp [grow])
  | succ n ih =>
    have hdouble : delay * 2 ^ (n + 1) = 2 * (delay * 2 ^ n) := by ring
    have hgrown : 0 < delay * 2 ^ n := Int.mul_pos hpos (pow_pos (by decide) n)
    rw [grow_succ, hdouble]
    obtain hn | ⟨hn, hpassed⟩ := ih fun k hk => hfits k (Nat.lt_succ_of_lt hk)
    · rw [hn]
      split
      next hlt =>
        have hbelow : delay * 2 ^ n < 2 ^ 62 := hfits n (Nat.lt_succ_self n) hlt
        refine .inl (wrapInt64_of_inInt64 ?_)
        rw [inInt64, Bool.and_eq_true, decide_eq_true_eq, decide_eq_true_eq]
        simp only [int64Min, int64Max]
        omega
      next hge => exact .inr ⟨not_lt.mp hge, by omega⟩
    · rw [if_neg (not_lt.mpr hn)]
      exact .inr ⟨hn, by omega⟩

theorem min_grow_of_fits (hpos : 0 < delay) (hfits : ∀ k < n, delay * 2 ^ k < max → delay * 2 ^ k < 2 ^ 62) :
    min (grow max n delay) max = min (delay * 2 ^ n) max := by
  obtain hn | ⟨hn, hpassed⟩ := grow_of_fits hpos hfits
  · rw [hn]
  · rw [min_eq_right hn, min_eq_right hpassed]

/-- A doubling that leaves the 64 bits leaves a negative delay. -/
theorem grow_of_overflow (hpos : 0 < delay) (hmax : max ≤ int64Max) {k : Nat} (hlow : 2 ^ 62 ≤ delay * 2 ^ k)
    (hlt : delay * 2 ^ k < max) : grow max (k + 1) delay = 2 * (delay * 2 ^ k) - 2 ^ 64 := by
  simp only [int64Max] at hmax
  -- what was doubled before is at most half of what is doubled now
  have hbefore : ∀ j < k, delay * 2 ^ j < max → delay * 2 ^ j < 2 ^ 62 := by
    intro j hj _
    have hhalf : delay * 2 ^ (j + 1) ≤ delay * 2 ^ k :=
      Int.mul_le_mul_of_nonneg_left (pow_le_pow_right₀ (by decide) hj) hpos.le
    have hdouble : delay * 2 ^ (j + 1) = 2 * (delay * 2 ^ j) := by ring
    omega
  have hk : grow max k delay = delay * 2 ^ k := by
    obtain hk | ⟨-, hpassed⟩ := grow_of_fits hpos hbefore
    · exact hk
    · exact absurd hlt (not_lt.mpr hpassed)
  rw [grow_succ, hk, if_pos hlt]
  exact wrapInt64_of_overflow (by omega) (by omega)

/-- The delays are the base, doubled for each delay taken since the last reset, up to the greatest one, and
what is doubled stays within 64 bits. -/
structure Exact (b : Backoff) (history : List BackoffOp) : Prop where
  told : ∀ op, op ≠ .reset →
    ((b.after history).perform op).1 = some (min (b.base * 2 ^ taken history) b.max)
  fits : (b.after history).Fits
  peeked : ((b.after history).perform .peek).2 = b.after history
  bounds : b.base ≤ (b.after history).peek ∧ (b.after history).peek ≤ b.max
  grows : ∀ later, .reset ∉ later → taken (later ++ history) < 2 ^ 32 →
    (b.after history).peek ≤ (b.after (later ++ history)).peek

variable {b : Backoff} {history : List BackoffOp}

theorem peek_of_fits (hpos : 0 < b.base) (hb : b.attempts = 0)
    (hfits : ∀ k, b.base * 2 ^ k < b.max → b.base * 2 ^ k < 2 ^ 62) (history : List BackoffOp) :
    (b.after history).peek = min (b.base * 2 ^ taken history) b.max := by
  rw [after_eq hb]
  exact min_grow_of_fits hpos fun k _ => hfits k

theorem exact_of_fits (hpos : 0 < b.base) (hle : b.base ≤ b.max) (hb : b.attempts = 0)
    (hfits : ∀ k, b.base * 2 ^ k < b.max → b.base * 2 ^ k < 2 ^ 62) : b.Exact history := by
  have hpeek := peek_of_fits hpos hb hfits
  constructor
  case told =>
    intro op hop
    rw [← hpeek history]
    cases op with
    | next | peek => rfl
    | reset => exact absurd rfl hop
  case fits =>
    rw [after_eq hb]
    intro k _ (hlt : grow b.max k b.base < b.max)
    obtain hk | ⟨hk, -⟩ := grow_of_fits hpos fun j (_ : j < k) => hfits j
    · have hbelow : b.base * 2 ^ k < 2 ^ 62 := hfits k (hk ▸ hlt)
      have hgrown : 0 < b.base * 2 ^ k := Int.mul_pos hpos (pow_pos (by decide) k)
      change inInt64 (2 * grow b.max k b.base) = true
      rw [hk, inInt64, Bool.and_eq_true, decide_eq_true_eq, decide_eq_true_eq]
      simp only [int64Min, int64Max]
      omega
    · exact absurd hlt (not_lt.mpr hk)
  case peeked => rfl
  case bounds =>
    have hgrown : b.base ≤ b.base * 2 ^ taken history := le_mul_of_one_le_right hpos.le (one_le_pow₀ (by decide))
    rw [hpeek]
    exact ⟨le_min hgrown hle, min_le_right _ _⟩
  case grows =>
    intro later hlater _
    rw [hpeek, hpeek]
    have hpow : (2 : Int) ^ taken history ≤ 2 ^ taken (later ++ history) :=
      pow_le_pow_right₀ (by decide) (taken_le_append hlater history)
    exact min_le_min_right _ (Int.mul_le_mul_of_nonneg_left hpow hpos.le)

theorem taken_replicate (n : Nat) : taken (List.replicate n .next) = n := by
  induction n with
  | zero => rfl
  | succ n ih => rw [List.replicate_succ, taken_next, ih]

/-- The delay after a doubling that has left the 64 bits is negative. -/
theorem peek_of_overflow (hpos : 0 < b.base) (hmax : b.max ≤ int64Max) (hb : b.attempts = 0) {k : Nat}
    (hlow : 2 ^ 62 ≤ b.base * 2 ^ k) (hlt : b.base * 2 ^ k < b.max) (hk : taken history = k + 1) :
    (b.after history).peek < 0 := by
  have hgrow := grow_of_overflow hpos hmax hlow hlt
  rw [after_eq hb, hk]
  simp only [int64Max] at hmax
  unfold peek
  simp only [hgrow]
  omega

/-- With settings that can be used, whatever is done with the delays, as long as fewer than `2 ^ 32` are
taken between two resets: all delays are exact just in case no delay from `2 ^ 62` on is ever doubled. The
delay that comes of such a doubling is negative. -/
theorem delays_exact_iff {s : Settings} (hvalid : s.validate = .ok ()) (hmax : inInt64 s.reconnectMax = true) :
    ((∀ history, taken history < 2 ^ 32 → (ofSettings s).Exact history) ↔
      ∀ k, s.reconnectBase * 2 ^ k < s.reconnectMax → s.reconnectBase * 2 ^ k < 2 ^ 62) ∧
    ∀ k, 2 ^ 62 ≤ s.reconnectBase * 2 ^ k → s.reconnectBase * 2 ^ k < s.reconnectMax →
      ∀ history, taken history = k + 1 → ((ofSettings s).after history).peek < 0 := by
  obtain ⟨hpos, hle⟩ := Settings.delays_of_validate hvalid
  rw [inInt64, Bool.and_eq_true, decide_eq_true_eq, decide_eq_true_eq] at hmax
  refine ⟨⟨fun hexact k hlt => ?_, fun hfits history _ => exact_of_fits hpos hle rfl hfits⟩,
    fun k hlow hlt history hk => peek_of_overflow hpos hmax.2 rfl hlow hlt hk⟩
  by_contra hlow
  have hsmall : k + 1 < 2 ^ 32 := by
    have hpow : (2 : Int) ^ k < 2 ^ 63 := by
      have hone : (2 : Int) ^ k ≤ s.reconnectBase * 2 ^ k := le_mul_of_one_le_left (pow_pos (by decide) k).le hpos
      have hhigh := hmax.2
      simp only [int64Max] at hhigh
      omega
    have hk : k < 63 := (pow_lt_pow_iff_right₀ (by decide)).mp hpow
    omega
  have hnegative := peek_of_overflow (b := ofSettings s) hpos hmax.2 rfl (not_lt.mp hlow) hlt (taken_replicate (k + 1))
  have hbase := (hexact _ ((taken_replicate (k + 1)).trans_lt hsmall)).bounds.1
  exact absurd (hpos.trans_le hbase) (not_lt.mpr hnegative.le)

/-- The greatest delay is the last one of 64 bits, and the base is more than a quarter of it. -/
def farSettings : Settings := { reconnectBase := 4611686018427387904, reconnectMax := 9223372036854775807 }

theorem ordinary_delays_exact : Settings.validate {} = .ok () ∧ inInt64 (Settings.reconnectMax {}) = true ∧
    ∀ history, taken history < 2 ^ 32 → (ofSettings {}).Exact history := by
  have hvalid : Settings.validate {} = .ok () := by decide +kernel
  have hmax : inInt64 (Settings.reconnectMax {}) = true := by decide
  refine ⟨hvalid, hmax, (delays_exact_iff hvalid hmax).1.mpr fun k hlt => hlt.trans (by decide)⟩

theorem far_delays_not_exact : ¬∀ s : Settings, s.validate = .ok () → inInt64 s.reconnectMax = true →
    ∀ history, taken history < 2 ^ 32 → (ofSettings s).Exact history := by
  intro hclaim
  have hexact := hclaim farSettings (by decide +kernel) (by decide) [.next] (by decide)
  have htold := hexact.told .next nofun
  exact absurd htold (by decide +kernel)

end Backoff

end QuoteFeed
