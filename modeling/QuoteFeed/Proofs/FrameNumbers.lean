import QuoteFeed.Message
import QuoteFeed.Proofs.DecimalNotation

/-!
The numbers of frames. A number may come as an integer, in floating point or in decimal notation; it is read as the
nearest floating-point number, and if there is no finite one, it is no number.
-/

namespace QuoteFeed

namespace Json

open Binary64 (RoundsTo)

/-- A document stands for a finite number. -/
inductive Denotes : Json → Binary64 → Prop where
  | unsigned {n : UInt64} {x : Binary64} : RoundsTo false n.toNat x → Denotes (.unsigned n) x
  | signed {i : Int64} {x : Binary64} : RoundsTo (i.toInt < 0) i.toInt.natAbs x → Denotes (.signed i) x
  | real {x : Binary64} : x.isFinite = true → Denotes (.real x) x
  | text {p : DecimalForm} {x : Binary64} : RoundsTo p.sign.negative p.magnitude x → x.isFinite = true →
      Denotes (.text p.text) x

end Json

namespace Binary64

theorem RoundsTo.isFinite_of_small {negative : Bool} {n : Nat} {x : Binary64} (h : RoundsTo negative n x)
    (hn : n < 2 ^ 64) : x.isFinite = true := by
  rw [h.isFinite_iff]
  have hsmall : (n : ℚ) < 2 ^ 64 := by exact_mod_cast hn
  have hlimit : (2 : ℚ) ^ 64 ≤ 2 ^ 1024 - 2 ^ 970 := by
    have hstep : (2 : ℚ) ^ 64 ≤ 2 ^ 970 := pow_le_pow_right₀ one_le_two (by decide)
    have hdouble : (2 : ℚ) ^ 970 * 2 ≤ 2 ^ 1024 := by
      rw [← pow_succ]
      exact pow_le_pow_right₀ one_le_two (by decide)
    generalize (2 : ℚ) ^ 970 = a at hstep hdouble ⊢
    generalize (2 : ℚ) ^ 1024 = b at hdouble ⊢
    linarith
  exact hsmall.trans_le hlimit

end Binary64

namespace Json

theorem Denotes.isFinite {j : Json} {x : Binary64} (h : j.Denotes x) : x.isFinite = true := by
  cases h with
  | unsigned hx => exact hx.isFinite_of_small (UInt64.toNat_lt _)
  | @signed i _ hx =>
    have hlow : -9223372036854775808 ≤ i.toInt := i.le_toInt
    have hhigh : i.toInt ≤ 9223372036854775807 := i.toInt_le
    exact hx.isFinite_of_small (by omega)
  | real hx => exact hx
  | text _ hx => exact hx

end Json

namespace Message

open Binary64 (RoundsTo)

theorem roundsTo_unsigned (n : UInt64) : RoundsTo false n.toNat (.ofInt n.toNat) := Binary64.roundsTo_ofInt n.toNat

theorem finiteNumber?_number {j : Json} {x y : Binary64} (hj : j.number? = some y) :
    finiteNumber? j = some x ↔ x = y ∧ x.isFinite = true := by
  have hread : finiteNumber? j = (some y).filter Binary64.isFinite := by
    cases j with
    | text s => cases hj
    | _ => exact congrArg (Option.filter Binary64.isFinite) hj
  rw [hread, Option.filter_eq_some_iff, Option.some.injEq, eq_comm]

theorem finiteNumber?_of_denotes {j : Json} {x : Binary64} (h : j.Denotes x) : finiteNumber? j = some x := by
  have hfinite := h.isFinite
  cases h with
  | unsigned hx =>
    exact (finiteNumber?_number rfl).mpr ⟨hx.unique (roundsTo_unsigned _), hfinite⟩
  | signed hx =>
    exact (finiteNumber?_number rfl).mpr ⟨hx.unique (Binary64.roundsTo_ofInt _), hfinite⟩
  | real hx => exact (finiteNumber?_number rfl).mpr ⟨rfl, hfinite⟩
  | text hx _ => exact Binary64.ofText_form_iff.mpr ⟨hx, hx.isFinite_iff.mp hfinite⟩

theorem denotes_of_finiteNumber? {j : Json} {x : Binary64} (h : finiteNumber? j = some x) : j.Denotes x := by
  cases j with
  | unsigned n =>
    obtain ⟨rfl, -⟩ := (finiteNumber?_number rfl).mp h
    exact .unsigned (roundsTo_unsigned n)
  | signed i =>
    obtain ⟨rfl, -⟩ := (finiteNumber?_number rfl).mp h
    exact .signed (Binary64.roundsTo_ofInt i.toInt)
  | real y =>
    obtain ⟨rfl, hfinite⟩ := (finiteNumber?_number rfl).mp h
    exact .real hfinite
  | text s =>
    obtain ⟨p, rfl, -, hfinite⟩ := Binary64.exists_form_of_ofText? h
    exact .text (Binary64.ofText_form_iff.mp h).1 hfinite
  | null => cases h
  | bool b => cases h
  | list items => cases h
  | object members => cases h

end Message

end QuoteFeed
