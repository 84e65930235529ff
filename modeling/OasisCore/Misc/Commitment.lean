import Mathlib.Algebra.Module.BigOperators
import Mathlib.Algebra.NoZeroSMulDivisors.Basic
import Mathlib.Algebra.Field.Basic

/-!
# Commitments to scalars

A scalar `s` is committed as `s • g`, for a fixed nonzero `g` of a vector space
over the scalars: the additive notation for `g^s` in a group of prime order `q`
with scalar field `F_q`, where every element but the identity generates. The
commitment is injective and additive, so a check that a combination of
commitments is the identity decides the same combination of the committed
scalars. A weighted sum of commitments is the commitment of the weighted sum.
-/

namespace OasisCore

variable {F G : Type} [Field F] [AddCommGroup G] [Module F G] {g : G}

/-- A weighted sum of commitments commits to the weighted sum. -/
theorem sum_smul_smul {ι : Type} (s : Finset ι) (w c : ι → F) :
    ∑ i ∈ s, w i • c i • g = (∑ i ∈ s, c i * w i) • g := by
  rw [Finset.sum_smul]
  exact Finset.sum_congr rfl fun i _ => by rw [smul_smul, mul_comm]

/-- Adding the commitment of `s` to the inverse commitment of `v` gives the identity
exactly when `v = s`. -/
theorem smul_neg_add_smul_eq_zero (hg : g ≠ 0) (v s : F) : v • -g + s • g = 0 ↔ v = s := by
  rw [smul_neg, neg_add_eq_sub, ← sub_smul, smul_eq_zero_iff_left hg, sub_eq_zero, eq_comm]

/-- Two commitments cancel exactly when they commit to the same scalar. -/
theorem smul_sub_smul_eq_zero (hg : g ≠ 0) (a s : F) : a • g - s • g = 0 ↔ a = s := by
  rw [← sub_smul, smul_eq_zero_iff_left hg, sub_eq_zero]

end OasisCore
