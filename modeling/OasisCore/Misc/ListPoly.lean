import Mathlib.Algebra.Polynomial.Coeff
import Mathlib.Algebra.Polynomial.Degree.Defs
import Mathlib.Algebra.Polynomial.Eval.Defs

/-!
# Coefficient lists as polynomials

A list `a` of coefficients stands for the polynomial `∑ a_i X^i`; the entries past
its end read as zero. The map is injective on lists of one length, so an equality
of coefficient lists of known length can be proved as an equality of polynomials,
where the ring laws hold.
-/

open Polynomial

namespace OasisCore

variable {R : Type} [Semiring R]

/-- The polynomial `∑ a_i X^i` of the coefficient list `a`. -/
noncomputable def listPoly (a : List R) : R[X] :=
  ∑ i ∈ Finset.range a.length, C (a.getD i 0) * X ^ i

@[simp] theorem coeff_listPoly (a : List R) (k : ℕ) : (listPoly a).coeff k = a.getD k 0 := by
  rw [listPoly, finsetSum_coeff]
  simp only [coeff_C_mul_X_pow]
  rw [Finset.sum_ite_eq]
  split
  · rfl
  · next hk =>
    rw [Finset.mem_range, not_lt] at hk
    simp [List.getD_eq_getElem?_getD, List.getElem?_eq_none hk]

theorem eval_listPoly (a : List R) (x : R) :
    (listPoly a).eval x = ∑ i ∈ Finset.range a.length, a.getD i 0 * x ^ i := by
  simp [listPoly, eval_finsetSum]

/-- A list of length `n` is a polynomial of degree below `n`. -/
theorem degree_listPoly_lt (a : List R) : (listPoly a).degree < a.length := by
  rw [degree_lt_iff_coeff_zero]
  intro m hm
  simp [List.getD_eq_getElem?_getD, List.getElem?_eq_none hm]

/-- Lists of one length with the same polynomial are equal. -/
theorem eq_of_listPoly_eq {a b : List R} (hlen : a.length = b.length)
    (h : listPoly a = listPoly b) : a = b := by
  apply List.ext_getElem hlen
  intro i ha hb
  have hi := congrArg (·.coeff i) h
  simpa [List.getD_eq_getElem?_getD, List.getElem?_eq_getElem ha,
    List.getElem?_eq_getElem hb] using hi

/-- Pushing a coefficient adds its monomial. -/
theorem listPoly_append_singleton (a : List R) (v : R) :
    listPoly (a ++ [v]) = listPoly a + C v * X ^ a.length := by
  rw [listPoly, listPoly, List.length_append, List.length_singleton, Finset.sum_range_succ]
  congr 1
  · refine Finset.sum_congr rfl fun i hi => ?_
    rw [Finset.mem_range] at hi
    simp [List.getD_eq_getElem?_getD, List.getElem?_append_left hi]
  · simp [List.getD_eq_getElem?_getD]

/-- Adding to the coefficient at `k` adds a monomial there. -/
theorem listPoly_modify_add (a : List R) {k : ℕ} (hk : k < a.length) (v : R) :
    listPoly (a.modify k (· + v)) = listPoly a + C v * X ^ k := by
  ext t
  rw [coeff_add, coeff_listPoly, coeff_listPoly, coeff_C_mul_X_pow]
  by_cases ht : t = k
  · subst ht
    simp [List.getD_eq_getElem?_getD, List.getElem?_eq_getElem hk]
  · simp [List.getD_eq_getElem?_getD, ht, Ne.symm ht]

end OasisCore
