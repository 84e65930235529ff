import Mathlib.Algebra.BigOperators.Ring.Finset
import Mathlib.Algebra.Field.Basic
import OasisCore.Misc.List

/-!
# Polynomials over a prime field

`powers` (`poly/arith.rs`), the univariate `Polynomial` (`poly/univariate.rs`) and
the `BivariatePolynomial` (`poly/bivariate.rs`) of the secret-sharing crate, with
the evaluations that the verifiable secret sharing checks commit to. The
coefficient field is any field; the code's `PrimeField` is one.

A polynomial is its coefficient vector, never trimmed, and never empty: every
constructor of the code makes at least one coefficient, and the structures carry
the shape as a field. Reading `b[i][j]` in a loop of the code is `coeff`, which is
zero out of bounds where the code never reads.

Each evaluation is a loop over `powers` with their indices; its spec lemma is the
finite sum it computes.
-/

namespace OasisCore

namespace SecretSharing

variable {F : Type} [Field F]

/-- `powers` (`arith.rs:4-13`): `x^0, x^1, ..., x^k`. -/
def powers (x : F) (k : ℕ) : List F :=
  let (pows, prev) := (List.range k).foldl (step x) ([], 1)
  pows ++ [prev]
where
  /-- Push the current power, then multiply by `x`. -/
  step (x : F) (acc : List F × F) (_ : ℕ) : List F × F :=
    (acc.1 ++ [acc.2], acc.2 * x)

theorem powers_eq (x : F) (k : ℕ) : powers x k = (List.range (k + 1)).map (x ^ ·) := by
  -- After `n` rounds the loop has pushed `x^0 .. x^(n-1)` and holds `x^n`.
  have hloop : ∀ n, (List.range n).foldl (powers.step x) ([], 1) =
      ((List.range n).map (x ^ ·), x ^ n) := by
    intro n
    induction n with
    | zero => simp
    | succ n ih =>
      rw [List.range_succ, List.foldl_append, ih]
      simp [powers.step, pow_succ]
  unfold powers
  rw [hloop k, List.range_succ, List.map_append]
  rfl

/-- The loops over `powers` with their indices walk the indices and the powers. -/
theorem powers_zipIdx (x : F) (k : ℕ) :
    (powers x k).zipIdx = (List.range (k + 1)).map fun i => (x ^ i, i) := by
  rw [zipIdx_eq_map_range _ 0, powers_eq, List.length_map, List.length_range]
  apply List.map_congr_left
  intro i hi
  rw [List.mem_range] at hi
  simp [List.getElem?_range hi]

/-- `Polynomial` (`univariate.rs:14-29`): the coefficients `a_0, ..., a_deg` of
`A(x) = ∑ a_i x^i`; the zero polynomial is one zero coefficient. -/
structure Polynomial (F : Type) where
  a : List F
  a_ne_nil : a ≠ []

namespace Polynomial

omit [Field F] in
theorem ext_a {p q : Polynomial F} (h : p.a = q.a) : p = q := by
  cases p
  cases q
  simp only at h
  simp [h]

/-- `Polynomial::zero` (`univariate.rs:35-41`). -/
def zero (deg : UInt8) : Polynomial F :=
  ⟨List.replicate (deg.toNat + 1) 0, by simp⟩

/-- `Polynomial::with_coefficients` (`univariate.rs:59-66`). -/
def withCoefficients (a : List F) : Polynomial F :=
  if h : a = [] then zero 0 else ⟨a, h⟩

/-- `Polynomial::size` (`univariate.rs:91-94`). -/
def size (p : Polynomial F) : ℕ :=
  p.a.length

/-- `Polynomial::coefficient` (`univariate.rs:96-99`). -/
def coefficient (p : Polynomial F) (i : ℕ) : Option F :=
  p.a[i]?

/-- `Polynomial::eval` (`univariate.rs:156-165`); `a[i]` is in bounds, as there are as
many powers as coefficients. -/
def eval (p : Polynomial F) (x : F) : F :=
  (powers x (p.a.length - 1)).zipIdx.foldl (fun r (xpow, i) => r + p.a.getD i 0 * xpow) 0

theorem ext_iff_getD {p q : Polynomial F} :
    p = q ↔ p.size = q.size ∧ ∀ i < p.size, p.a.getD i 0 = q.a.getD i 0 := by
  constructor
  · rintro rfl
    exact ⟨rfl, fun _ _ => rfl⟩
  · rintro ⟨hsize, h⟩
    exact ext_a (ext_getD 0 hsize h)

theorem coefficient_getD (p : Polynomial F) (i : ℕ) : (p.coefficient i).getD 0 = p.a.getD i 0 := by
  simp [coefficient, List.getD_eq_getElem?_getD]

theorem withCoefficients_a {a : List F} (h : a ≠ []) : (withCoefficients a).a = a := by
  simp [withCoefficients, h]

omit [Field F] in
theorem size_pos (p : Polynomial F) : 0 < p.size :=
  List.length_pos_iff.mpr p.a_ne_nil

theorem eval_eq (p : Polynomial F) (x : F) :
    p.eval x = ∑ i ∈ Finset.range p.size, p.a.getD i 0 * x ^ i := by
  unfold eval
  rw [powers_zipIdx, Nat.sub_add_cancel (show 1 ≤ p.a.length from p.size_pos), List.foldl_map]
  exact (foldl_range_add _ _ 0).trans (zero_add _)

end Polynomial

/-- `BivariatePolynomial` (`bivariate.rs:10-24`): the coefficients `b_{i,j}` of
`B(x,y) = ∑ b_{i,j} x^i y^j`, one row per power of `x` and one column per power of
`y`. -/
structure BivariatePolynomial (F : Type) where
  degX : ℕ
  degY : ℕ
  b : List (List F)
  length_b : b.length = degX + 1
  length_bi : ∀ bi ∈ b, bi.length = degY + 1

namespace BivariatePolynomial

/-- `BivariatePolynomial::zero` (`bivariate.rs:30-37`). -/
def zero (degX degY : UInt8) : BivariatePolynomial F where
  degX := degX.toNat
  degY := degY.toNat
  b := List.replicate (degX.toNat + 1) (List.replicate (degY.toNat + 1) 0)
  length_b := by simp
  length_bi := by simp +contextual [List.mem_replicate]

/-- `BivariatePolynomial::with_coefficients` (`bivariate.rs:59-78`), which panics unless
the rows are nonempty and of one length. -/
def withCoefficients (b : List (List F)) : Except String (BivariatePolynomial F) :=
  match b with
  | [] => .ok (zero 0 0)
  | b0 :: rest =>
    if h : ∀ bi ∈ b0 :: rest, bi.length = b0.length ∧ bi ≠ [] then
      .ok ⟨rest.length, b0.length - 1, b0 :: rest, by simp, fun bi hbi => by
        have hb0 := List.length_pos_iff.mpr (h b0 List.mem_cons_self).2
        rw [(h bi hbi).1]
        omega⟩
    else .error "invalid polynomial"

omit [Field F] in
theorem ext {B B' : BivariatePolynomial F} (hx : B.degX = B'.degX) (hy : B.degY = B'.degY)
    (hb : B.b = B'.b) : B = B' := by
  cases B
  cases B'
  simp only at hx hy hb
  subst hx hy hb
  rfl

/-- `BivariatePolynomial::coefficient` (`bivariate.rs:108-111`). -/
def coefficient (B : BivariatePolynomial F) (i j : ℕ) : Option F :=
  B.b[i]?.bind (·[j]?)

/-- `b[i][j]`. -/
def coeff (B : BivariatePolynomial F) (i j : ℕ) : F :=
  (B.coefficient i j).getD 0

/-- `BivariatePolynomial::eval` (`bivariate.rs:183-199`). -/
def eval (B : BivariatePolynomial F) (x y : F) : F :=
  let xpows := powers x B.degX
  let ypows := powers y B.degY
  xpows.zipIdx.foldl (fun v (xpow, i) =>
    let vi := ypows.zipIdx.foldl (fun vi (ypow, j) => vi + B.coeff i j * ypow) 0
    v + vi * xpow) 0

/-- `BivariatePolynomial::eval_x` (`bivariate.rs:201-222`): the coefficients
`a_j = ∑ b_{i,j} x^i` of `B(x, ·)`. -/
def evalX (B : BivariatePolynomial F) (x : F) : Polynomial F :=
  let xpows := powers x B.degX
  Polynomial.withCoefficients ((List.range (B.degY + 1)).map fun j =>
    xpows.zipIdx.foldl (fun aj (xpow, i) => aj + B.coeff i j * xpow) 0)

/-- `BivariatePolynomial::eval_y` (`bivariate.rs:224-245`): the coefficients
`a_i = ∑ b_{i,j} y^j` of `B(·, y)`. -/
def evalY (B : BivariatePolynomial F) (y : F) : Polynomial F :=
  let ypows := powers y B.degY
  Polynomial.withCoefficients ((List.range (B.degX + 1)).map fun i =>
    ypows.zipIdx.foldl (fun ai (ypow, j) => ai + B.coeff i j * ypow) 0)

/-- The sum of two bivariate polynomials, each zero-extended to the larger shape.
The crate has no such operation; it is what the sum of two verification matrices
commits to. -/
def paddedSum (B₁ B₂ : BivariatePolynomial F) : BivariatePolynomial F where
  degX := max B₁.degX B₂.degX
  degY := max B₁.degY B₂.degY
  b := (List.range (max B₁.degX B₂.degX + 1)).map fun i =>
    (List.range (max B₁.degY B₂.degY + 1)).map fun j => B₁.coeff i j + B₂.coeff i j
  length_b := by simp
  length_bi := by simp

omit [Field F] in
theorem coefficient_eq_some {B : BivariatePolynomial F} {i j : ℕ} (hi : i ≤ B.degX)
    (hj : j ≤ B.degY) : ∃ c, B.coefficient i j = some c := by
  have hi' : i < B.b.length := by rw [B.length_b]; omega
  have hj' : j < B.b[i].length := by rw [B.length_bi _ (List.getElem_mem hi')]; omega
  exact ⟨B.b[i][j], by simp [coefficient, List.getElem?_eq_getElem hi', List.getElem?_eq_getElem hj']⟩

omit [Field F] in
theorem coefficient_eq_none {B : BivariatePolynomial F} {i j : ℕ}
    (h : B.degX < i ∨ B.degY < j) : B.coefficient i j = none := by
  unfold coefficient
  rcases h with hi | hj
  · rw [List.getElem?_eq_none (by rw [B.length_b]; omega)]
    rfl
  · cases hbi : B.b[i]? with
    | none => rfl
    | some bi =>
      have hlen := B.length_bi bi (List.mem_of_getElem? hbi)
      have hnone : bi[j]? = none := List.getElem?_eq_none (by omega)
      simp [hnone]

theorem coeff_eq_zero {B : BivariatePolynomial F} {i j : ℕ} (h : B.degX < i ∨ B.degY < j) :
    B.coeff i j = 0 := by
  simp [coeff, coefficient_eq_none h]

@[simp] theorem coeff_paddedSum (B₁ B₂ : BivariatePolynomial F) (i j : ℕ) :
    (B₁.paddedSum B₂).coeff i j = B₁.coeff i j + B₂.coeff i j := by
  by_cases hin : i ≤ max B₁.degX B₂.degX ∧ j ≤ max B₁.degY B₂.degY
  · have hi : i < max B₁.degX B₂.degX + 1 := by omega
    have hj : j < max B₁.degY B₂.degY + 1 := by omega
    simp [coeff, coefficient, paddedSum, hi, hj]
  · -- Outside the larger shape both summands are zero-extended.
    have hout : B₁.degX < i ∨ B₁.degY < j := by omega
    have hout₂ : B₂.degX < i ∨ B₂.degY < j := by omega
    rw [coeff_eq_zero (B := B₁.paddedSum B₂) (by simp only [paddedSum]; omega),
      coeff_eq_zero hout, coeff_eq_zero hout₂, add_zero]

theorem eval_eq (B : BivariatePolynomial F) (x y : F) :
    B.eval x y = ∑ i ∈ Finset.range (B.degX + 1), ∑ j ∈ Finset.range (B.degY + 1),
      B.coeff i j * x ^ i * y ^ j := by
  unfold eval
  simp only [powers_zipIdx, List.foldl_map, foldl_range_add, zero_add]
  apply Finset.sum_congr rfl
  intro i _
  rw [Finset.sum_mul]
  exact Finset.sum_congr rfl fun j _ => mul_right_comm _ _ _

theorem evalX_a (B : BivariatePolynomial F) (x : F) :
    (B.evalX x).a = (List.range (B.degY + 1)).map fun j =>
      ∑ i ∈ Finset.range (B.degX + 1), B.coeff i j * x ^ i := by
  unfold evalX
  rw [Polynomial.withCoefficients_a (by simp)]
  simp only [powers_zipIdx, List.foldl_map, foldl_range_add, zero_add]

theorem evalY_a (B : BivariatePolynomial F) (y : F) :
    (B.evalY y).a = (List.range (B.degX + 1)).map fun i =>
      ∑ j ∈ Finset.range (B.degY + 1), B.coeff i j * y ^ j := by
  unfold evalY
  rw [Polynomial.withCoefficients_a (by simp)]
  simp only [powers_zipIdx, List.foldl_map, foldl_range_add, zero_add]

theorem size_evalX (B : BivariatePolynomial F) (x : F) : (B.evalX x).size = B.degY + 1 := by
  simp [Polynomial.size, evalX_a]

theorem size_evalY (B : BivariatePolynomial F) (y : F) : (B.evalY y).size = B.degX + 1 := by
  simp [Polynomial.size, evalY_a]

/-- At the origin only the constant term is left: `B(0, 0) = b_{0,0}`. -/
theorem eval_zero_zero (B : BivariatePolynomial F) : B.eval 0 0 = B.coeff 0 0 := by
  rw [eval_eq, Finset.sum_eq_single 0, Finset.sum_eq_single 0]
  · simp
  · intro j _ hj
    simp [zero_pow hj]
  · simp
  · intro i _ hi
    simp [zero_pow hi]
  · simp

end BivariatePolynomial

end SecretSharing

end OasisCore
