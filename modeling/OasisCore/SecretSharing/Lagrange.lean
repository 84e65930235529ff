import Mathlib.LinearAlgebra.Lagrange
import OasisCore.SecretSharing.Multiplier
import OasisCore.SecretSharing.PolyOps

/-!
# Lagrange interpolation

`poly/lagrange/optimized.rs` and `naive.rs`: the Lagrange basis polynomials of a list
of nodes, the polynomial through a list of points, and the Lagrange coefficients at
zero by which a secret is recovered from its shares. The optimized functions take the
numerators from a product tree (`Multiplier`), the naive ones multiply them out in the
loop over the other nodes.

Inverting a zero denominator panics ("values should be unique"); here it is `none`.
For distinct nodes no denominator is zero, the basis polynomials of both versions are
Mathlib's `Lagrange.basis`, the interpolation polynomial is `Lagrange.interpolate`
with one coefficient per point, and the coefficients are the basis polynomials at
zero.
-/

open Polynomial

namespace OasisCore

namespace SecretSharing

variable {F : Type} [Field F] [DecidableEq F]

/-- `Point` (`point.rs:4-11`): a point `(x, f(x))`. -/
structure Point (F : Type) where
  x : F
  y : F

/-- `PrimeField::invert`: `None` for zero. -/
def invert (a : F) : Option F :=
  if a = 0 then none else some a⁻¹

/-- The denominator loop of `basis_polynomial` and `coefficient` (`optimized.rs:70-76`,
`110-116`): the product of `x_j - x_i` over the other nodes. -/
def denominator (xs : List F) (i : ℕ) : F :=
  (List.range xs.length).foldl
    (fun denom j => if j = i then denom else denom * (xs.getD j 0 - xs.getD i 0)) 1

/-- `multiplier_for_coefficients` (`optimized.rs:123-126`). -/
def multiplierForCoefficients (xs : List F) : Multiplier F :=
  Multiplier.new xs

/-- The polynomial `x_j - x` (`optimized.rs:132`, `naive.rs:70`). -/
def linearFactor (x : F) : Polynomial F :=
  Polynomial.withCoefficients [x, -1]

/-- `multiplier_for_basis_polynomials` (`optimized.rs:128-135`): the factors `x_j - x`. -/
def multiplierForBasisPolynomials (xs : List F) : Multiplier (Polynomial F) :=
  Multiplier.new (xs.map linearFactor)

/-- `coefficient` (`optimized.rs:107-121`). -/
def coefficient (xs : List F) (i : ℕ) (multiplier : Multiplier F) : Option F :=
  let nom := (multiplier.getProduct i).getD 1
  (invert (denominator xs i)).map fun denomInv => nom * denomInv

/-- `coefficients` (`optimized.rs:93-96`). -/
def coefficients (xs : List F) : Option (List F) :=
  let m := multiplierForCoefficients xs
  (List.range xs.length).mapM fun i => coefficient xs i m

/-- `basis_polynomial` (`optimized.rs:62-80`). -/
def basisPolynomial (xs : List F) (i : ℕ) (multiplier : Multiplier (Polynomial F)) :
    Option (Polynomial F) :=
  let nom := (multiplier.getProduct i).getD (Polynomial.withCoefficients [1])
  (invert (denominator xs i)).map nom.mulAssignScalar

/-- `basis_polynomials` (`optimized.rs:46-49`). -/
def basisPolynomials (xs : List F) : Option (List (Polynomial F)) :=
  let m := multiplierForBasisPolynomials xs
  (List.range xs.length).mapM fun i => basisPolynomial xs i m

/-- The summation loop of `lagrange` and `lagrange_naive` (`optimized.rs:25-31`):
`L(x) = ∑ y_i L_i(x)`. -/
def interpolationSum (ls : List (Polynomial F)) (points : List (Point F)) : Polynomial F :=
  (ls.zip points).foldl (fun l lp => l.addAssign (lp.1.mulAssignScalar lp.2.y)) default

/-- `lagrange` (`optimized.rs:19-33`). -/
def lagrange (points : List (Point F)) : Option (Polynomial F) :=
  (basisPolynomials (points.map (·.x))).map fun ls => interpolationSum ls points

/-- `basis_polynomial_naive` (`naive.rs:63-77`): numerator and denominator in one loop. -/
def basisPolynomialNaive (xs : List F) (i : ℕ) : Option (Polynomial F) :=
  let nd := (List.range xs.length).foldl (fun nd j =>
      if j = i then nd
      else (nd.1.mulAssign (linearFactor (xs.getD j 0)),
        nd.2 * (xs.getD j 0 - xs.getD i 0)))
    (Polynomial.withCoefficients [1], 1)
  (invert nd.2).map nd.1.mulAssignScalar

/-- `basis_polynomials_naive` (`naive.rs:46-50`). -/
def basisPolynomialsNaive (xs : List F) : Option (List (Polynomial F)) :=
  (List.range xs.length).mapM (basisPolynomialNaive xs)

/-- `lagrange_naive` (`naive.rs:19-33`). -/
def lagrangeNaive (points : List (Point F)) : Option (Polynomial F) :=
  (basisPolynomialsNaive (points.map (·.x))).map fun ls => interpolationSum ls points

/-- `coefficient_naive` (`naive.rs:103-117`). -/
def coefficientNaive (xs : List F) (i : ℕ) : Option F :=
  let nd := (List.range xs.length).foldl (fun nd j =>
      if j = i then nd else (nd.1 * xs.getD j 0, nd.2 * (xs.getD j 0 - xs.getD i 0))) (1, 1)
  (invert nd.2).map fun denomInv => nd.1 * denomInv

/-- `coefficients_naive` (`naive.rs:89-91`). -/
def coefficientsNaive (xs : List F) : Option (List F) :=
  (List.range xs.length).mapM (coefficientNaive xs)

/-! ## The nodes and the denominators -/

section Nodes

variable {xs : List F}

omit [DecidableEq F] in
theorem getD_eq_getD {xs : List F} {j : ℕ} (hj : j < xs.length) (d : F) : xs.getD j d = xs.getD j 0 := by
  simp [List.getD_eq_getElem?_getD, List.getElem?_eq_getElem hj]

omit [DecidableEq F] in
/-- Distinct nodes, read by their index, are injective on the indices. -/
theorem injOn_getD (hnodup : xs.Nodup) :
    Set.InjOn (fun j => xs.getD j 0) (Finset.range xs.length : Set ℕ) := by
  intro j hj k hk hjk
  simp only [Finset.coe_range, Set.mem_Iio] at hj hk
  simp only [List.getD_eq_getElem?_getD, List.getElem?_eq_getElem hj, List.getElem?_eq_getElem hk,
    Option.getD_some] at hjk
  exact hnodup.getElem_inj_iff.mp hjk

omit [DecidableEq F] in
theorem denominator_eq (xs : List F) (i : ℕ) :
    denominator xs i = ∏ j ∈ (Finset.range xs.length).erase i, (xs.getD j 0 - xs.getD i 0) := by
  rw [denominator, foldl_range_mul_skip, one_mul]

omit [DecidableEq F] in
/-- No denominator of distinct nodes is zero: the code never panics on them. -/
theorem denominator_ne_zero (hnodup : xs.Nodup) {i : ℕ} (hi : i < xs.length) :
    denominator xs i ≠ 0 := by
  rw [denominator_eq, Finset.prod_ne_zero_iff]
  intro j hj
  obtain ⟨hji, hj⟩ := Finset.mem_erase.mp hj
  refine sub_ne_zero_of_ne fun h => hji (injOn_getD hnodup ?_ ?_ h)
  · simpa using hj
  · simpa using hi

theorem invert_of_ne_zero {a : F} (h : a ≠ 0) : invert a = some a⁻¹ := by
  simp [invert, h]

end Nodes

/-! ## The basis polynomials

Both versions compute, for distinct nodes, the numerator `∏ (x_j - x)` over the other
nodes, with one coefficient per node, times the inverse of the denominator: Mathlib's
Lagrange basis polynomial. -/

/-- The numerator `nom` of `basis_polynomial` (`optimized.rs:67-69`). -/
def basisNumerator (xs : List F) (i : ℕ) : Polynomial F :=
  ((multiplierForBasisPolynomials xs).getProduct i).getD (Polynomial.withCoefficients [1])

/-- The basis polynomial of node `i` as both versions compute it for distinct nodes. -/
def basisValue (xs : List F) (i : ℕ) : Polynomial F :=
  (basisNumerator xs i).mulAssignScalar (denominator xs i)⁻¹

/-- The size of a polynomial less one, counted multiplicatively: for a product it is
the product of the counts. -/
def sizeCount (p : Polynomial F) : Multiplicative ℕ :=
  Multiplicative.ofAdd (p.size - 1)

section Basis

omit [DecidableEq F]

theorem sizeCount_mul (p q : Polynomial F) : sizeCount (p * q) = sizeCount p * sizeCount q := by
  have hp := p.size_pos
  have hq := q.size_pos
  rw [sizeCount, sizeCount, sizeCount, Polynomial.size_mul, ← ofAdd_add]
  congr 1
  omega

@[simp] theorem toPoly_linearFactor (x : F) : (linearFactor x).toPoly = C x - X := by
  rw [linearFactor, Polynomial.toPoly_withCoefficients (by simp), listPoly]
  simp [Finset.sum_range_succ, sub_eq_add_neg]

@[simp] theorem sizeCount_linearFactor (x : F) :
    sizeCount (linearFactor x) = Multiplicative.ofAdd 1 := by
  rw [sizeCount, linearFactor, Polynomial.size_withCoefficients (by simp)]
  rfl

theorem toPoly_one : (Polynomial.withCoefficients [(1 : F)]).toPoly = 1 := by
  rw [Polynomial.toPoly_withCoefficients (by simp), listPoly]
  simp

theorem sizeCount_one : sizeCount (Polynomial.withCoefficients [(1 : F)]) = 1 := by
  rw [sizeCount, Polynomial.size_withCoefficients (by simp)]
  rfl

/-- What the product tree of the linear factors gives, read through `f`: the product
of `f` of the factors of the other nodes. -/
theorem map_basisNumerator {P : Type} [CommMonoid P] {f : Polynomial F → P}
    (hf : ∀ p q, f (p * q) = f p * f q) (hone : f (Polynomial.withCoefficients [1]) = 1)
    (xs : List F) {i : ℕ} (hi : i < xs.length) :
    f (basisNumerator xs i) =
      ∏ j ∈ (Finset.range xs.length).erase i, f (linearFactor (xs.getD j 0)) := by
  have hi' : i < (xs.map linearFactor).length := by simpa using hi
  rw [basisNumerator, multiplierForBasisPolynomials, map_getD_getProduct_new hf _ hi' hone,
    prod_eraseIdx, List.length_map, List.length_map]
  refine Finset.prod_congr rfl fun j hj => ?_
  have hj' : j < xs.length := Finset.mem_range.mp (Finset.mem_of_mem_erase hj)
  rw [List.map_map, getD_map_of_lt _ hj' _ 0, Function.comp_apply]

theorem toPoly_basisNumerator (xs : List F) {i : ℕ} (hi : i < xs.length) :
    (basisNumerator xs i).toPoly = ∏ j ∈ (Finset.range xs.length).erase i, (C (xs.getD j 0) - X) := by
  rw [map_basisNumerator Polynomial.toPoly_mul toPoly_one xs hi]
  simp only [toPoly_linearFactor]

/-- A product of linear factors over the other nodes counts one less than the nodes. -/
theorem prod_sizeCount_linearFactor (xs : List F) {i : ℕ} (hi : i < xs.length) :
    ∏ j ∈ (Finset.range xs.length).erase i, sizeCount (linearFactor (xs.getD j 0)) =
      Multiplicative.ofAdd (xs.length - 1) := by
  rw [Finset.prod_congr rfl fun j _ => sizeCount_linearFactor (xs.getD j 0), Finset.prod_const,
    Finset.card_erase_of_mem (Finset.mem_range.mpr hi), Finset.card_range, ← ofAdd_nsmul,
    smul_eq_mul, mul_one]

/-- The numerator has one coefficient per node. -/
theorem size_basisNumerator (xs : List F) {i : ℕ} (hi : i < xs.length) :
    (basisNumerator xs i).size = xs.length := by
  have hcount := map_basisNumerator sizeCount_mul sizeCount_one xs hi
  rw [prod_sizeCount_linearFactor xs hi, sizeCount] at hcount
  have hsize := (basisNumerator xs i).size_pos
  have heq : (basisNumerator xs i).size - 1 = xs.length - 1 := Multiplicative.ofAdd.injective hcount
  omega

/-- Each factor of a basis polynomial, as the code builds it and as Mathlib does. -/
theorem linear_mul_inv_eq_basisDivisor (xi xj : F) :
    (C xj - X) * C (xj - xi)⁻¹ = Lagrange.basisDivisor xi xj := by
  rw [Lagrange.basisDivisor, ← neg_sub xi xj, inv_neg, C_neg]
  ring

theorem size_basisValue (xs : List F) {i : ℕ} (hi : i < xs.length) :
    (basisValue xs i).size = xs.length := by
  rw [basisValue, Polynomial.size_mulAssignScalar, size_basisNumerator xs hi]

theorem toPoly_basisValue (xs : List F) {i : ℕ} (hi : i < xs.length) :
    (basisValue xs i).toPoly =
      Lagrange.basis (Finset.range xs.length) (fun j => xs.getD j 0) i := by
  rw [basisValue, Polynomial.toPoly_mulAssignScalar, toPoly_basisNumerator xs hi, denominator_eq,
    Lagrange.basis, ← Finset.prod_inv_distrib, map_prod, ← Finset.prod_mul_distrib]
  exact Finset.prod_congr rfl fun j _ => linear_mul_inv_eq_basisDivisor _ _

end Basis

variable {xs : List F}

theorem basisPolynomial_eq (hnodup : xs.Nodup) {i : ℕ} (hi : i < xs.length) :
    basisPolynomial xs i (multiplierForBasisPolynomials xs) = some (basisValue xs i) := by
  rw [basisPolynomial, invert_of_ne_zero (denominator_ne_zero hnodup hi)]
  rfl

theorem basisPolynomials_eq (hnodup : xs.Nodup) :
    basisPolynomials xs = some ((List.range xs.length).map (basisValue xs)) :=
  mapM_eq_pure_map fun _ hi => basisPolynomial_eq hnodup (List.mem_range.mp hi)

omit [DecidableEq F] in
/-- The loop of `basis_polynomial_naive` is the numerator loop and the denominator
loop side by side. -/
theorem basisNaive_loop (xs : List F) (i : ℕ) :
    (List.range xs.length).foldl (fun nd j =>
        if j = i then nd
        else (nd.1.mulAssign (linearFactor (xs.getD j 0)), nd.2 * (xs.getD j 0 - xs.getD i 0)))
      (Polynomial.withCoefficients [1], 1) =
    ((List.range xs.length).foldl
        (fun nom j => if j = i then nom else nom * linearFactor (xs.getD j 0))
        (Polynomial.withCoefficients [1]),
      denominator xs i) := by
  rw [denominator, ← foldl_pair]
  congr 1
  funext nd j
  by_cases hj : j = i
  · simp [hj]
  · simp [hj, Polynomial.mulAssign_eq_mul]

theorem basisPolynomialNaive_eq (hnodup : xs.Nodup) {i : ℕ} (hi : i < xs.length) :
    basisPolynomialNaive xs i = some (basisValue xs i) := by
  rw [basisPolynomialNaive]
  simp only [basisNaive_loop, invert_of_ne_zero (denominator_ne_zero hnodup hi), Option.map_some]
  congr 1
  -- The naive numerator has the tree's polynomial and size.
  set nom := (List.range xs.length).foldl
    (fun nom j => if j = i then nom else nom * linearFactor (xs.getD j 0))
    (Polynomial.withCoefficients [1])
  have hpoly : nom.toPoly = (basisNumerator xs i).toPoly := by
    rw [toPoly_basisNumerator xs hi, map_foldl_range_mul_skip _ Polynomial.toPoly_mul, toPoly_one,
      one_mul]
    simp only [toPoly_linearFactor]
  have hcount : sizeCount nom = sizeCount (basisNumerator xs i) := by
    rw [map_foldl_range_mul_skip _ sizeCount_mul, sizeCount_one, one_mul,
      map_basisNumerator sizeCount_mul sizeCount_one xs hi]
  have hsize : nom.size = (basisNumerator xs i).size := by
    have h := Multiplicative.ofAdd.injective hcount
    have hpos := nom.size_pos
    have hpos' := (basisNumerator xs i).size_pos
    omega
  rw [basisValue, Polynomial.eq_of_toPoly_eq hsize hpoly]

theorem basisPolynomialsNaive_eq (hnodup : xs.Nodup) :
    basisPolynomialsNaive xs = some ((List.range xs.length).map (basisValue xs)) :=
  mapM_eq_pure_map fun _ hi => basisPolynomialNaive_eq hnodup (List.mem_range.mp hi)

/-! ## The interpolation polynomial -/

section Sum

omit [DecidableEq F]

/-- The summation loop adds `y_i L_i` to its polynomial, for each pair. -/
theorem toPoly_foldl_sum (l : List (Polynomial F × Point F)) (acc : Polynomial F) :
    (l.foldl (fun l lp => l.addAssign (lp.1.mulAssignScalar lp.2.y)) acc).toPoly =
      acc.toPoly + (l.map fun lp => lp.1.toPoly * C lp.2.y).sum := by
  induction l generalizing acc with
  | nil => simp
  | cons lp l ih =>
    rw [List.foldl_cons, ih, Polynomial.toPoly_addAssign, Polynomial.toPoly_mulAssignScalar,
      List.map_cons, List.sum_cons, add_assoc]

/-- Summing polynomials of size `n` from one no longer gives size `n`. -/
theorem size_foldl_sum {n : ℕ} (l : List (Polynomial F × Point F)) (hl : ∀ lp ∈ l, lp.1.size = n)
    (acc : Polynomial F) (hacc : acc.size ≤ n) (hne : l ≠ []) :
    (l.foldl (fun l lp => l.addAssign (lp.1.mulAssignScalar lp.2.y)) acc).size = n := by
  induction l generalizing acc with
  | nil => exact absurd rfl hne
  | cons lp l ih =>
    have hstep : (acc.addAssign (lp.1.mulAssignScalar lp.2.y)).size = n := by
      rw [Polynomial.size_addAssign, Polynomial.size_mulAssignScalar, hl lp List.mem_cons_self]
      omega
    rw [List.foldl_cons]
    rcases l with _ | ⟨lp', l⟩
    · exact hstep
    · exact ih (fun lp hlp => hl lp (List.mem_cons_of_mem _ hlp)) _ hstep.le (List.cons_ne_nil _ _)

/-- The default point, read past the end of a list of points. -/
def Point.zero : Point F := ⟨0, 0⟩

end Sum

variable {points : List (Point F)}

omit [DecidableEq F] in
theorem toPoly_interpolationSum (points : List (Point F)) :
    (interpolationSum ((List.range points.length).map (basisValue (points.map (·.x)))) points).toPoly =
      ∑ i ∈ Finset.range points.length,
        (basisValue (points.map (·.x)) i).toPoly * C (points.getD i Point.zero).y := by
  rw [interpolationSum, toPoly_foldl_sum, Polynomial.toPoly_default, zero_add]
  exact sum_map_zip_range _ _ Point.zero points

omit [DecidableEq F] in
/-- The interpolation polynomial is Mathlib's `Lagrange.interpolate` of the points. -/
theorem toPoly_interpolationSum_eq_interpolate (points : List (Point F)) :
    (interpolationSum ((List.range points.length).map (basisValue (points.map (·.x)))) points).toPoly =
      Lagrange.interpolate (Finset.range points.length) (fun j => (points.map (·.x)).getD j 0)
        (fun i => (points.getD i Point.zero).y) := by
  rw [toPoly_interpolationSum, Lagrange.interpolate_apply]
  refine Finset.sum_congr rfl fun i hi => ?_
  have hi' : i < (points.map (·.x)).length := by simpa using Finset.mem_range.mp hi
  rw [toPoly_basisValue _ hi', mul_comm, List.length_map]

/-- The polynomial `lagrange` returns for distinct nodes. -/
def interpolant (points : List (Point F)) : Polynomial F :=
  interpolationSum ((List.range points.length).map (basisValue (points.map (·.x)))) points

theorem lagrange_eq (hnodup : (points.map (·.x)).Nodup) :
    lagrange points = some (interpolant points) := by
  rw [lagrange, basisPolynomials_eq hnodup, Option.map_some, List.length_map]
  rfl

theorem lagrangeNaive_eq (hnodup : (points.map (·.x)).Nodup) :
    lagrangeNaive points = some (interpolant points) := by
  rw [lagrangeNaive, basisPolynomialsNaive_eq hnodup, Option.map_some, List.length_map]
  rfl

omit [DecidableEq F] in
theorem size_interpolant (hne : points ≠ []) : (interpolant points).size = points.length := by
  apply size_foldl_sum
  · intro lp hlp
    obtain ⟨i, hi, hbasis⟩ := List.mem_map.mp (List.of_mem_zip hlp).1
    have hi' : i < (points.map (·.x)).length := by simpa using List.mem_range.mp hi
    rw [← hbasis, size_basisValue _ hi', List.length_map]
  · exact (Polynomial.size_default (F := F)).le.trans (List.length_pos_iff.mpr hne)
  · simpa [List.zip_eq_nil_iff] using hne

omit [DecidableEq F] in
/-- The points by their index. -/
theorem getD_points {k : ℕ} (hk : k < points.length) :
    points.getD k Point.zero = points[k] ∧ (points.map (·.x)).getD k 0 = points[k].x := by
  simp [List.getD_eq_getElem?_getD, List.getElem?_eq_getElem hk]

omit [DecidableEq F] in
theorem injOn_x (hnodup : (points.map (·.x)).Nodup) :
    Set.InjOn (fun j => (points.map (·.x)).getD j 0) (Finset.range points.length : Set ℕ) := by
  simpa only [List.length_map] using injOn_getD hnodup

omit [DecidableEq F] in
/-- The interpolation polynomial passes through every point. -/
theorem eval_interpolant (hnodup : (points.map (·.x)).Nodup) {pt : Point F} (hpt : pt ∈ points) :
    (interpolant points).eval pt.x = pt.y := by
  obtain ⟨k, hk, rfl⟩ := List.mem_iff_getElem.mp hpt
  obtain ⟨hy, hx⟩ := getD_points hk
  have hnode := Lagrange.eval_interpolate_at_node (fun i => (points.getD i Point.zero).y)
    (injOn_x hnodup) (Finset.mem_range.mpr hk)
  rw [← Polynomial.eval_toPoly, interpolant, toPoly_interpolationSum_eq_interpolate, ← hx]
  rw [hnode, hy]

omit [DecidableEq F] in
/-- A polynomial of at most one coefficient per point through all of them has the
coefficients of the interpolation polynomial. -/
theorem getD_eq_interpolant (hnodup : (points.map (·.x)).Nodup) (Q : Polynomial F)
    (hsize : Q.size ≤ points.length) (hQ : ∀ pt ∈ points, Q.eval pt.x = pt.y) (k : ℕ) :
    Q.a.getD k 0 = (interpolant points).a.getD k 0 := by
  have hdeg : Q.toPoly.degree < (Finset.range points.length).card := by
    rw [Finset.card_range]
    exact (Q.degree_toPoly_lt).trans_le (by exact_mod_cast hsize)
  have heval : ∀ i ∈ Finset.range points.length,
      Q.toPoly.eval ((points.map (·.x)).getD i 0) = (points.getD i Point.zero).y := by
    intro i hi
    have hi' := Finset.mem_range.mp hi
    obtain ⟨hy, hx⟩ := getD_points hi'
    rw [hx, Polynomial.eval_toPoly, hy, hQ _ (List.getElem_mem hi')]
  have heq := Lagrange.eq_interpolate_of_eval_eq _ (injOn_x hnodup) hdeg heval
  rw [← Polynomial.coeff_toPoly, ← Polynomial.coeff_toPoly, interpolant,
    toPoly_interpolationSum_eq_interpolate, ← heq]

/-! ## The recovery coefficients

For distinct nodes `coefficients` gives the values at zero of the Lagrange basis
polynomials: the weights that recover `P(0)` from the values `P(x_i)`. -/

/-- The coefficient of node `i`: `∏ x_j / (x_j - x_i)` over the other nodes. -/
def coefficientValue (xs : List F) (i : ℕ) : F :=
  ∏ j ∈ (Finset.range xs.length).erase i, xs.getD j 0 / (xs.getD j 0 - xs.getD i 0)

section Coefficients

variable {xs : List F}

omit [DecidableEq F] in
theorem coefficientValue_eq_div (xs : List F) (i : ℕ) :
    coefficientValue xs i = (∏ j ∈ (Finset.range xs.length).erase i, xs.getD j 0) *
      (∏ j ∈ (Finset.range xs.length).erase i, (xs.getD j 0 - xs.getD i 0))⁻¹ := by
  rw [coefficientValue, Finset.prod_div_distrib, div_eq_mul_inv]

theorem coefficient_eq (hnodup : xs.Nodup) {i : ℕ} (hi : i < xs.length) :
    coefficient xs i (multiplierForCoefficients xs) = some (coefficientValue xs i) := by
  have hnom : ((multiplierForCoefficients xs).getProduct i).getD 1 =
      ∏ j ∈ (Finset.range xs.length).erase i, xs.getD j 0 := by
    have h := map_getD_getProduct_new (f := id) (fun _ _ => rfl) xs hi (d := 1) rfl
    rw [List.map_id, prod_eraseIdx] at h
    refine h.trans (Finset.prod_congr rfl fun j hj => ?_)
    exact getD_eq_getD (Finset.mem_range.mp (Finset.mem_of_mem_erase hj)) 1
  rw [coefficient, invert_of_ne_zero (denominator_ne_zero hnodup hi), Option.map_some, hnom,
    denominator_eq, coefficientValue_eq_div]

theorem coefficientNaive_eq (hnodup : xs.Nodup) {i : ℕ} (hi : i < xs.length) :
    coefficientNaive xs i = some (coefficientValue xs i) := by
  rw [coefficientNaive, foldl_skip_pair i (fun nom j => nom * xs.getD j 0)
    (fun denom j => denom * (xs.getD j 0 - xs.getD i 0))]
  rw [← denominator, invert_of_ne_zero (denominator_ne_zero hnodup hi), Option.map_some,
    foldl_range_mul_skip, one_mul, denominator_eq, coefficientValue_eq_div]

theorem coefficients_eq (hnodup : xs.Nodup) :
    coefficients xs = some ((List.range xs.length).map (coefficientValue xs)) :=
  mapM_eq_pure_map fun _ hi => coefficient_eq hnodup (List.mem_range.mp hi)

theorem coefficientsNaive_eq (hnodup : xs.Nodup) :
    coefficientsNaive xs = some ((List.range xs.length).map (coefficientValue xs)) :=
  mapM_eq_pure_map fun _ hi => coefficientNaive_eq hnodup (List.mem_range.mp hi)

omit [DecidableEq F] in
/-- The coefficient is the basis polynomial's value at zero; the factor
`x_j / (x_j - x_i)` is the divisor `(0 - x_j) / (x_i - x_j)` with both signs turned. -/
theorem coefficientValue_eq_eval_basis (xs : List F) (i : ℕ) :
    coefficientValue xs i =
      (Lagrange.basis (Finset.range xs.length) (fun j => xs.getD j 0) i).eval 0 := by
  rw [Lagrange.basis, eval_prod, coefficientValue]
  refine Finset.prod_congr rfl fun j _ => ?_
  rw [Lagrange.basisDivisor, eval_mul, eval_C, eval_sub, eval_X, eval_C, zero_sub,
    ← neg_sub (xs.getD j 0), inv_neg, neg_mul_neg, div_eq_inv_mul]

omit [DecidableEq F] in
/-- The coefficients recover `p(0)` from the values at distinct nodes, for every
polynomial of degree below their number. -/
theorem sum_coefficientValue_mul_eval_poly (hnodup : xs.Nodup) {p : F[X]}
    (hdeg : p.degree < xs.length) :
    ∑ i ∈ Finset.range xs.length, coefficientValue xs i * p.eval (xs.getD i 0) = p.eval 0 := by
  have heq := Lagrange.eq_interpolate (injOn_getD hnodup) (by rwa [Finset.card_range])
  calc ∑ i ∈ Finset.range xs.length, coefficientValue xs i * p.eval (xs.getD i 0)
      = (Lagrange.interpolate (Finset.range xs.length) (fun j => xs.getD j 0)
          fun i => p.eval (xs.getD i 0)).eval 0 := by
        rw [Lagrange.interpolate_apply, eval_finsetSum]
        refine Finset.sum_congr rfl fun i _ => ?_
        rw [eval_mul, eval_C, coefficientValue_eq_eval_basis, mul_comm]
    _ = p.eval 0 := by rw [← heq]

omit [DecidableEq F] in
/-- The same for a polynomial of the code with at most one coefficient per node. -/
theorem sum_coefficientValue_mul_eval (hnodup : xs.Nodup) (P : Polynomial F)
    (hsize : P.size ≤ xs.length) :
    ∑ i ∈ Finset.range xs.length, coefficientValue xs i * P.eval (xs.getD i 0) = P.eval 0 := by
  have hdeg : P.toPoly.degree < xs.length :=
    P.degree_toPoly_lt.trans_le (by exact_mod_cast hsize)
  simpa only [Polynomial.eval_toPoly] using sum_coefficientValue_mul_eval_poly hnodup hdeg

end Coefficients

/-! ## Correctness of the optimized interpolation -/

/-- For distinct nodes, `lagrange` returns the interpolation polynomial, with one
coefficient per point, the only polynomial of that size through the points, and
`lagrange_naive` returns the same; `coefficients` and `coefficients_naive` return the
weights `∏ x_j / (x_j - x_i)` that recover `P(0)`; and the multiplier returns the
product of the other values. -/
theorem lagrange_interpolates_eq_naive :
    (∀ points : List (Point F), points ≠ [] → (points.map (·.x)).Nodup →
      ∃ L, lagrange points = some L ∧ lagrangeNaive points = some L ∧ L.size = points.length ∧
        (∀ pt ∈ points, L.eval pt.x = pt.y) ∧
        ∀ Q : Polynomial F, Q.size ≤ points.length → (∀ pt ∈ points, Q.eval pt.x = pt.y) →
          ∀ k, Q.a.getD k 0 = L.a.getD k 0) ∧
    (∀ xs : List F, xs.Nodup →
      ∃ cs, coefficients xs = some cs ∧ coefficientsNaive xs = some cs ∧ cs.length = xs.length ∧
        (∀ i < xs.length, cs.getD i 0 =
          ∏ j ∈ (Finset.range xs.length).erase i, xs.getD j 0 / (xs.getD j 0 - xs.getD i 0)) ∧
        ∀ P : Polynomial F, P.size ≤ xs.length →
          ∑ i ∈ Finset.range xs.length, cs.getD i 0 * P.eval (xs.getD i 0) = P.eval 0) ∧
    (∀ (T : Type) [CommMonoid T] (values : List T) (i : ℕ), i < values.length →
      (Multiplier.new values).getProduct i =
        if values.length = 1 then none else some (values.eraseIdx i).prod) := by
  refine ⟨fun points hne hnodup => ?_, fun xs hnodup => ?_,
    fun T _ values i hi => getProduct_new values hi⟩
  · exact ⟨interpolant points, lagrange_eq hnodup, lagrangeNaive_eq hnodup, size_interpolant hne,
      fun pt hpt => eval_interpolant hnodup hpt,
      fun Q hsize hQ k => getD_eq_interpolant hnodup Q hsize hQ k⟩
  · have hget : ∀ i < xs.length,
        ((List.range xs.length).map (coefficientValue xs)).getD i 0 = coefficientValue xs i :=
      fun i hi => getD_map_range _ hi 0
    refine ⟨_, coefficients_eq hnodup, coefficientsNaive_eq hnodup, by simp, hget,
      fun P hsize => ?_⟩
    rw [← sum_coefficientValue_mul_eval hnodup P hsize]
    refine Finset.sum_congr rfl fun i hi => ?_
    rw [hget i (Finset.mem_range.mp hi)]

/-- Two rational points: both interpolations return one polynomial of two coefficients. -/
theorem lagrange_two_points :
    ∃ L : Polynomial ℚ, lagrange [⟨1, 2⟩, ⟨2, 3⟩] = some L ∧
      lagrangeNaive [⟨1, 2⟩, ⟨2, 3⟩] = some L ∧ L.size = 2 := by
  obtain ⟨L, h, hnaive, hsize, -⟩ :=
    (lagrange_interpolates_eq_naive (F := ℚ)).1 [⟨1, 2⟩, ⟨2, 3⟩] (by simp) (by norm_num)
  exact ⟨L, h, hnaive, hsize⟩

end SecretSharing

end OasisCore
