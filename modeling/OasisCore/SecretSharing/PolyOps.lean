import Mathlib.Algebra.Polynomial.Eval.Coeff
import Mathlib.Tactic.Ring
import OasisCore.Misc.ListPoly
import OasisCore.SecretSharing.Poly

/-!
# Arithmetic of univariate polynomials

The operators of `univariate.rs` that Lagrange interpolation uses: the product of
two polynomials, as a new value and in place, the product by a scalar in place, and
the sum in place. The code never trims, so the product of polynomials of sizes `m`
and `n` has `m + n - 1` coefficients and a sum as many as its longer summand.

`toPoly` reads a polynomial of the code as one of Mathlib: each operator is there
the ring's operation, and its size is stated beside it, as the polynomial forgets
the trailing zeros the vector keeps.
-/

open Polynomial

namespace OasisCore

namespace SecretSharing

variable {F : Type} [Field F]

namespace Polynomial

instance : Inhabited (Polynomial F) := ⟨zero 0⟩

/-- The step of the product loops (`univariate.rs:406-412`): add `aij` to the
coefficient of `x^k`, or push it when the vector does not reach `x^k` yet. -/
def pushOrAdd (a : List F) (k : ℕ) (aij : F) : List F :=
  if k < a.length then a.modify k (· + aij) else a ++ [aij]

/-- The coefficients of the product of `a` and `b` (`univariate.rs:404-413`). -/
def mulCoefficients (a b : List F) : List F :=
  (List.range a.length).foldl (row a b) []
where
  /-- The inner loop, over the coefficients of `b`, for the coefficient `a_i`. -/
  row (a b : List F) (c : List F) (i : ℕ) : List F :=
    (List.range b.length).foldl (fun c j => pushOrAdd c (i + j) (a.getD i 0 * b.getD j 0)) c

/-- The polynomial of a coefficient vector. -/
noncomputable def toPoly (p : Polynomial F) : F[X] :=
  listPoly p.a

theorem coeff_toPoly (p : Polynomial F) (k : ℕ) : p.toPoly.coeff k = p.a.getD k 0 :=
  coeff_listPoly p.a k

theorem eval_toPoly (p : Polynomial F) (x : F) : p.toPoly.eval x = p.eval x := by
  rw [toPoly, eval_listPoly, eval_eq]
  rfl

theorem degree_toPoly_lt (p : Polynomial F) : p.toPoly.degree < p.size :=
  degree_listPoly_lt p.a

/-- At zero only the constant coefficient is left. -/
theorem eval_zero_eq (p : Polynomial F) : p.eval 0 = p.a.getD 0 0 := by
  rw [← eval_toPoly, ← coeff_zero_eq_eval_zero, coeff_toPoly]

/-- Polynomials of one size are equal when their polynomials are. -/
theorem eq_of_toPoly_eq {p q : Polynomial F} (hsize : p.size = q.size)
    (h : p.toPoly = q.toPoly) : p = q :=
  ext_a (eq_of_listPoly_eq hsize h)

/-! ## The product -/

section Product

variable {a b c : List F}

theorem pushOrAdd_spec {k : ℕ} (hk : k ≤ c.length) (v : F) :
    (pushOrAdd c k v).length = max c.length (k + 1) ∧
      listPoly (pushOrAdd c k v) = listPoly c + C v * X ^ k := by
  unfold pushOrAdd
  split
  · next hlt =>
    exact ⟨by rw [List.length_modify]; omega, listPoly_modify_add c hlt v⟩
  · next hge =>
    -- Out of range only at the end: the pushed coefficient is that of `x^k`.
    have hend : k = c.length := by omega
    subst hend
    exact ⟨by simp, listPoly_append_singleton c v⟩

/-- Row `r` of the product loop, on a vector reaching `x^r`, reaches `x^(r + n - 1)`
and adds the terms `a_r b_j x^(r+j)`. -/
theorem row_spec (r : ℕ) (hr : r ≤ c.length) :
    (mulCoefficients.row a b c r).length = max c.length (r + b.length) ∧
      listPoly (mulCoefficients.row a b c r) =
        listPoly c + ∑ j ∈ Finset.range b.length, C (a.getD r 0 * b.getD j 0) * X ^ (r + j) := by
  unfold mulCoefficients.row
  -- The loop over the first `n` coefficients of `b`.
  suffices h : ∀ n, ((List.range n).foldl
      (fun c j => pushOrAdd c (r + j) (a.getD r 0 * b.getD j 0)) c).length = max c.length (r + n) ∧
      listPoly ((List.range n).foldl
        (fun c j => pushOrAdd c (r + j) (a.getD r 0 * b.getD j 0)) c) =
        listPoly c + ∑ j ∈ Finset.range n, C (a.getD r 0 * b.getD j 0) * X ^ (r + j) from h _
  intro n
  induction n with
  | zero => simp [hr]
  | succ n ih =>
    rw [List.range_succ, List.foldl_append, List.foldl_cons, List.foldl_nil]
    obtain ⟨hlen, hpoly⟩ := ih
    obtain ⟨hlen', hpoly'⟩ := pushOrAdd_spec (c := (List.range n).foldl
      (fun c j => pushOrAdd c (r + j) (a.getD r 0 * b.getD j 0)) c) (k := r + n)
      (by rw [hlen]; omega) (a.getD r 0 * b.getD n 0)
    refine ⟨by rw [hlen', hlen]; omega, ?_⟩
    rw [hpoly', hpoly, Finset.sum_range_succ, add_assoc]

/-- The product loop computes the product of the polynomials, with `m + n - 1`
coefficients. -/
theorem mulCoefficients_spec (ha : a ≠ []) (hb : b ≠ []) :
    (mulCoefficients a b).length = a.length + b.length - 1 ∧
      listPoly (mulCoefficients a b) = listPoly a * listPoly b := by
  have hn : 0 < b.length := List.length_pos_iff.mpr hb
  -- After `m` rows the vector reaches `x^(m + n - 2)` and holds the terms of the rows.
  have hrows : ∀ m, ((List.range m).foldl (mulCoefficients.row a b) []).length =
      (if m = 0 then 0 else m + b.length - 1) ∧
      listPoly ((List.range m).foldl (mulCoefficients.row a b) []) =
        ∑ i ∈ Finset.range m, ∑ j ∈ Finset.range b.length,
          C (a.getD i 0 * b.getD j 0) * X ^ (i + j) := by
    intro m
    induction m with
    | zero => simp [listPoly]
    | succ m ih =>
      rw [List.range_succ, List.foldl_append, List.foldl_cons, List.foldl_nil]
      obtain ⟨hlen, hpoly⟩ := ih
      obtain ⟨hlen', hpoly'⟩ := row_spec (a := a) (b := b) m (by rw [hlen]; split <;> omega)
      refine ⟨by rw [hlen', hlen, if_neg (Nat.succ_ne_zero m)]; split <;> omega, ?_⟩
      rw [hpoly', hpoly, Finset.sum_range_succ]
  obtain ⟨hlen, hpoly⟩ := hrows a.length
  unfold mulCoefficients
  refine ⟨by rw [hlen, if_neg (List.length_pos_iff.mpr ha).ne'], ?_⟩
  rw [hpoly, listPoly, listPoly, Finset.sum_mul_sum]
  refine Finset.sum_congr rfl fun i _ => Finset.sum_congr rfl fun j _ => ?_
  rw [C_mul, pow_add]
  ring

theorem mulCoefficients_ne_nil (ha : a ≠ []) (hb : b ≠ []) : mulCoefficients a b ≠ [] := by
  have hlen := (mulCoefficients_spec ha hb).1
  have hpos : 0 < a.length := List.length_pos_iff.mpr ha
  have hpos' : 0 < b.length := List.length_pos_iff.mpr hb
  rw [← List.length_pos_iff, hlen]
  omega

end Product

/-- `Mul for &Polynomial` (`univariate.rs:397-417`). -/
def mul (p q : Polynomial F) : Polynomial F :=
  withCoefficients (mulCoefficients p.a q.a)

instance : Mul (Polynomial F) := ⟨mul⟩

/-- `MulAssign<&Polynomial>` (`univariate.rs:429-447`): the loop of the product, stored
as it is. -/
def mulAssign (p q : Polynomial F) : Polynomial F :=
  ⟨mulCoefficients p.a q.a, mulCoefficients_ne_nil p.a_ne_nil q.a_ne_nil⟩

/-- `MulAssign<&F>` (`univariate.rs:514-522`): each coefficient times the scalar. -/
def mulAssignScalar (p : Polynomial F) (scalar : F) : Polynomial F :=
  ⟨(List.range p.a.length).foldl (fun a i => a.modify i (· * scalar)) p.a, by
    rw [foldl_range_modify]
    simpa using p.a_ne_nil⟩

/-- `Add for &Polynomial` (`univariate.rs:217-237`): the common coefficients added,
then the rest of each summand, one of which is empty. -/
def add (p q : Polynomial F) : Polynomial F :=
  let minLen := min p.a.length q.a.length
  withCoefficients (List.zipWith (· + ·) p.a q.a ++ p.a.drop minLen ++ q.a.drop minLen)

/-- `AddAssign<&Polynomial>` (`univariate.rs:249-265`): the common coefficients
added, then the rest of the longer summand appended; the reallocation when the
capacity is too small keeps the coefficients. -/
def addAssign (p q : Polynomial F) : Polynomial F :=
  let minLen := min p.a.length q.a.length
  ⟨(List.range minLen).foldl (fun a i => a.modify i (· + q.a.getD i 0)) p.a ++ q.a.drop minLen, by
    rw [foldl_range_modify]
    simp [p.a_ne_nil]⟩

instance : Add (Polynomial F) := ⟨add⟩

/-- `Sub for &Polynomial` (`univariate.rs:301-321`): the common coefficients subtracted,
then the rest of the first operand and the negated rest of the second. -/
def sub (p q : Polynomial F) : Polynomial F :=
  let minLen := min p.a.length q.a.length
  withCoefficients (List.zipWith (· - ·) p.a q.a ++ p.a.drop minLen ++ (q.a.drop minLen).map (-·))

instance : Sub (Polynomial F) := ⟨sub⟩

/-- `SubAssign<&Polynomial>` (`univariate.rs:333-349`): the common coefficients
subtracted, then the negated rest of the second operand appended. -/
def subAssign (p q : Polynomial F) : Polynomial F :=
  let minLen := min p.a.length q.a.length
  ⟨(List.range minLen).foldl (fun a i => a.modify i (· - q.a.getD i 0)) p.a ++
    (q.a.drop minLen).map (-·), by
    rw [foldl_range_modify]
    simp [p.a_ne_nil]⟩

/-- `Mul<&F> for &Polynomial` (`univariate.rs:490-502`): each coefficient times the
scalar, pushed in order. -/
def mulScalar (p : Polynomial F) (scalar : F) : Polynomial F :=
  withCoefficients (p.a.map (· * scalar))

theorem mulAssign_eq_mul (p q : Polynomial F) : p.mulAssign q = p * q := by
  show p.mulAssign q = withCoefficients (mulCoefficients p.a q.a)
  exact ext_a (withCoefficients_a (mulCoefficients_ne_nil p.a_ne_nil q.a_ne_nil)).symm

@[simp] theorem size_mul (p q : Polynomial F) : (p * q).size = p.size + q.size - 1 := by
  rw [← mulAssign_eq_mul]
  exact (mulCoefficients_spec p.a_ne_nil q.a_ne_nil).1

@[simp] theorem toPoly_mul (p q : Polynomial F) : (p * q).toPoly = p.toPoly * q.toPoly := by
  rw [← mulAssign_eq_mul]
  exact (mulCoefficients_spec p.a_ne_nil q.a_ne_nil).2

theorem mulAssignScalar_a (p : Polynomial F) (scalar : F) :
    (p.mulAssignScalar scalar).a = p.a.map (· * scalar) := by
  show (List.range p.a.length).foldl (fun a i => a.modify i (· * scalar)) p.a = _
  rw [foldl_range_modify]
  apply List.ext_getElem
  · simp
  · intro i h₁ _
    simp only [List.getElem_mapIdx, List.getElem_map]
    rw [if_pos (by simpa using h₁)]

@[simp] theorem size_mulAssignScalar (p : Polynomial F) (scalar : F) :
    (p.mulAssignScalar scalar).size = p.size := by
  simp [size, mulAssignScalar_a]

@[simp] theorem toPoly_mulAssignScalar (p : Polynomial F) (scalar : F) :
    (p.mulAssignScalar scalar).toPoly = p.toPoly * C scalar := by
  ext k
  rw [coeff_mul_C, coeff_toPoly, coeff_toPoly, mulAssignScalar_a]
  simp only [List.getD_eq_getElem?_getD, List.getElem?_map]
  cases p.a[k]? <;> simp

theorem addAssign_getD (p q : Polynomial F) (k : ℕ) :
    (p.addAssign q).a.getD k 0 = p.a.getD k 0 + q.a.getD k 0 := by
  show ((List.range (min p.a.length q.a.length)).foldl (fun a i => a.modify i (· + q.a.getD i 0))
    p.a ++ q.a.drop (min p.a.length q.a.length)).getD k 0 = _
  rw [foldl_range_modify]
  simp only [List.getD_eq_getElem?_getD, List.getElem?_append, List.length_mapIdx,
    List.getElem?_mapIdx, List.getElem?_drop]
  -- Below the first summand's end both are read; past it, only the second.
  by_cases hk : k < p.a.length
  · simp only [hk, if_true, List.getElem?_eq_getElem hk, Option.map_some, Option.getD_some]
    by_cases hq : k < q.a.length
    · simp [List.getElem?_eq_getElem hq, show k < min p.a.length q.a.length by omega]
    · simp [List.getElem?_eq_none (not_lt.mp hq), show ¬ k < min p.a.length q.a.length by omega]
  · simp only [hk, if_false, List.getElem?_eq_none (not_lt.mp hk), Option.getD_none, zero_add]
    by_cases hle : p.a.length ≤ q.a.length
    · congr 2
      omega
    · rw [List.getElem?_eq_none (by omega), List.getElem?_eq_none (by omega)]

@[simp] theorem size_addAssign (p q : Polynomial F) :
    (p.addAssign q).size = max p.size q.size := by
  simp only [size, addAssign, List.length_append, List.length_drop]
  rw [foldl_range_modify, List.length_mapIdx]
  omega

@[simp] theorem toPoly_addAssign (p q : Polynomial F) :
    (p.addAssign q).toPoly = p.toPoly + q.toPoly := by
  ext k
  rw [coeff_add, coeff_toPoly, coeff_toPoly, coeff_toPoly, addAssign_getD]

@[simp] theorem toPoly_withCoefficients {a : List F} (h : a ≠ []) :
    (withCoefficients a).toPoly = listPoly a := by
  rw [toPoly, withCoefficients_a h]

@[simp] theorem size_withCoefficients {a : List F} (h : a ≠ []) :
    (withCoefficients a).size = a.length := by
  rw [size, withCoefficients_a h]

@[simp] theorem toPoly_default : (default : Polynomial F).toPoly = 0 := by
  ext k
  show (listPoly (List.replicate 1 0)).coeff k = _
  rw [coeff_listPoly]
  cases k <;> simp

@[simp] theorem size_default : (default : Polynomial F).size = 1 := rfl

/-! ## Sums and differences -/

/-- The coefficients of a vector built by the loops of `Add` and `Sub`: the common part
combined by `f`, then the rest of the longer operand, mapped by `g` when it is the
second. -/
theorem getD_zipWith_append_drop (f : F → F → F) (g : F → F) (hf : ∀ a, f a 0 = a)
    (hg : ∀ b, f 0 b = g b) (a b : List F) (k : ℕ) :
    (List.zipWith f a b ++ a.drop (min a.length b.length) ++
      (b.drop (min a.length b.length)).map g).getD k 0 = f (a.getD k 0) (b.getD k 0) := by
  simp only [List.getD_eq_getElem?_getD, List.append_assoc, List.getElem?_append,
    List.length_zipWith, List.getElem?_zipWith, List.length_drop, List.getElem?_drop,
    List.getElem?_map]
  set m := min a.length b.length with hm
  by_cases hk : k < m
  · -- the common part, combined by `f`
    have ha : k < a.length := lt_of_lt_of_le hk (min_le_left _ _)
    have hb : k < b.length := lt_of_lt_of_le hk (min_le_right _ _)
    simp [hk, List.getElem?_eq_getElem ha, List.getElem?_eq_getElem hb]
  by_cases ha : k < a.length
  · -- the rest of the first operand, where the second has no coefficient
    have hb : b.length ≤ k := by omega
    have hrest : k - m < a.length - m := by omega
    simp [hk, hrest, show m + (k - m) = k by omega, List.getElem?_eq_none hb, hf]
  · -- past the first operand: what is left is the rest of the second, mapped by `g`
    have hrest : ¬ k - m < a.length - m := by omega
    rw [List.getElem?_eq_none (not_lt.mp ha)]
    by_cases hb : k < b.length
    · have hidx : m + (k - m - (a.length - m)) = k := by omega
      simp [hk, hrest, hidx, List.getElem?_eq_getElem hb, hg]
    · have hpast : b.length ≤ m + (k - m - (a.length - m)) := by omega
      simp [hk, hrest, List.getElem?_eq_none hpast, List.getElem?_eq_none (not_lt.mp hb), hf]

omit [Field F] in
theorem length_zipWith_append_drop (f : F → F → F) (g : F → F) (a b : List F) :
    (List.zipWith f a b ++ a.drop (min a.length b.length) ++
      (b.drop (min a.length b.length)).map g).length = max a.length b.length := by
  simp only [List.length_append, List.length_zipWith, List.length_drop, List.length_map]
  omega

omit [Field F] in
theorem zipWith_append_drop_ne_nil (f : F → F → F) (g : F → F) (p q : Polynomial F) :
    List.zipWith f p.a q.a ++ p.a.drop (min p.a.length q.a.length) ++
      (q.a.drop (min p.a.length q.a.length)).map g ≠ [] := by
  rw [← List.length_pos_iff, length_zipWith_append_drop]
  exact lt_max_of_lt_left p.size_pos

theorem add_a (p q : Polynomial F) :
    (p + q).a = List.zipWith (· + ·) p.a q.a ++ p.a.drop (min p.a.length q.a.length) ++
      (q.a.drop (min p.a.length q.a.length)).map id := by
  rw [List.map_id]
  exact withCoefficients_a (by simpa using zipWith_append_drop_ne_nil (· + ·) id p q)

theorem sub_a (p q : Polynomial F) :
    (p - q).a = List.zipWith (· - ·) p.a q.a ++ p.a.drop (min p.a.length q.a.length) ++
      (q.a.drop (min p.a.length q.a.length)).map (-·) :=
  withCoefficients_a (zipWith_append_drop_ne_nil (· - ·) (-·) p q)

theorem getD_add (p q : Polynomial F) (k : ℕ) :
    (p + q).a.getD k 0 = p.a.getD k 0 + q.a.getD k 0 := by
  rw [add_a, getD_zipWith_append_drop _ _ add_zero (fun b => zero_add b)]

theorem getD_sub (p q : Polynomial F) (k : ℕ) :
    (p - q).a.getD k 0 = p.a.getD k 0 - q.a.getD k 0 := by
  rw [sub_a, getD_zipWith_append_drop _ _ sub_zero (fun b => zero_sub b)]

@[simp] theorem size_add (p q : Polynomial F) : (p + q).size = max p.size q.size := by
  rw [size, add_a, length_zipWith_append_drop]
  rfl

@[simp] theorem size_sub (p q : Polynomial F) : (p - q).size = max p.size q.size := by
  rw [size, sub_a, length_zipWith_append_drop]
  rfl

theorem subAssign_getD (p q : Polynomial F) (k : ℕ) :
    (p.subAssign q).a.getD k 0 = p.a.getD k 0 - q.a.getD k 0 := by
  show ((List.range (min p.a.length q.a.length)).foldl (fun a i => a.modify i (· - q.a.getD i 0))
    p.a ++ (q.a.drop (min p.a.length q.a.length)).map (-·)).getD k 0 = _
  rw [foldl_range_modify]
  simp only [List.getD_eq_getElem?_getD, List.getElem?_append, List.length_mapIdx,
    List.getElem?_mapIdx, List.getElem?_map, List.getElem?_drop]
  -- Below the first operand's end both are read; past it, only the negated second.
  by_cases hk : k < p.a.length
  · simp only [hk, if_true, List.getElem?_eq_getElem hk, Option.map_some, Option.getD_some]
    by_cases hq : k < q.a.length
    · simp [List.getElem?_eq_getElem hq, show k < min p.a.length q.a.length by omega]
    · simp [List.getElem?_eq_none (not_lt.mp hq), show ¬ k < min p.a.length q.a.length by omega]
  · simp only [hk, if_false, List.getElem?_eq_none (not_lt.mp hk), Option.getD_none, zero_sub]
    by_cases hle : p.a.length ≤ q.a.length
    · rw [show min p.a.length q.a.length + (k - p.a.length) = k by omega]
      cases q.a[k]? <;> simp
    · rw [List.getElem?_eq_none (by omega), List.getElem?_eq_none (by omega)]
      simp

@[simp] theorem size_subAssign (p q : Polynomial F) :
    (p.subAssign q).size = max p.size q.size := by
  simp only [size, subAssign, List.length_append, List.length_map, List.length_drop]
  rw [foldl_range_modify, List.length_mapIdx]
  omega

/-- `p += q` is `p + q`. -/
theorem addAssign_eq_add (p q : Polynomial F) : p.addAssign q = p + q :=
  ext_iff_getD.mpr ⟨by rw [size_addAssign, size_add], fun k _ => by rw [addAssign_getD, getD_add]⟩

/-- `p -= q` is `p - q`. -/
theorem subAssign_eq_sub (p q : Polynomial F) : p.subAssign q = p - q :=
  ext_iff_getD.mpr ⟨by rw [size_subAssign, size_sub], fun k _ => by rw [subAssign_getD, getD_sub]⟩

@[simp] theorem toPoly_add (p q : Polynomial F) : (p + q).toPoly = p.toPoly + q.toPoly := by
  ext k
  rw [coeff_add, coeff_toPoly, coeff_toPoly, coeff_toPoly, getD_add]

@[simp] theorem toPoly_sub (p q : Polynomial F) : (p - q).toPoly = p.toPoly - q.toPoly := by
  ext k
  rw [coeff_sub, coeff_toPoly, coeff_toPoly, coeff_toPoly, getD_sub]

theorem mulScalar_a (p : Polynomial F) (scalar : F) : (p.mulScalar scalar).a = p.a.map (· * scalar) :=
  withCoefficients_a (by simpa using p.a_ne_nil)

@[simp] theorem toPoly_mulScalar (p : Polynomial F) (scalar : F) :
    (p.mulScalar scalar).toPoly = p.toPoly * C scalar := by
  ext k
  rw [coeff_mul_C, coeff_toPoly, coeff_toPoly, mulScalar_a]
  simp only [List.getD_eq_getElem?_getD, List.getElem?_map]
  cases p.a[k]? <;> simp

/-! ## Evaluation of the operators -/

theorem eval_add (p q : Polynomial F) (x : F) : (p + q).eval x = p.eval x + q.eval x := by
  rw [← eval_toPoly, toPoly_add]
  simp [eval_toPoly]

theorem eval_sub (p q : Polynomial F) (x : F) : (p - q).eval x = p.eval x - q.eval x := by
  rw [← eval_toPoly, toPoly_sub]
  simp [eval_toPoly]

theorem eval_mul (p q : Polynomial F) (x : F) : (p * q).eval x = p.eval x * q.eval x := by
  rw [← eval_toPoly, toPoly_mul]
  simp [eval_toPoly]

theorem eval_mulScalar (p : Polynomial F) (c x : F) : (p.mulScalar c).eval x = c * p.eval x := by
  rw [← eval_toPoly, toPoly_mulScalar]
  simp [eval_toPoly, mul_comm]

end Polynomial

namespace BivariatePolynomial

/-- Evaluating `B(x, ·)` at `y` is `B(x, y)`. -/
theorem eval_evalX (B : BivariatePolynomial F) (x y : F) : (B.evalX x).eval y = B.eval x y := by
  rw [Polynomial.eval_eq, size_evalX, eval_eq, Finset.sum_comm]
  refine Finset.sum_congr rfl fun j hj => ?_
  rw [evalX_a, getD_map_range _ (Finset.mem_range.mp hj), Finset.sum_mul]

/-- Evaluating `B(·, y)` at `x` is `B(x, y)`. -/
theorem eval_evalY (B : BivariatePolynomial F) (x y : F) : (B.evalY y).eval x = B.eval x y := by
  rw [Polynomial.eval_eq, size_evalY, eval_eq]
  refine Finset.sum_congr rfl fun i hi => ?_
  rw [evalY_a, getD_map_range _ (Finset.mem_range.mp hi), Finset.sum_mul]
  exact Finset.sum_congr rfl fun j _ => by ring

end BivariatePolynomial

namespace Polynomial

/-- The arithmetic of the crate's polynomials: every operator evaluates as the operation
on values, the vectors are never trimmed, so sums and differences have as many
coefficients as the longer operand and a product `m + n - 1`, the in-place operators
compute the same polynomials as the others, and a bivariate polynomial evaluates the
same way in either order. -/
theorem polynomial_arithmetic_laws :
    (∀ (p q : Polynomial F) (x : F), (p + q).eval x = p.eval x + q.eval x ∧
      (p - q).eval x = p.eval x - q.eval x ∧ (p * q).eval x = p.eval x * q.eval x) ∧
    (∀ (p : Polynomial F) (c x : F), (p.mulScalar c).eval x = c * p.eval x) ∧
    (∀ p q : Polynomial F, (p + q).size = max p.size q.size ∧ (p - q).size = max p.size q.size ∧
      (p * q).size = p.size + q.size - 1) ∧
    (∀ p q : Polynomial F, p.addAssign q = p + q ∧ p.subAssign q = p - q ∧ p.mulAssign q = p * q) ∧
    (∀ (B : BivariatePolynomial F) (x y : F), (B.evalX x).eval y = B.eval x y ∧
      B.eval x y = (B.evalY y).eval x ∧ (B.evalX x).size = B.degY + 1 ∧
      (B.evalY y).size = B.degX + 1) :=
  ⟨fun p q x => ⟨eval_add p q x, eval_sub p q x, eval_mul p q x⟩, eval_mulScalar,
    fun p q => ⟨size_add p q, size_sub p q, size_mul p q⟩,
    fun p q => ⟨addAssign_eq_add p q, subAssign_eq_sub p q, mulAssign_eq_mul p q⟩,
    fun B x y => ⟨B.eval_evalX x y, (B.eval_evalY x y).symm, B.size_evalX x, B.size_evalY y⟩⟩

end Polynomial

end SecretSharing

end OasisCore
