import Mathlib.Algebra.Field.Rat
import Mathlib.Tactic.NormNum.Basic
import OasisCore.Misc.Commitment
import OasisCore.SecretSharing.Poly

/-!
# Verification vectors and matrices

`VerificationVector` (`vss/vector.rs`) and `VerificationMatrix` (`vss/matrix.rs`):
the commitments `a_i * G` to the coefficients of a polynomial and `b_{i,j} * G` to
those of a bivariate polynomial, and the checks a shareholder runs against them
without seeing the polynomial.

The group is written additively, as a vector space `G` over the scalar field `F`
with generator `generator`; `G * s` of the code is `s • G`, `is_identity` is
`= 0`, and `Choice` is `Bool`. A matrix carries its shape as fields: `rows` rows,
each of `cols` elements. Reading `m[i][j]` in a loop is `elem`, the identity out of
bounds where the code never reads.

Each check is a loop over `powers`; its spec lemma is a sum of commitments, which
`Misc.Commitment` turns into the commitment of a sum.
-/

namespace OasisCore

namespace SecretSharing

/-- `VerificationVector` (`vector.rs:6-29`): `V = [a_i * G]`. -/
structure VerificationVector (G : Type) where
  v : List G

/-- `VerificationMatrix` (`matrix.rs:13-41`): `M = [b_{i,j} * G]`, one row per power
of `x`. -/
structure VerificationMatrix (G : Type) where
  rows : ℕ
  cols : ℕ
  m : List (List G)
  length_m : m.length = rows
  length_mi : ∀ mi ∈ m, mi.length = cols

variable {F G : Type} [Field F] [AddCommGroup G] [Module F G] [DecidableEq G]

namespace VerificationVector

/-- `VerificationVector::new` (`vector.rs:36-39`). -/
def new (v : List G) : VerificationVector G :=
  ⟨v⟩

variable (generator : G)

/-- `From<&Polynomial>` (`vector.rs:76-90`). -/
def ofPolynomial (p : Polynomial F) : VerificationVector G :=
  new (p.a.map fun ai => ai • generator)

/-- `VerificationVector::is_from` (`vector.rs:41-63`); `p.a[i]` is in bounds once the
sizes agree. -/
def isFrom (V : VerificationVector G) (p : Polynomial F) : Bool :=
  -- Short-circuit on the size of the polynomial, not its contents.
  if V.v.length ≠ p.a.length then false
  else
    V.v.zipIdx.foldl (fun verified (vi, i) =>
      verified && decide (p.a.getD i 0 • generator - vi = 0)) true

/-- `VerificationVector::verify` (`vector.rs:65-75`): whether `P(x) = v`. -/
def verify (V : VerificationVector G) (x v : F) : Bool :=
  let diff := v • -generator
  let xpows := powers x (V.v.length - 1)
  decide (xpows.zipIdx.foldl (fun diff (xpow, i) => diff + xpow • V.v.getD i 0) diff = 0)

omit [DecidableEq G] in
theorem getD_map_smul (l : List F) (i : ℕ) :
    (l.map fun a => a • generator).getD i 0 = l.getD i 0 • generator := by
  simp only [List.getD_eq_getElem?_getD, List.getElem?_map]
  cases l[i]? <;> simp

variable {generator}

/-- The commitments to `P` verify exactly the values of `P`. -/
theorem verify_ofPolynomial (hg : generator ≠ 0) (P : Polynomial F) (x v : F) :
    (ofPolynomial generator P).verify generator x v = true ↔ v = P.eval x := by
  unfold verify ofPolynomial new
  simp only [List.length_map, powers_zipIdx, List.foldl_map, foldl_range_add,
    getD_map_smul, sum_smul_smul, decide_eq_true_iff]
  rw [Nat.sub_add_cancel (show 1 ≤ P.a.length from P.size_pos), Polynomial.eval_eq]
  exact smul_neg_add_smul_eq_zero hg _ _

/-- The commitments to `P` are from exactly `P`: the check compares every
coefficient, and the sizes. -/
theorem isFrom_ofPolynomial (hg : generator ≠ 0) (P P' : Polynomial F) :
    (ofPolynomial generator P).isFrom generator P' = true ↔ P' = P := by
  unfold isFrom ofPolynomial new
  dsimp only
  rw [List.length_map]
  by_cases hlen : P.a.length = P'.a.length
  · rw [if_neg (not_not.mpr hlen), zipIdx_eq_map_range _ 0, List.foldl_map, foldl_and_eq_true]
    simp only [List.length_map, List.mem_range, getD_map_smul, decide_eq_true_iff,
      smul_sub_smul_eq_zero hg, true_and]
    constructor
    · intro hcoeff
      apply Polynomial.ext_a
      exact ext_getD 0 hlen.symm fun i hi => hcoeff i (hlen ▸ hi)
    · rintro rfl i _
      rfl
  · rw [if_pos hlen]
    simp only [Bool.false_eq_true, false_iff]
    rintro rfl
    exact hlen rfl

end VerificationVector

namespace VerificationMatrix

/-- `VerificationMatrix::dimensions` (`matrix.rs:48-51`). -/
def dimensions (M : VerificationMatrix G) : ℕ × ℕ :=
  (M.rows, M.cols)

/-- `VerificationMatrix::element` (`matrix.rs:53-56`). -/
def element (M : VerificationMatrix G) (i j : ℕ) : Option G :=
  M.m[i]?.bind (·[j]?)

/-- `m[i][j]`. -/
def elem (M : VerificationMatrix G) (i j : ℕ) : G :=
  (M.element i j).getD 0

/-- `VerificationMatrix::is_zero_hole` (`matrix.rs:58-62`). -/
def isZeroHole (M : VerificationMatrix G) : Bool :=
  decide (M.elem 0 0 = 0)

/-- `VerificationMatrix::verification_vector_for_x` (`matrix.rs:79-95`): the
commitments to `B(·, y)`, row by row. -/
def verificationVectorForX (M : VerificationMatrix G) (y : F) : VerificationVector G :=
  let ypows := powers y (M.cols - 1)
  .new ((List.range M.rows).map fun i =>
    ypows.zipIdx.foldl (fun vi (ypow, j) => vi + ypow • M.elem i j) 0)

/-- `VerificationMatrix::verification_vector_for_y` (`matrix.rs:97-113`): the
commitments to `B(x, ·)`, column by column. -/
def verificationVectorForY (M : VerificationMatrix G) (x : F) : VerificationVector G :=
  let xpows := powers x (M.rows - 1)
  .new ((List.range M.cols).map fun j =>
    xpows.zipIdx.foldl (fun vj (xpow, i) => vj + xpow • M.elem i j) 0)

/-- One element of a sum (`matrix.rs:369-374`): an element that one matrix lacks
counts as the identity. -/
def addEntry (a b : Option G) : G :=
  match a, b with
  | some a, some b => a + b
  | some a, none => a
  | none, some b => b
  | none, none => 0

/-- `Add for &VerificationMatrix` (`matrix.rs:351-384`): the sum, in the larger
shape. -/
def add (M N : VerificationMatrix G) : VerificationMatrix G where
  rows := max M.rows N.rows
  cols := max M.cols N.cols
  m := (List.range (max M.rows N.rows)).map fun i =>
    (List.range (max M.cols N.cols)).map fun j => addEntry (M.element i j) (N.element i j)
  length_m := by simp
  length_mi := by simp

/-- The loops of `AddAssign` (`matrix.rs:406-410`) that add `N` in place. -/
def addInPlace (m : List (List G)) (N : VerificationMatrix G) : List (List G) :=
  (List.range N.rows).foldl (fun m i =>
    (List.range N.cols).foldl (fun m j => m.modify i fun mi => mi.modify j (· + N.elem i j)) m) m

omit [DecidableEq G] in
/-- The in-place loops add `N` to the rows and columns it has. -/
theorem addInPlace_eq (m : List (List G)) (N : VerificationMatrix G) :
    addInPlace m N = m.mapIdx fun i mi =>
      if i < N.rows then mi.mapIdx (fun j a => if j < N.cols then a + N.elem i j else a) else mi := by
  unfold addInPlace
  simp only [foldl_modify_at, foldl_range_modify]

omit [DecidableEq G] in
theorem length_addInPlace (m : List (List G)) (N : VerificationMatrix G) :
    (addInPlace m N).length = m.length := by
  rw [addInPlace_eq, List.length_mapIdx]

omit [DecidableEq G] in
theorem length_of_mem_addInPlace {m : List (List G)} {N : VerificationMatrix G} {c : ℕ}
    (hm : ∀ mi ∈ m, mi.length = c) : ∀ mi ∈ addInPlace m N, mi.length = c := by
  rw [addInPlace_eq]
  intro mi hmi
  obtain ⟨i, hi, rfl⟩ := List.mem_mapIdx.mp hmi
  split
  · rw [List.length_mapIdx]
    exact hm _ (List.getElem_mem hi)
  · exact hm _ (List.getElem_mem hi)

/-- `AddAssign<&VerificationMatrix>` (`matrix.rs:396-412`): the sum when `N` is
larger in some dimension, else `N` added in place. -/
def addAssign (M N : VerificationMatrix G) : VerificationMatrix G :=
  if M.rows < N.rows ∨ M.cols < N.cols then M.add N
  else
    { M with
      m := addInPlace M.m N
      length_m := by rw [length_addInPlace, M.length_m]
      length_mi := length_of_mem_addInPlace M.length_mi }

/-! ### The shape of a matrix -/

section Shape

omit [DecidableEq G]

@[simp] theorem rows_add (M N : VerificationMatrix G) : (M.add N).rows = max M.rows N.rows :=
  rfl

@[simp] theorem cols_add (M N : VerificationMatrix G) : (M.add N).cols = max M.cols N.cols :=
  rfl

omit [AddCommGroup G] in
theorem element_eq_none {M : VerificationMatrix G} {i j : ℕ} (h : M.rows ≤ i ∨ M.cols ≤ j) :
    M.element i j = none := by
  unfold element
  rcases h with hi | hj
  · rw [List.getElem?_eq_none (by rw [M.length_m]; exact hi)]
    rfl
  · cases hmi : M.m[i]? with
    | none => rfl
    | some mi =>
      have hlen := M.length_mi mi (List.mem_of_getElem? hmi)
      have hnone : mi[j]? = none := List.getElem?_eq_none (by omega)
      simp [hnone]

theorem elem_eq_zero {M : VerificationMatrix G} {i j : ℕ} (h : M.rows ≤ i ∨ M.cols ≤ j) :
    M.elem i j = 0 := by
  simp [elem, element_eq_none h]

theorem element_eq_some {M : VerificationMatrix G} {i j : ℕ} (hi : i < M.rows) (hj : j < M.cols) :
    M.element i j = some (M.elem i j) := by
  have hi' : i < M.m.length := by rw [M.length_m]; exact hi
  have hj' : j < M.m[i].length := by rw [M.length_mi _ (List.getElem_mem hi')]; exact hj
  simp [elem, element, List.getElem?_eq_getElem hi', List.getElem?_eq_getElem hj']

/-- Matrices of one shape with the same elements are equal. -/
theorem ext_elem {M N : VerificationMatrix G} (hrows : M.rows = N.rows) (hcols : M.cols = N.cols)
    (h : ∀ i j, M.elem i j = N.elem i j) : M = N := by
  obtain ⟨r, c, m, hm, hmi⟩ := M
  obtain ⟨r', c', m', hm', hmi'⟩ := N
  dsimp only at hrows hcols
  subst hrows hcols
  -- Row by row, then element by element, from the elements in the shape.
  have hmm : m = m' := by
    apply List.ext_getElem (hm.trans hm'.symm)
    intro i h₁ h₂
    apply List.ext_getElem ((hmi _ (List.getElem_mem h₁)).trans (hmi' _ (List.getElem_mem h₂)).symm)
    intro j hj₁ hj₂
    have hij := h i j
    simpa [elem, element, List.getElem?_eq_getElem h₁, List.getElem?_eq_getElem h₂,
      List.getElem?_eq_getElem hj₁, List.getElem?_eq_getElem hj₂] using hij
  subst hmm
  rfl

/-- The sum adds element by element, an element outside a matrix counting as the
identity. -/
theorem elem_add (M N : VerificationMatrix G) (i j : ℕ) :
    (M.add N).elem i j = M.elem i j + N.elem i j := by
  by_cases hin : i < max M.rows N.rows ∧ j < max M.cols N.cols
  · have hsum : (M.add N).element i j = some (addEntry (M.element i j) (N.element i j)) := by
      simp [element, add, hin.1, hin.2]
    rw [elem, hsum, Option.getD_some]
    unfold elem
    cases M.element i j <;> cases N.element i j <;> simp [addEntry]
  · rw [elem_eq_zero (M := M.add N) (by simp only [rows_add, cols_add]; omega),
      elem_eq_zero (M := M) (by omega), elem_eq_zero (M := N) (by omega), add_zero]

/-- Adding in place, when `N` is no larger, adds element by element too. -/
theorem elem_addAssign (M N : VerificationMatrix G) (i j : ℕ) :
    (M.addAssign N).elem i j = M.elem i j + N.elem i j := by
  unfold addAssign
  split
  · exact elem_add M N i j
  · rename_i hsmall
    -- Outside `N` its elements are the identity, whichever branch the loops took.
    have hN : ¬ (i < N.rows ∧ j < N.cols) → N.elem i j = 0 := fun h => elem_eq_zero (by omega)
    show ((addInPlace M.m N)[i]?.bind (·[j]?)).getD 0 = (M.m[i]?.bind (·[j]?)).getD 0 + N.elem i j
    rw [addInPlace_eq, List.getElem?_mapIdx]
    cases hmi : M.m[i]? with
    | none =>
      have hi : M.rows ≤ i := by
        rw [← M.length_m]
        exact List.getElem?_eq_none_iff.mp hmi
      simp [hN (by omega)]
    | some mi =>
      have hlen := M.length_mi mi (List.mem_of_getElem? hmi)
      by_cases hi : i < N.rows
      · simp only [Option.map_some, Option.bind_some, hi, if_true, List.getElem?_mapIdx]
        cases hmij : mi[j]? with
        | none =>
          have hj : M.cols ≤ j := by
            rw [← hlen]
            exact List.getElem?_eq_none_iff.mp hmij
          simp [hN (by omega)]
        | some a =>
          by_cases hj : j < N.cols
          · simp [hj]
          · simp [hj, hN (by omega)]
      · simp [hi, hN (by omega)]

/-- `+=` is `+`: in place, the sum keeps the shape of the larger matrix. -/
theorem addAssign_eq_add (M N : VerificationMatrix G) : M.addAssign N = M.add N := by
  by_cases hlarger : M.rows < N.rows ∨ M.cols < N.cols
  · unfold addAssign
    rw [if_pos hlarger]
  · apply ext_elem
    · unfold addAssign
      rw [if_neg hlarger]
      simp only [rows_add]
      omega
    · unfold addAssign
      rw [if_neg hlarger]
      simp only [cols_add]
      omega
    · intro i j
      rw [elem_addAssign, elem_add]

end Shape

variable (generator : G)

/-- `From<&BivariatePolynomial>` (`matrix.rs:282-303`). -/
def ofBivariate (B : BivariatePolynomial F) : VerificationMatrix G where
  rows := B.degX + 1
  cols := B.degY + 1
  m := B.b.map fun bi => bi.map fun bij => bij • generator
  length_m := by simp [B.length_b]
  length_mi := by
    intro mi hmi
    obtain ⟨bi, hbi, rfl⟩ := List.mem_map.mp hmi
    simp [B.length_bi bi hbi]

/-- `VerificationMatrix::verify` (`matrix.rs:64-77`): whether `B(x, y) = v`. -/
def verify (M : VerificationMatrix G) (x y v : F) : Bool :=
  let diff := v • -generator
  let xpows := powers x (M.rows - 1)
  let ypows := powers y (M.cols - 1)
  decide (xpows.zipIdx.foldl (fun diff (xpow, i) =>
    ypows.zipIdx.foldl (fun diff (ypow, j) => diff + (xpow * ypow) • M.elem i j) diff) diff = 0)

/-- `VerificationMatrix::verify_x` (`matrix.rs:115-156`): whether `polynomial` is
`B(x, ·)`; the coefficient is in bounds once the size matches. -/
def verifyX (M : VerificationMatrix G) (x : F) (polynomial : Polynomial F) : Bool :=
  -- Short-circuit on the size of the polynomial, not its contents.
  if polynomial.size ≠ M.cols then false
  else
    let xpows := powers x (M.rows - 1)
    (List.range M.cols).foldl (fun verified j =>
      let aj := (polynomial.coefficient j).getD 0
      let diff := xpows.zipIdx.foldl (fun diff (xpow, i) => diff - xpow • M.elem i j)
        (aj • generator)
      verified && decide (diff = 0)) true

/-- `VerificationMatrix::verify_y` (`matrix.rs:158-204`): whether `polynomial` is
`B(·, y)`. -/
def verifyY (M : VerificationMatrix G) (y : F) (polynomial : Polynomial F) : Bool :=
  -- Short-circuit on the size of the polynomial, not its contents.
  if polynomial.size ≠ M.rows then false
  else
    let ypows := powers y (M.cols - 1)
    (List.range M.rows).foldl (fun verified i =>
      let ai := (polynomial.coefficient i).getD 0
      let diff := ypows.zipIdx.foldl (fun diff (ypow, j) => diff - ypow • M.elem i j)
        (ai • generator)
      verified && decide (diff = 0)) true

/-! ### The checks against the commitments to a polynomial -/

omit [DecidableEq G] in
@[simp] theorem rows_ofBivariate (B : BivariatePolynomial F) :
    (ofBivariate generator B).rows = B.degX + 1 :=
  rfl

omit [DecidableEq G] in
@[simp] theorem cols_ofBivariate (B : BivariatePolynomial F) :
    (ofBivariate generator B).cols = B.degY + 1 :=
  rfl

omit [DecidableEq G] in
/-- Element `(i, j)` commits to `b_{i,j}`, and is the identity outside the shape. -/
@[simp] theorem elem_ofBivariate (B : BivariatePolynomial F) (i j : ℕ) :
    (ofBivariate generator B).elem i j = B.coeff i j • generator := by
  unfold elem element BivariatePolynomial.coeff BivariatePolynomial.coefficient
  simp only [ofBivariate, List.getElem?_map]
  cases B.b[i]? with
  | none => simp
  | some bi =>
    simp only [Option.map_some, Option.bind_some, List.getElem?_map]
    cases bi[j]? <;> simp

variable {generator}

/-- The commitments to `B` verify exactly the values of `B`. -/
theorem verify_ofBivariate (hg : generator ≠ 0) (B : BivariatePolynomial F) (x y v : F) :
    (ofBivariate generator B).verify generator x y v = true ↔ v = B.eval x y := by
  unfold verify
  simp only [rows_ofBivariate, cols_ofBivariate, Nat.add_sub_cancel, powers_zipIdx,
    List.foldl_map, foldl_range_add, elem_ofBivariate, sum_smul_smul, decide_eq_true_iff]
  rw [← Finset.sum_smul, smul_neg_add_smul_eq_zero hg, BivariatePolynomial.eval_eq]
  simp only [mul_assoc]

/-- The commitments to `B` accept exactly `B(x, ·)` for `x`: every coefficient is
checked, and the size. -/
theorem verifyX_ofBivariate (hg : generator ≠ 0) (B : BivariatePolynomial F) (x : F)
    (p : Polynomial F) :
    (ofBivariate generator B).verifyX generator x p = true ↔ p = B.evalX x := by
  rw [Polynomial.ext_iff_getD, BivariatePolynomial.size_evalX]
  unfold verifyX
  split
  · next hne =>
    have hsize : ¬ p.size = B.degY + 1 := hne
    simp [hsize]
  · next heq =>
    have hsize : p.size = B.degY + 1 := not_not.mp heq
    simp only [foldl_and_eq_true, decide_eq_true_iff]
    simp only [rows_ofBivariate, cols_ofBivariate, Nat.add_sub_cancel, powers_zipIdx,
      List.foldl_map, foldl_range_sub, elem_ofBivariate, sum_smul_smul,
      smul_sub_smul_eq_zero hg, List.mem_range, Polynomial.coefficient_getD, true_and, hsize,
      BivariatePolynomial.evalX_a]
    constructor
    · intro hcoeff j hj
      rw [hcoeff j hj, getD_map_range _ hj]
    · intro hcoeff j hj
      rw [hcoeff j hj, getD_map_range _ hj]

/-- The commitments to `B` accept exactly `B(·, y)` for `y`. -/
theorem verifyY_ofBivariate (hg : generator ≠ 0) (B : BivariatePolynomial F) (y : F)
    (p : Polynomial F) :
    (ofBivariate generator B).verifyY generator y p = true ↔ p = B.evalY y := by
  rw [Polynomial.ext_iff_getD, BivariatePolynomial.size_evalY]
  unfold verifyY
  split
  · next hne =>
    have hsize : ¬ p.size = B.degX + 1 := hne
    simp [hsize]
  · next heq =>
    have hsize : p.size = B.degX + 1 := not_not.mp heq
    simp only [foldl_and_eq_true, decide_eq_true_iff]
    simp only [rows_ofBivariate, cols_ofBivariate, Nat.add_sub_cancel, powers_zipIdx,
      List.foldl_map, foldl_range_sub, elem_ofBivariate, sum_smul_smul,
      smul_sub_smul_eq_zero hg, List.mem_range, Polynomial.coefficient_getD, true_and, hsize,
      BivariatePolynomial.evalY_a]
    constructor
    · intro hcoeff i hi
      rw [hcoeff i hi, getD_map_range _ hi]
    · intro hcoeff i hi
      rw [hcoeff i hi, getD_map_range _ hi]

variable (generator)

omit [DecidableEq G] in
/-- Row by row, the commitments to `B` fold into the commitments to `B(·, y)`. -/
theorem verificationVectorForX_ofBivariate (B : BivariatePolynomial F) (y : F) :
    (ofBivariate generator B).verificationVectorForX y =
      .ofPolynomial generator (B.evalY y) := by
  unfold verificationVectorForX VerificationVector.ofPolynomial
  rw [BivariatePolynomial.evalY_a, List.map_map]
  simp only [rows_ofBivariate, cols_ofBivariate, Nat.add_sub_cancel, powers_zipIdx,
    List.foldl_map, foldl_range_add, zero_add, elem_ofBivariate, sum_smul_smul]
  rfl

omit [DecidableEq G] in
/-- Column by column, the commitments to `B` fold into the commitments to
`B(x, ·)`. -/
theorem verificationVectorForY_ofBivariate (B : BivariatePolynomial F) (x : F) :
    (ofBivariate generator B).verificationVectorForY x =
      .ofPolynomial generator (B.evalX x) := by
  unfold verificationVectorForY VerificationVector.ofPolynomial
  rw [BivariatePolynomial.evalX_a, List.map_map]
  simp only [rows_ofBivariate, cols_ofBivariate, Nat.add_sub_cancel, powers_zipIdx,
    List.foldl_map, foldl_range_add, zero_add, elem_ofBivariate, sum_smul_smul]
  rfl

omit [DecidableEq G] in
/-- The sum of the commitments to `B₁` and `B₂` commits to their zero-extended sum. -/
theorem add_ofBivariate (B₁ B₂ : BivariatePolynomial F) :
    (ofBivariate generator B₁).add (ofBivariate generator B₂) =
      ofBivariate generator (B₁.paddedSum B₂) := by
  apply ext_elem
  · simp only [rows_add, rows_ofBivariate, BivariatePolynomial.paddedSum]
    omega
  · simp only [cols_add, cols_ofBivariate, BivariatePolynomial.paddedSum]
    omega
  · intro i j
    rw [elem_add, elem_ofBivariate, elem_ofBivariate, elem_ofBivariate,
      BivariatePolynomial.coeff_paddedSum, add_smul]

variable {generator}

/-- The commitments to `B` are a zero hole exactly when `B(0, 0) = 0`. -/
theorem isZeroHole_ofBivariate (hg : generator ≠ 0) (B : BivariatePolynomial F) :
    (ofBivariate generator B).isZeroHole = true ↔ B.eval 0 0 = 0 := by
  unfold isZeroHole
  rw [decide_eq_true_iff, elem_ofBivariate, smul_eq_zero_iff_left hg,
    BivariatePolynomial.eval_zero_zero]

end VerificationMatrix

open VerificationMatrix in
/-- The commitments to a bivariate polynomial `B` over a group of prime order,
with any generator: each check holds exactly for the evaluations of `B`, the
vectors a matrix folds into commit to the partial evaluations, the checks of a
vector's polynomial are exact, sums of commitments commit to the zero-extended
sum, and the matrix is a zero hole exactly when `B(0, 0) = 0`. -/
theorem verificationMatrix_checks_exact (generator : G) (hg : generator ≠ 0)
    (B : BivariatePolynomial F) :
    (∀ x y v, (ofBivariate generator B).verify generator x y v = true ↔ v = B.eval x y) ∧
    (∀ x p, (ofBivariate generator B).verifyX generator x p = true ↔ p = B.evalX x) ∧
    (∀ y p, (ofBivariate generator B).verifyY generator y p = true ↔ p = B.evalY y) ∧
    (∀ y, (ofBivariate generator B).verificationVectorForX y =
      .ofPolynomial generator (B.evalY y)) ∧
    (∀ x, (ofBivariate generator B).verificationVectorForY x =
      .ofPolynomial generator (B.evalX x)) ∧
    (∀ (P : Polynomial F) x v,
      (VerificationVector.ofPolynomial generator P).verify generator x v = true ↔ v = P.eval x) ∧
    (∀ P P' : Polynomial F,
      (VerificationVector.ofPolynomial generator P).isFrom generator P' = true ↔ P' = P) ∧
    (∀ B' : BivariatePolynomial F,
      (ofBivariate generator B).add (ofBivariate generator B') =
        ofBivariate generator (B.paddedSum B') ∧
      (ofBivariate generator B).addAssign (ofBivariate generator B') =
        ofBivariate generator (B.paddedSum B')) ∧
    ((ofBivariate generator B).isZeroHole = true ↔ B.eval 0 0 = 0) := by
  refine ⟨verify_ofBivariate hg B, verifyX_ofBivariate hg B, verifyY_ofBivariate hg B,
    verificationVectorForX_ofBivariate generator B, verificationVectorForY_ofBivariate generator B,
    VerificationVector.verify_ofPolynomial hg, VerificationVector.isFrom_ofPolynomial hg,
    fun B' => ⟨add_ofBivariate generator B B', ?_⟩, isZeroHole_ofBivariate hg B⟩
  rw [addAssign_eq_add, add_ofBivariate]

/-- `B(x, y) = 1 + 2y + 3x + 4xy`. -/
def twoByTwo : BivariatePolynomial ℚ where
  degX := 1
  degY := 1
  b := [[1, 2], [3, 4]]
  length_b := rfl
  length_bi := by decide

/-- Committed with generator `1` of the rationals, `B` verifies at `(2, 3)` the value
`B(2, 3) = 37` and not `36`. -/
theorem verify_twoByTwo :
    (VerificationMatrix.ofBivariate (1 : ℚ) twoByTwo).verify 1 (2 : ℚ) 3 37 = true ∧
      (VerificationMatrix.ofBivariate (1 : ℚ) twoByTwo).verify 1 (2 : ℚ) 3 36 ≠ true := by
  have hverify := (verificationMatrix_checks_exact (1 : ℚ) one_ne_zero twoByTwo).1 2 3
  -- `B(2, 3) = 1 + 2·3 + 3·2 + 4·2·3`.
  have heval : twoByTwo.eval 2 3 = 37 := by
    rw [BivariatePolynomial.eval_eq]
    simp [twoByTwo, Finset.sum_range_succ, BivariatePolynomial.coeff,
      BivariatePolynomial.coefficient]
    norm_num
  refine ⟨(hverify 37).mpr heval.symm, fun h36 => ?_⟩
  have h := (hverify 36).mp h36
  rw [heval] at h
  exact absurd h (by decide)

end SecretSharing

end OasisCore
