import Mathlib.Algebra.BigOperators.Group.List.Basic
import OasisCore.Misc.List

/-!
# The product tree of Lagrange interpolation

`Multiplier` (`poly/lagrange/multiplier.rs`): a balanced tree over a list of values,
whose leaves hold the values and whose inner nodes hold the products of their
children. The product of all values but one is read off the path to that value,
multiplying the values of the siblings met on the way down.

The code stores the product of an inner node as an `Option`, `None` at the root
only, and panics if the root's is read. Here the root is a type of its own,
`Root`, beside the `Node` of the levels below, so that every node whose value the
code reads has one.

The tree is correct for any multiplication that a map `f` carries to a commutative
monoid: the products it returns map to the products of the mapped values
(`getProduct_new_map`). With `f` the identity this is the product of the other
values (`getProduct_new`); the interpolation code uses it for field elements and,
through their Mathlib polynomials, for polynomials.
-/

namespace OasisCore

namespace SecretSharing

variable {T : Type}

/-- `Node` (`multiplier.rs:79-85`, `144-161`) below the root: an inner node keeps the
product of its children, the children and the number of leaves under it; a leaf
keeps a value. -/
inductive Node (T : Type) where
  | internal (value : T) (left right : Node T) (size : ℕ)
  | leaf (value : T)

/-- The root: a single leaf, or an inner node that keeps no product. -/
inductive Root (T : Type) where
  | internal (left right : Node T) (size : ℕ)
  | leaf (value : T)

/-- `Multiplier` (`multiplier.rs:10-16`): no root for no values. -/
structure Multiplier (T : Type) where
  root : Option (Root T)

theorem take_half_ne_nil {values : List T} (h : values ≠ []) (h1 : values.length ≠ 1) :
    values.take (values.length / 2) ≠ [] := by
  have hpos : 0 < values.length := List.length_pos_iff.mpr h
  simp only [Ne, List.take_eq_nil_iff, not_or]
  exact ⟨by omega, h⟩

theorem drop_half_ne_nil {values : List T} (h : values ≠ []) :
    values.drop (values.length / 2) ≠ [] := by
  have hpos : 0 < values.length := List.length_pos_iff.mpr h
  rw [Ne, List.drop_eq_nil_iff]
  omega

namespace Node

/-- `Node::get_value` (`multiplier.rs:90-98`). -/
def getValue : Node T → T
  | .internal value .. => value
  | .leaf value => value

/-- `Node::get_size` (`multiplier.rs:100-106`). -/
def getSize : Node T → ℕ
  | .internal _ _ _ size => size
  | .leaf _ => 1

variable [Mul T]

/-- The inner case of `Node::get_product` (`multiplier.rs:113-131`), given how the
children read off their products: down the side of `index`, times the value of the
other child. -/
def internalProduct (left right : Node T) (index : ℕ) (leftProduct rightProduct : ℕ → Option T) :
    Option T :=
  let leftSize := left.getSize
  if index < leftSize then
    match leftProduct index with
    | some value => some (right.getValue * value)
    | none => some right.getValue
  else
    match rightProduct (index - leftSize) with
    | some value => some (left.getValue * value)
    | none => some left.getValue

/-- `Node::get_product` (`multiplier.rs:108-141`): the product of the values under the
node but the one at `index`, or `None` when there is none. -/
def getProduct : Node T → ℕ → Option T
  | .internal _ left right _, index =>
    internalProduct left right index left.getProduct right.getProduct
  | .leaf value, index => if index > 0 then some value else none

/-- `Multiplier::create` (`multiplier.rs:33-63`) below the root: the values split in
the middle. -/
def create (values : List T) (h : values ≠ []) : Node T :=
  if h1 : values.length = 1 then .leaf (values.head h)
  else
    let left := create (values.take (values.length / 2)) (take_half_ne_nil h h1)
    let right := create (values.drop (values.length / 2)) (drop_half_ne_nil h)
    .internal (left.getValue * right.getValue) left right values.length
termination_by values.length
decreasing_by
  all_goals
    have hpos : 0 < values.length := List.length_pos_iff.mpr h
    simp only [List.length_take, List.length_drop]
    omega

end Node

namespace Root

variable [Mul T]

/-- `Multiplier::create` (`multiplier.rs:33-63`) at the root. -/
def create (values : List T) (h : values ≠ []) : Root T :=
  if h1 : values.length = 1 then .leaf (values.head h)
  else
    .internal (Node.create (values.take (values.length / 2)) (take_half_ne_nil h h1))
      (Node.create (values.drop (values.length / 2)) (drop_half_ne_nil h)) values.length

/-- `Node::get_product` (`multiplier.rs:108-141`) at the root. -/
def getProduct : Root T → ℕ → Option T
  | .internal left right _, index =>
    Node.internalProduct left right index left.getProduct right.getProduct
  | .leaf value, index => if index > 0 then some value else none

end Root

namespace Multiplier

variable [Mul T]

/-- `Multiplier::new` (`multiplier.rs:22-31`). -/
def new (values : List T) : Multiplier T :=
  ⟨if h : values = [] then none else some (Root.create values h)⟩

/-- `Multiplier::get_product` (`multiplier.rs:65-74`): the product of all values but
the one at `index`; `None` stands for the empty product. -/
def getProduct (m : Multiplier T) (index : ℕ) : Option T :=
  match m.root with
  | some root => root.getProduct index
  | none => none

end Multiplier

/-! ## What the tree computes -/

section Spec

variable [Mul T] {P : Type} [CommMonoid P] (f : T → P)

/-- The product of the mapped values but the one at `i`, `None` for the empty
product. -/
def othersProduct (values : List T) (i : ℕ) : Option P :=
  if values.length = 1 then none else some ((values.map f).eraseIdx i).prod

/-- `n` is a tree over `values`, read through `f`: it counts them, holds their
product and reads off the products of all values but one. -/
structure Node.Spans (n : Node T) (values : List T) : Prop where
  size : n.getSize = values.length
  value : f n.getValue = (values.map f).prod
  product : ∀ i < values.length, (n.getProduct i).map f = othersProduct f values i

variable {f} (hf : ∀ a b, f (a * b) = f a * f b)
include hf

/-- An inner node over two trees reads off the products over both. -/
theorem internalProduct_spans {left right : Node T} {vl vr values : List T}
    (hl : left.Spans f vl) (hr : right.Spans f vr) (happ : vl ++ vr = values) {i : ℕ}
    (hi : i < values.length) :
    (Node.internalProduct left right i left.getProduct right.getProduct).map f =
      some ((values.map f).eraseIdx i).prod := by
  subst happ
  unfold Node.internalProduct
  rw [hl.size, List.map_append]
  by_cases hlt : i < vl.length
  · have hprod := hl.product i hlt
    rw [if_pos hlt, List.eraseIdx_append_of_lt_length (by simpa using hlt), List.prod_append]
    unfold othersProduct at hprod
    -- Down the left side; the right child contributes its whole product.
    cases hleft : left.getProduct i with
    | none =>
      rw [hleft, Option.map_none] at hprod
      -- Only a single value has no others.
      have h1 : vl.length = 1 := by
        by_contra h1
        rw [if_neg h1] at hprod
        cases hprod
      have hi1 : i < 1 := h1 ▸ hlt
      have hnil : (vl.map f).eraseIdx i = [] := by
        rw [← List.length_eq_zero_iff, List.length_eraseIdx]
        simp [h1, hi1]
      simp [hnil, hr.value]
    | some value =>
      rw [hleft, Option.map_some] at hprod
      have h1 : vl.length ≠ 1 := by
        intro h1
        rw [if_pos h1] at hprod
        cases hprod
      rw [if_neg h1] at hprod
      simp [hf, hr.value, Option.some.inj hprod, mul_comm]
  · have hi' : i - vl.length < vr.length := by
      rw [List.length_append] at hi
      omega
    have hprod := hr.product (i - vl.length) hi'
    rw [if_neg hlt, List.eraseIdx_append_of_length_le (by simpa using hlt), List.prod_append,
      List.length_map]
    unfold othersProduct at hprod
    -- Down the right side; the left child contributes its whole product.
    cases hright : right.getProduct (i - vl.length) with
    | none =>
      rw [hright, Option.map_none] at hprod
      have h1 : vr.length = 1 := by
        by_contra h1
        rw [if_neg h1] at hprod
        cases hprod
      have hi1 : i - vl.length < 1 := h1 ▸ hi'
      have hnil : (vr.map f).eraseIdx (i - vl.length) = [] := by
        rw [← List.length_eq_zero_iff, List.length_eraseIdx]
        simp [h1, hi1]
      simp [hnil, hl.value]
    | some value =>
      rw [hright, Option.map_some] at hprod
      have h1 : vr.length ≠ 1 := by
        intro h1
        rw [if_pos h1] at hprod
        cases hprod
      rw [if_neg h1] at hprod
      simp [hf, hl.value, Option.some.inj hprod]

omit hf in
/-- A leaf over a single value. -/
theorem leaf_spans (v : T) : (Node.leaf v).Spans f [v] where
  size := rfl
  value := by simp [Node.getValue]
  product := by
    intro i hi
    obtain rfl : i = 0 := by simpa using hi
    simp [Node.getProduct, othersProduct]

/-- `create` builds a tree over its values. -/
theorem create_spans : ∀ (values : List T) (h : values ≠ []), (Node.create values h).Spans f values
  | values, h => by
    rw [Node.create]
    split
    · next h1 =>
      obtain ⟨v, rfl⟩ := List.length_eq_one_iff.mp h1
      exact leaf_spans v
    · next h1 =>
      -- The two halves are trees over the values before and after the middle.
      have hl := create_spans (values.take (values.length / 2)) (take_half_ne_nil h h1)
      have hr := create_spans (values.drop (values.length / 2)) (drop_half_ne_nil h)
      have happ := List.take_append_drop (values.length / 2) values
      refine ⟨rfl, ?_, fun i hi => ?_⟩
      · rw [Node.getValue, hf, hl.value, hr.value, ← List.prod_append, ← List.map_append, happ]
      · rw [Node.getProduct, othersProduct, if_neg h1]
        exact internalProduct_spans hf hl hr happ hi
termination_by values => values.length
decreasing_by
  all_goals
    have hpos : 0 < values.length := List.length_pos_iff.mpr h
    simp only [List.length_take, List.length_drop]
    omega

/-- The root reads off the products of all values but one. -/
theorem getProduct_create (values : List T) (h : values ≠ []) {i : ℕ} (hi : i < values.length) :
    ((Root.create values h).getProduct i).map f = othersProduct f values i := by
  unfold Root.create
  split
  · next h1 =>
    obtain ⟨v, rfl⟩ := List.length_eq_one_iff.mp h1
    exact (leaf_spans v).product i hi
  · next h1 =>
    have hl := create_spans hf (values.take (values.length / 2)) (take_half_ne_nil h h1)
    have hr := create_spans hf (values.drop (values.length / 2)) (drop_half_ne_nil h)
    have happ := List.take_append_drop (values.length / 2) values
    rw [Root.getProduct, othersProduct, if_neg h1]
    exact internalProduct_spans hf hl hr happ hi

/-- `get_product` of a multiplier returns, through `f`, the product of the other
values, and `None` only for a single value. -/
theorem getProduct_new_map (values : List T) {i : ℕ} (hi : i < values.length) :
    ((Multiplier.new values).getProduct i).map f = othersProduct f values i := by
  have hne : values ≠ [] := List.ne_nil_of_length_pos (by omega)
  simp only [Multiplier.new, Multiplier.getProduct, hne, dite_false]
  exact getProduct_create hf values hne hi

/-- The numerator the interpolation code takes from a multiplier, `d` standing for
the empty product. -/
theorem map_getD_getProduct_new (values : List T) {i : ℕ} (hi : i < values.length) {d : T}
    (hd : f d = 1) :
    f (((Multiplier.new values).getProduct i).getD d) = ((values.map f).eraseIdx i).prod := by
  have h := getProduct_new_map hf values hi
  unfold othersProduct at h
  cases hprod : (Multiplier.new values).getProduct i with
  | none =>
    rw [hprod, Option.map_none] at h
    -- Only a single value has no others: the product over none is one.
    have h1 : values.length = 1 := by
      by_contra h1
      rw [if_neg h1] at h
      cases h
    have hi1 : i < 1 := h1 ▸ hi
    have hnil : (values.map f).eraseIdx i = [] := by
      rw [← List.length_eq_zero_iff, List.length_eraseIdx]
      simp [h1, hi1]
    rw [Option.getD_none, hd, hnil, List.prod_nil]
  | some value =>
    rw [hprod, Option.map_some] at h
    split at h
    · cases h
    · exact Option.some.inj h

end Spec

/-- `get_product` returns the product of all values but the `i`-th, and `None` exactly
when there is a single value. -/
theorem getProduct_new {T : Type} [CommMonoid T] (values : List T) {i : ℕ} (hi : i < values.length) :
    (Multiplier.new values).getProduct i =
      if values.length = 1 then none else some (values.eraseIdx i).prod := by
  have h := getProduct_new_map (f := id) (fun _ _ => rfl) values hi
  simpa [othersProduct] using h

end SecretSharing

end OasisCore
