import Mathlib.Algebra.GroupWithZero.Nat
import Mathlib.Algebra.Order.BigOperators.Group.Finset
import Mathlib.Data.List.Sort
import Mathlib.Order.Lattice

/-!
# Finite stores

A key-value store whose reads of an absent key answer a default value, as the
state getters of a consensus application do (an unknown account reads as the
empty account, an unknown delegation as zero shares), and as indexing a Go map
does. `FinMap` carries the finite set of its present keys; a present key may
hold the default value, as a Go map entry may, and every absent key reads as
`default`, so that totals over the whole store are finite sums. `set` makes a
key present, `erase` absent.

A walk over the store meets its keys in an order: `sortedKeys` lists them in a
given total order, as a store iterator does, by insertion sort so that a walk
over a concrete store also evaluates in the kernel.

The lemmas are the ones a conservation argument needs: how a total changes when
one entry is written or removed (`sum_set`, `sum_erase`), that one entry is
bounded by the total, and that a total may be taken over any covering set of
keys.
-/

namespace OasisCore

/-- A total map whose present keys are the finite set `keys`; an absent key
reads as `default`. -/
structure FinMap (K V : Type) [Inhabited V] where
  keys : Finset K
  get : K → V
  get_eq_default : ∀ k, k ∉ keys → get k = default

namespace FinMap

variable {K V : Type} [Inhabited V]

/-- The store with no entries. -/
def empty : FinMap K V :=
  ⟨∅, fun _ => default, fun _ _ => rfl⟩

instance : Inhabited (FinMap K V) := ⟨empty⟩

@[simp] theorem get_empty (k : K) : (empty : FinMap K V).get k = default := rfl

@[simp] theorem keys_empty : (empty : FinMap K V).keys = ∅ := rfl

/-- Two stores with the same keys and the same reads are equal. -/
theorem ext {m m' : FinMap K V} (hkeys : m.keys = m'.keys) (hget : ∀ k, m.get k = m'.get k) :
    m = m' := by
  cases m
  cases m'
  cases hkeys
  obtain rfl : _ = _ := funext hget
  rfl

/-- The total of `f` over the entries of the store. -/
def sum (m : FinMap K V) (f : K → V → ℕ) : ℕ :=
  ∑ k ∈ m.keys, f k (m.get k)

theorem sum_empty (f : K → V → ℕ) : (empty : FinMap K V).sum f = 0 := rfl

/-- Totals are additive in the summand. -/
theorem sum_add (f g : K → V → ℕ) (m : FinMap K V) :
    m.sum (fun k v => f k v + g k v) = m.sum f + m.sum g := by
  unfold sum
  exact Finset.sum_add_distrib

/-- A total may be taken over any set of keys that covers the store, provided
`f` gives nothing for a default entry. -/
theorem sum_eq_of_subset (f : K → V → ℕ) (hf : ∀ k, f k default = 0) (m : FinMap K V)
    {s : Finset K} (hs : m.keys ⊆ s) : m.sum f = ∑ k ∈ s, f k (m.get k) := by
  unfold sum
  apply Finset.sum_subset hs
  intro k _ hk
  rw [m.get_eq_default k hk, hf k]

/-- One entry is bounded by the total. -/
theorem le_sum (f : K → V → ℕ) (hf : ∀ k, f k default = 0) (m : FinMap K V) (k : K) :
    f k (m.get k) ≤ m.sum f := by
  by_cases hk : k ∈ m.keys
  · exact Finset.single_le_sum (f := fun x => f x (m.get x)) (fun _ _ => Nat.zero_le _) hk
  · rw [m.get_eq_default k hk, hf k]
    exact Nat.zero_le _

/-- The order laws that `sortedKeys (· ≤ ·)` asks of a linear order, as instances whose
terms are the same wherever keys are sorted. -/
instance (priority := high) isTrans_le {α : Type} [LinearOrder α] : IsTrans α (· ≤ ·) :=
  ⟨fun _ _ _ => le_trans⟩

/-- Antisymmetry of `≤`, for `sortedKeys`. -/
instance (priority := high) antisymm_le {α : Type} [LinearOrder α] : Std.Antisymm (α := α) (· ≤ ·) :=
  ⟨fun _ _ => le_antisymm⟩

/-- Totality of `≤`, for `sortedKeys`. -/
instance (priority := high) total_le {α : Type} [LinearOrder α] : Std.Total (α := α) (· ≤ ·) :=
  ⟨le_total⟩

section Order

variable (r : K → K → Prop) [DecidableRel r] [IsTrans K r] [Std.Antisymm r] [Std.Total r]

/-- The elements of `s` in the order `r`. A multiset has one sorted list, so the
insertion sort of any list of its elements is it. -/
def sortedElems (s : Finset K) : List K :=
  Quot.liftOn s.val (List.insertionSort r) fun _ _ h =>
    ((List.perm_insertionSort r _).trans (h.trans (List.perm_insertionSort r _).symm)).eq_of_pairwise'
      (List.pairwise_insertionSort r _) (List.pairwise_insertionSort r _)

theorem sortedElems_perm (s : Finset K) : (sortedElems r s : Multiset K) = s.val := by
  obtain ⟨s, _⟩ := s
  induction s using Quot.inductionOn with
  | h l => exact Quot.sound (List.perm_insertionSort r l)

theorem mem_sortedElems {s : Finset K} {k : K} : k ∈ sortedElems r s ↔ k ∈ s := by
  rw [← Multiset.mem_coe, sortedElems_perm]
  rfl

theorem nodup_sortedElems (s : Finset K) : (sortedElems r s).Nodup := by
  rw [← Multiset.coe_nodup, sortedElems_perm]
  exact s.nodup

theorem pairwise_sortedElems (s : Finset K) : (sortedElems r s).Pairwise r := by
  obtain ⟨s, _⟩ := s
  induction s using Quot.inductionOn with
  | h l => exact List.pairwise_insertionSort r l

/-- The present keys in the order `r`. -/
def sortedKeys (m : FinMap K V) : List K :=
  sortedElems r m.keys

end Order

/-- Keep the entries whose key satisfies `p`: a loop that deletes the others. -/
def filter (p : K → Prop) [DecidablePred p] (m : FinMap K V) : FinMap K V where
  keys := m.keys.filter p
  get := fun k => if p k then m.get k else default
  get_eq_default := by
    intro k hk
    by_cases hp : p k
    · simp only [hp, if_true]
      exact m.get_eq_default k (fun h => hk (Finset.mem_filter.mpr ⟨h, hp⟩))
    · simp only [hp, if_false]

@[simp] theorem get_filter (p : K → Prop) [DecidablePred p] (m : FinMap K V) (k : K) :
    (m.filter p).get k = if p k then m.get k else default := rfl

@[simp] theorem keys_filter (p : K → Prop) [DecidablePred p] (m : FinMap K V) :
    (m.filter p).keys = m.keys.filter p := rfl

/-- The store of the images of the entries under `f`, a map that keeps the default. -/
def map {W : Type} [Inhabited W] (f : V → W) (hf : f default = default) (m : FinMap K V) :
    FinMap K W where
  keys := m.keys
  get := fun k => f (m.get k)
  get_eq_default := fun k hk => by rw [m.get_eq_default k hk, hf]

@[simp] theorem keys_map {W : Type} [Inhabited W] (f : V → W) (hf : f default = default)
    (m : FinMap K V) : (m.map f hf).keys = m.keys := rfl

@[simp] theorem get_map {W : Type} [Inhabited W] (f : V → W) (hf : f default = default)
    (m : FinMap K V) (k : K) : (m.map f hf).get k = f (m.get k) := rfl

variable [DecidableEq K]

/-- Write `v` at `k`. -/
def set (m : FinMap K V) (k : K) (v : V) : FinMap K V where
  keys := insert k m.keys
  get := fun k' => if k' = k then v else m.get k'
  get_eq_default := by
    intro k' hk'
    have hne : k' ≠ k := fun h => hk' (h ▸ Finset.mem_insert_self k m.keys)
    have hold : k' ∉ m.keys := fun h => hk' (Finset.mem_insert_of_mem h)
    simp only [hne, if_false]
    exact m.get_eq_default k' hold

@[simp] theorem get_set (m : FinMap K V) (k k' : K) (v : V) :
    (m.set k v).get k' = if k' = k then v else m.get k' := rfl

theorem get_set_self (m : FinMap K V) (k : K) (v : V) : (m.set k v).get k = v := by
  simp

theorem get_set_ne (m : FinMap K V) {k k' : K} (v : V) (h : k' ≠ k) :
    (m.set k v).get k' = m.get k' := by
  simp [h]

@[simp] theorem keys_set (m : FinMap K V) (k : K) (v : V) :
    (m.set k v).keys = insert k m.keys := rfl

/-- Remove `k`: Go's `delete`, or a store's `Remove`. -/
def erase (m : FinMap K V) (k : K) : FinMap K V where
  keys := m.keys.erase k
  get := fun k' => if k' = k then default else m.get k'
  get_eq_default := by
    intro k' hk'
    by_cases hk : k' = k
    · simp only [hk, if_true]
    · simp only [hk, if_false]
      exact m.get_eq_default k' (fun h => hk' (Finset.mem_erase.mpr ⟨hk, h⟩))

@[simp] theorem get_erase (m : FinMap K V) (k k' : K) :
    (m.erase k).get k' = if k' = k then default else m.get k' := rfl

theorem get_erase_ne (m : FinMap K V) {k k' : K} (h : k' ≠ k) : (m.erase k).get k' = m.get k' := by
  simp [h]

@[simp] theorem keys_erase (m : FinMap K V) (k : K) : (m.erase k).keys = m.keys.erase k := rfl

/-- Writing back the entry of a present key changes nothing. -/
theorem set_get_of_mem {m : FinMap K V} {k : K} (hk : k ∈ m.keys) : m.set k (m.get k) = m := by
  apply ext
  · simp [hk]
  · intro k'
    by_cases hk' : k' = k <;> simp [hk']

/-- Writes to two different keys commute. -/
theorem set_comm (m : FinMap K V) {k k' : K} (h : k ≠ k') (v v' : V) :
    (m.set k v).set k' v' = (m.set k' v').set k v := by
  apply ext
  · simp [Finset.insert_comm]
  · intro x
    by_cases hx : x = k'
    · subst hx
      simp [Ne.symm h]
    · simp [hx]

/-- Go's two-value map read `v, ok := m[k]`: the entry of a present key, none for an
absent one. -/
def lookup (m : FinMap K V) (k : K) : Option V :=
  if k ∈ m.keys then some (m.get k) else none

@[simp] theorem lookup_empty (k : K) : (empty : FinMap K V).lookup k = none := by
  simp [lookup]

theorem lookup_eq_some {m : FinMap K V} {k : K} {v : V} :
    m.lookup k = some v ↔ k ∈ m.keys ∧ m.get k = v := by
  unfold lookup
  by_cases hk : k ∈ m.keys <;> simp [hk]

theorem lookup_eq_none {m : FinMap K V} {k : K} : m.lookup k = none ↔ k ∉ m.keys := by
  unfold lookup
  by_cases hk : k ∈ m.keys <;> simp [hk]

theorem mem_keys_of_lookup_eq_some {m : FinMap K V} {k : K} {v : V} (h : m.lookup k = some v) :
    k ∈ m.keys :=
  (lookup_eq_some.mp h).1

@[simp] theorem lookup_set (m : FinMap K V) (k k' : K) (v : V) :
    (m.set k v).lookup k' = if k' = k then some v else m.lookup k' := by
  by_cases hk : k' = k <;> simp [lookup, hk]

section Sum

variable (f : K → V → ℕ)

/-- Writing one entry changes a total by the new entry minus the old one, stated
without subtraction. -/
theorem sum_set (hf : ∀ k, f k default = 0) (m : FinMap K V) (k : K) (v : V) :
    (m.set k v).sum f + f k (m.get k) = m.sum f + f k v := by
  have hsub : m.keys ⊆ insert k m.keys := Finset.subset_insert k m.keys
  rw [sum_eq_of_subset f hf m hsub]
  unfold sum
  rw [keys_set, ← Finset.add_sum_erase _ _ (Finset.mem_insert_self k m.keys),
    ← Finset.add_sum_erase _ _ (Finset.mem_insert_self k m.keys)]
  have hrest : ∑ x ∈ (insert k m.keys).erase k, f x ((m.set k v).get x) =
      ∑ x ∈ (insert k m.keys).erase k, f x (m.get x) := by
    apply Finset.sum_congr rfl
    intro x hx
    rw [get_set_ne m v (Finset.ne_of_mem_erase hx)]
  rw [hrest, get_set_self]
  omega

/-- Writing an entry that `f` does not see leaves the total unchanged. -/
theorem sum_set_of_eq (hf : ∀ k, f k default = 0) (m : FinMap K V) (k : K) (v : V)
    (hv : f k v = f k (m.get k)) : (m.set k v).sum f = m.sum f := by
  have := sum_set f hf m k v
  omega

/-- Changing the summand at one key changes a total by the change at that key,
stated without subtraction. -/
theorem sum_update (g : K → V → ℕ) (hf : ∀ k, f k default = 0) (hg : ∀ k, g k default = 0)
    (m : FinMap K V) (k : K) (hfg : ∀ k', k' ≠ k → f k' = g k') :
    m.sum f + g k (m.get k) = m.sum g + f k (m.get k) := by
  unfold sum
  by_cases hk : k ∈ m.keys
  · rw [← Finset.add_sum_erase _ _ hk, ← Finset.add_sum_erase _ _ hk]
    have hrest : ∑ x ∈ m.keys.erase k, f x (m.get x) = ∑ x ∈ m.keys.erase k, g x (m.get x) := by
      apply Finset.sum_congr rfl
      intro x hx
      rw [hfg x (Finset.ne_of_mem_erase hx)]
    omega
  · have hrest : ∑ x ∈ m.keys, f x (m.get x) = ∑ x ∈ m.keys, g x (m.get x) := by
      apply Finset.sum_congr rfl
      intro x hx
      rw [hfg x (fun h => hk (h ▸ hx))]
    rw [hrest, m.get_eq_default k hk, hf, hg]

/-- Removing one entry lowers a total by that entry. -/
theorem sum_erase (hf : ∀ k, f k default = 0) (m : FinMap K V) (k : K) :
    (m.erase k).sum f + f k (m.get k) = m.sum f := by
  rw [sum_eq_of_subset f hf m (Finset.subset_insert k m.keys)]
  unfold sum
  rw [← Finset.add_sum_erase _ _ (Finset.mem_insert_self k m.keys), Finset.erase_insert_eq_erase,
    keys_erase]
  have hrest : ∑ x ∈ m.keys.erase k, f x ((m.erase k).get x) =
      ∑ x ∈ m.keys.erase k, f x (m.get x) := by
    apply Finset.sum_congr rfl
    intro x hx
    rw [get_erase_ne m (Finset.ne_of_mem_erase hx)]
  omega

/-- Two entries are bounded by the total. -/
theorem add_le_sum (hf : ∀ k, f k default = 0) (m : FinMap K V) {k k' : K}
    (hne : k ≠ k') : f k (m.get k) + f k' (m.get k') ≤ m.sum f := by
  rw [m.sum_eq_of_subset f hf (Finset.subset_union_left : m.keys ⊆ m.keys ∪ {k, k'})]
  calc f k (m.get k) + f k' (m.get k')
      = ∑ x ∈ {k, k'}, f x (m.get x) := (Finset.sum_pair (f := fun x => f x (m.get x)) hne).symm
    _ ≤ ∑ x ∈ m.keys ∪ {k, k'}, f x (m.get x) :=
      Finset.sum_le_sum_of_subset Finset.subset_union_right

end Sum

end FinMap

/-- An iteration order of Go maps: an enumeration of every finite key set that lists
each key once. Go leaves the order unspecified, so what holds for every
`IterOrder` holds for the order of any run. -/
structure IterOrder (K : Type) where
  enum : Finset K → List K
  nodup_enum : ∀ s, (enum s).Nodup
  mem_enum : ∀ s k, k ∈ enum s ↔ k ∈ s

namespace IterOrder

variable {K : Type}

/-- A walk over every key adds up the set's sum. -/
theorem sum_map_enum [DecidableEq K] {M : Type} [AddCommMonoid M] (o : IterOrder K)
    (s : Finset K) (f : K → M) : ((o.enum s).map f).sum = ∑ k ∈ s, f k := by
  have hset : (o.enum s).toFinset = s := by
    ext k
    simp [o.mem_enum]
  rw [← List.sum_toFinset f (o.nodup_enum s), hset]

/-- The walk in the order of a total order `r`. -/
def sorted (r : K → K → Prop) [DecidableRel r] [IsTrans K r] [Std.Antisymm r] [Std.Total r] :
    IterOrder K :=
  ⟨FinMap.sortedElems r, FinMap.nodup_sortedElems r, fun _ _ => FinMap.mem_sortedElems r⟩

/-- The walk in the order of a list of all keys, each once. -/
def ofList [DecidableEq K] (l : List K) (hnodup : l.Nodup) (hall : ∀ k, k ∈ l) : IterOrder K :=
  ⟨fun s => l.filter (· ∈ s), fun _ => hnodup.filter _, fun s k => by simp [hall]⟩

end IterOrder

end OasisCore
