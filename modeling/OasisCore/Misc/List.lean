import Mathlib.Algebra.BigOperators.Group.Finset.Basic
import Mathlib.Algebra.GroupWithZero.Nat
import Mathlib.Data.List.Sort

/-!
# Counting loops

A loop over a list that bumps a counter for the elements of some kind computes a
`countP`; a loop that only ever adds to a collection ends with what it started
with and what some element added. These are the run lemmas of such loops, from
the effect of one step.

A loop over a list with its indices (`enumerate` in Rust) is a loop over the
indices; one that adds a term per index computes a finite sum, and one that ands
a check per element holds when every check does.

A loop of point writes to a function, each element writing its value at its key,
leaves a key no element names as it was, and when no two elements name the same
key, leaves each named key with its one element's value, whatever the order.

Inserting into an ordered list (`orderedInsert`) changes a filter only by the inserted
element; these are the lemmas of a write that keeps a listing in key order. Removing
by `swapRemove`, which moves the last element into the gap, removes the same element as
`eraseIdx`, in another order.
-/

namespace OasisCore

variable {α β : Type}

/-- A step that adds one to a counter exactly for the elements satisfying `p` adds
`countP p` over a whole list. -/
theorem foldl_counter (f : β → ℕ) (g : β → α → β) (p : α → Prop) [DecidablePred p]
    (hg : ∀ b a, f (g b a) = f b + if p a then 1 else 0) (l : List α) (b : β) :
    f (l.foldl g b) = f b + l.countP (fun a => decide (p a)) := by
  induction l generalizing b with
  | nil => simp
  | cons a l ih =>
    rw [List.foldl_cons, ih, hg, List.countP_cons]
    by_cases hp : p a
    · simp [hp]
      omega
    · simp [hp]

/-- A step that adds `h a` to a counter adds the sum of `h` over a whole list. -/
theorem foldl_add (f : β → ℕ) (g : β → α → β) (h : α → ℕ)
    (hg : ∀ b a, f (g b a) = f b + h a) (l : List α) (b : β) :
    f (l.foldl g b) = f b + (l.map h).sum := by
  induction l generalizing b with
  | nil => simp
  | cons a l ih =>
    rw [List.foldl_cons, ih, hg, List.map_cons, List.sum_cons]
    omega

/-- The invariant rule of a loop over `l`: an invariant of the done prefix that holds
at the start and that each step keeps holds over the whole list. Each step learns
where in `l` it is. -/
theorem foldl_inv {g : β → α → β} (l : List α) (I : List α → β → Prop)
    (step : ∀ done a rest b, done ++ a :: rest = l → I done b → I (done ++ [a]) (g b a))
    {b : β} (h0 : I [] b) : I l (l.foldl g b) := by
  suffices hrest : ∀ rest done b, done ++ rest = l → I done b → I l (rest.foldl g b) from
    hrest l [] b rfl h0
  intro rest
  induction rest with
  | nil =>
    intro done b hl hb
    rw [← hl, List.append_nil]
    exact hb
  | cons a rest ih =>
    intro done b hl hb
    exact ih (done ++ [a]) (g b a) (by simpa using hl) (step done a rest b hl hb)

/-- A step after which `P` holds exactly when it held before or the element makes it
hold: after a whole list, `P` holds when it held at the start or some element made
it hold. -/
theorem foldl_accumulates (P : β → Prop) (g : β → α → β) (q : α → Prop)
    (hg : ∀ b a, P (g b a) ↔ P b ∨ q a) (l : List α) (b : β) :
    P (l.foldl g b) ↔ P b ∨ ∃ a ∈ l, q a := by
  induction l generalizing b with
  | nil => simp
  | cons a l ih =>
    rw [List.foldl_cons, ih, hg]
    simp only [List.mem_cons, exists_eq_or_imp]
    tauto

/-- A walk over `l` with its indices is a walk over the indices, reading `l` at each. -/
theorem zipIdx_eq_map_range (l : List α) (d : α) :
    l.zipIdx = (List.range l.length).map fun i => (l.getD i d, i) := by
  apply List.ext_getElem
  · simp
  · intro i h₁ h₂
    rw [List.length_zipIdx] at h₁
    simp [List.getElem_zipIdx, List.getElem?_eq_getElem h₁]

/-- Lists of one length are equal when they agree at every index below it. -/
theorem ext_getD {l₁ l₂ : List α} (d : α) (hlen : l₁.length = l₂.length)
    (h : ∀ i < l₁.length, l₁.getD i d = l₂.getD i d) : l₁ = l₂ := by
  apply List.ext_getElem hlen
  intro i h₁ h₂
  have hi := h i h₁
  simpa [List.getElem?_eq_getElem h₁, List.getElem?_eq_getElem h₂] using hi

/-- A loop that adds one term per index below `n` adds their sum. -/
theorem foldl_range_add {M : Type} [AddCommMonoid M] (n : ℕ) (h : ℕ → M) (a : M) :
    (List.range n).foldl (fun acc i => acc + h i) a = a + ∑ i ∈ Finset.range n, h i := by
  induction n with
  | zero => simp
  | succ n ih =>
    rw [List.range_succ, List.foldl_append, ih, Finset.sum_range_succ, List.foldl_cons,
      List.foldl_nil, add_assoc]

/-- A loop that multiplies in one factor per index below `n` multiplies by their
product. -/
theorem foldl_range_mul {M : Type} [CommMonoid M] (n : ℕ) (h : ℕ → M) (a : M) :
    (List.range n).foldl (fun acc i => acc * h i) a = a * ∏ i ∈ Finset.range n, h i := by
  induction n with
  | zero => simp
  | succ n ih =>
    rw [List.range_succ, List.foldl_append, ih, Finset.prod_range_succ, List.foldl_cons,
      List.foldl_nil, mul_assoc]

/-- The same loop with the index `i` skipped leaves its factor out. -/
theorem foldl_range_mul_skip {M : Type} [CommMonoid M] (n i : ℕ) (h : ℕ → M) (a : M) :
    (List.range n).foldl (fun acc j => if j = i then acc else acc * h j) a =
      a * ∏ j ∈ (Finset.range n).erase i, h j := by
  have hstep : (fun acc j => if j = i then acc else acc * h j) =
      fun acc j => acc * if j ≠ i then h j else 1 := by
    funext acc j
    by_cases hj : j = i <;> simp [hj]
  rw [hstep, foldl_range_mul, ← Finset.prod_filter, Finset.filter_ne']

/-- The skipping product loop read through a multiplicative map. -/
theorem map_foldl_range_mul_skip {T M : Type} [Mul T] [CommMonoid M] (f : T → M)
    (hf : ∀ a b, f (a * b) = f a * f b) (n i : ℕ) (h : ℕ → T) (a : T) :
    f ((List.range n).foldl (fun acc j => if j = i then acc else acc * h j) a) =
      f a * ∏ j ∈ (Finset.range n).erase i, f (h j) := by
  rw [← foldl_range_mul_skip]
  refine (List.foldl_hom f fun acc j => ?_).symm
  by_cases hj : j = i <;> simp [hj, hf]

/-- The product of a list without its `i`-th element is the product over the other
indices. -/
theorem prod_eraseIdx {M : Type} [CommMonoid M] (l : List M) (i : ℕ) :
    (l.eraseIdx i).prod = ∏ j ∈ (Finset.range l.length).erase i, l.getD j 1 := by
  rw [← Finset.filter_ne', Finset.prod_filter]
  induction l generalizing i with
  | nil => simp
  | cons a l ih =>
    rw [List.length_cons, Finset.prod_range_succ']
    cases i with
    | zero =>
      -- Without its head the list is its tail, the product of all its indices.
      have htail := ih l.length
      rw [List.eraseIdx_of_length_le (le_refl _)] at htail
      simp only [List.eraseIdx_cons_zero, htail, ne_eq, add_eq_zero, one_ne_zero, and_false,
        not_false_eq_true, if_true, List.getD_cons_succ, not_true_eq_false, if_false, mul_one]
      exact Finset.prod_congr rfl fun j hj => by
        rw [if_pos (Finset.mem_range.mp hj).ne]
    | succ k =>
      simp only [List.eraseIdx_cons_succ, List.prod_cons, ih k, ne_eq, Nat.add_right_cancel_iff,
        List.getD_cons_succ, Ne.symm (Nat.succ_ne_zero k), not_false_eq_true,
        if_true, List.getD_cons_zero]
      exact mul_comm _ _

/-- A loop that subtracts one term per index below `n` subtracts their sum. -/
theorem foldl_range_sub {M : Type} [AddCommGroup M] (n : ℕ) (h : ℕ → M) (a : M) :
    (List.range n).foldl (fun acc i => acc - h i) a = a - ∑ i ∈ Finset.range n, h i := by
  induction n with
  | zero => simp
  | succ n ih =>
    rw [List.range_succ, List.foldl_append, ih, Finset.sum_range_succ, List.foldl_cons,
      List.foldl_nil, sub_add_eq_sub_sub]

/-- The list of `f i` for the indices below `n` holds `f i` at each of them. -/
theorem getD_map_range {β : Type} (f : ℕ → β) {n i : ℕ} (hi : i < n) (d : β) :
    ((List.range n).map f).getD i d = f i := by
  simp [List.getD_eq_getElem?_getD, List.getElem?_range hi]

theorem getD_mem {l : List α} {j : ℕ} (hj : j < l.length) (d : α) : l.getD j d ∈ l := by
  rw [List.getD_eq_getElem?_getD, List.getElem?_eq_getElem hj, Option.getD_some]
  exact List.getElem_mem hj

/-- Reading a mapped list within its bounds reads the list. -/
theorem getD_map_of_lt (f : α → β) {l : List α} {j : ℕ} (hj : j < l.length) (d : β) (d' : α) :
    (l.map f).getD j d = f (l.getD j d') := by
  simp [List.getD_eq_getElem?_getD, List.getElem?_eq_getElem hj]

/-- A loop that adds one term per element adds their sum. -/
theorem foldl_add_eq_sum {M : Type} [AddCommMonoid M] (g : α → M) (l : List α) (a : M) :
    l.foldl (fun acc x => acc + g x) a = a + (l.map g).sum := by
  induction l generalizing a with
  | nil => simp
  | cons x l ih => rw [List.foldl_cons, ih, List.map_cons, List.sum_cons, add_assoc]

/-- A loop that ands one check per element ends true exactly when it starts true and
every check passes. -/
theorem foldl_and_eq_true (p : α → Bool) (l : List α) (b : Bool) :
    l.foldl (fun acc a => acc && p a) b = true ↔ b = true ∧ ∀ a ∈ l, p a = true := by
  induction l generalizing b with
  | nil => simp
  | cons a l ih =>
    rw [List.foldl_cons, ih, Bool.and_eq_true]
    simp only [List.mem_cons, forall_eq_or_imp]
    tauto

/-- A loop that rewrites the element at one index rewrites it once, by the whole
loop. -/
theorem foldl_modify_at {γ : Type} (g : γ → α → α) (i : ℕ) (l : List γ) (m : List α) :
    l.foldl (fun m j => m.modify i (g j)) m = m.modify i (fun a => l.foldl (fun a j => g j a) a) := by
  induction l generalizing m with
  | nil => exact (List.modify_id i m).symm
  | cons j l ih =>
    rw [List.foldl_cons, ih, List.modify_modify_eq]
    rfl

/-- A loop that rewrites the element at each index below `n` maps the list by
index. -/
theorem foldl_range_modify (f : ℕ → α → α) (n : ℕ) (l : List α) :
    (List.range n).foldl (fun l i => l.modify i (f i)) l =
      l.mapIdx fun i a => if i < n then f i a else a := by
  induction n with
  | zero => apply List.ext_getElem <;> simp
  | succ n ih =>
    rw [List.range_succ, List.foldl_append, ih, List.foldl_cons, List.foldl_nil]
    apply List.ext_getElem
    · simp
    · intro k h₁ h₂
      rw [List.getElem_modify, List.getElem_mapIdx, List.getElem_mapIdx]
      by_cases hk : n = k
      · subst hk
        simp
      · simp only [hk, if_false]
        by_cases hlt : k < n
        · simp [hlt, Nat.lt_succ_of_lt hlt]
        · simp [hlt, show ¬ k < n + 1 by omega]

/-- A fallible map that succeeds on every element succeeds on the list. -/
theorem mapM_eq_pure_map {m : Type → Type} [Monad m] [LawfulMonad m] {f : α → m β} {g : α → β} :
    ∀ {l : List α}, (∀ a ∈ l, f a = pure (g a)) → l.mapM f = pure (l.map g)
  | [], _ => rfl
  | a :: l, h => by
    rw [List.mapM_cons, h a List.mem_cons_self,
      mapM_eq_pure_map fun b hb => h b (List.mem_cons_of_mem a hb)]
    simp

/-- A fallible map into `Option` that succeeds relates each element to its image. -/
theorem forall₂_of_mapM_eq_some {f : α → Option β} :
    ∀ {l : List α} {r : List β}, l.mapM f = some r → List.Forall₂ (fun a b => f a = some b) l r
  | [], r, h => by
    rw [List.mapM_nil] at h
    cases h
    exact .nil
  | a :: l, r, h => by
    rw [List.mapM_cons] at h
    cases ha : f a with
    | none => simp [ha] at h
    | some b =>
      cases hl : l.mapM f with
      | none => simp [ha, hl] at h
      | some r' =>
        simp only [ha, hl, Option.bind_eq_bind, Option.bind_some, Option.pure_def, Option.some.injEq] at h
        subst h
        exact .cons ha (forall₂_of_mapM_eq_some hl)

theorem exists_of_forall₂_of_mem {R : α → β → Prop} {l : List α} {r : List β}
    (h : List.Forall₂ R l r) {b : β} (hb : b ∈ r) : ∃ a ∈ l, R a b := by
  induction h with
  | nil => simp at hb
  | cons hab _ ih =>
    rcases List.mem_cons.mp hb with rfl | hb
    · exact ⟨_, List.mem_cons_self, hab⟩
    · obtain ⟨a, ha, hr⟩ := ih hb
      exact ⟨a, List.mem_cons_of_mem _ ha, hr⟩

/-- Pairing the images of the indices with a list, element by element, walks the
indices. -/
theorem sum_map_zip_range {M : Type} [AddCommMonoid M] (f : ℕ → α) (g : α × β → M) (d : β) :
    ∀ l : List β, ((((List.range l.length).map f).zip l).map g).sum =
      ∑ i ∈ Finset.range l.length, g (f i, l.getD i d)
  | [] => by simp
  | b :: l => by
    rw [List.length_cons, List.range_succ_eq_map, List.map_cons, List.map_map, List.zip_cons_cons,
      List.map_cons, List.sum_cons, sum_map_zip_range (f ∘ Nat.succ) g d l, Finset.sum_range_succ',
      add_comm]
    rfl

/-- A loop over pairs that updates each component on its own is a pair of loops. -/
theorem foldl_pair {γ δ : Type} (f : γ → α → γ) (g : δ → α → δ) (l : List α) (c : γ) (d : δ) :
    l.foldl (fun cd a => (f cd.1 a, g cd.2 a)) (c, d) = (l.foldl f c, l.foldl g d) := by
  induction l generalizing c d with
  | nil => rfl
  | cons a l ih => exact ih (f c a) (g d a)

/-- The same for a loop over the indices that skips index `i`. -/
theorem foldl_skip_pair {γ δ : Type} (i : ℕ) (f : γ → ℕ → γ) (g : δ → ℕ → δ) (l : List ℕ)
    (c : γ) (d : δ) :
    l.foldl (fun cd j => if j = i then cd else (f cd.1 j, g cd.2 j)) (c, d) =
      (l.foldl (fun c j => if j = i then c else f c j) c,
        l.foldl (fun d j => if j = i then d else g d j) d) := by
  rw [← foldl_pair]
  congr 1
  funext cd j
  by_cases hj : j = i <;> simp [hj]

/-- Over a list ordered by `R`, a test that holds of everything below what it holds
of fails from its first failure on: taking while it holds is filtering by it. -/
theorem takeWhile_eq_filter_of_pairwise {R : α → α → Prop} {p : α → Bool}
    (hp : ∀ a b, R a b → p b = true → p a = true) :
    ∀ {l : List α}, l.Pairwise R → l.takeWhile p = l.filter p
  | [], _ => rfl
  | a :: l, hl => by
    rw [List.pairwise_cons] at hl
    by_cases ha : p a = true
    · rw [List.takeWhile_cons_of_pos ha, List.filter_cons_of_pos ha,
        takeWhile_eq_filter_of_pairwise hp hl.2]
    · have hnone : l.filter p = [] :=
        List.filter_eq_nil_iff.mpr fun b hb hpb => ha (hp a b (hl.1 b hb) hpb)
      rw [List.takeWhile_cons_of_neg ha, List.filter_cons_of_neg ha, hnone]

/-- A filter-map whose kept results each name their element by `g` keeps a list of
distinct elements distinct under `g`. -/
theorem nodup_map_filterMap {f : α → Option β} {g : β → α} {l : List α} (hl : l.Nodup)
    (hf : ∀ a b, f a = some b → g b = a) : ((l.filterMap f).map g).Nodup := by
  rw [List.map_filterMap]
  refine List.Nodup.filterMap (fun a a' b ha ha' => ?_) hl
  simp only [Option.mem_def, Option.map_eq_some_iff] at ha ha'
  obtain ⟨x, hx, rfl⟩ := ha
  obtain ⟨x', hx', hxx⟩ := ha'
  rw [← hf a x hx, ← hf a' x' hx', hxx]

section Update

variable {K V : Type} [DecidableEq K] (key : α → K) (val : α → V)

/-- Writes at other keys leave a key as it was. -/
theorem foldl_update_of_not_mem {k : K} : ∀ (l : List α) (f : K → V), k ∉ l.map key →
    l.foldl (fun f a => Function.update f (key a) (val a)) f k = f k
  | [], _, _ => rfl
  | b :: l, f, hk => by
    rw [List.map_cons, List.mem_cons, not_or] at hk
    rw [List.foldl_cons, foldl_update_of_not_mem l _ hk.2, Function.update_of_ne hk.1]

/-- With distinct keys, the key of an element ends with that element's value. -/
theorem foldl_update_of_mem : ∀ {l : List α} (f : K → V), (l.map key).Nodup → ∀ {a}, a ∈ l →
    l.foldl (fun f a => Function.update f (key a) (val a)) f (key a) = val a
  | [], _, _, _, ha => absurd ha List.not_mem_nil
  | b :: l, f, hl, a, ha => by
    rw [List.map_cons, List.nodup_cons] at hl
    rw [List.foldl_cons]
    rcases List.mem_cons.mp ha with rfl | ha
    · rw [foldl_update_of_not_mem key val l _ hl.1, Function.update_self]
    · exact foldl_update_of_mem _ hl.2 ha

end Update

/-- A filter that keeps only what a weaker filter keeps may skip the weaker one. -/
theorem filter_filter_of_imp {p q : α → Bool} (h : ∀ a, p a = true → q a = true) (l : List α) :
    (l.filter q).filter p = l.filter p := by
  rw [List.filter_filter]
  apply List.filter_congr
  intro a _
  by_cases hp : p a
  · simp [hp, h a hp]
  · simp [hp]

section OrderedInsert

variable (r : α → α → Prop) [DecidableRel r] (p : α → Bool)

/-- Inserting an element that a filter drops leaves the filter as it was. -/
theorem filter_orderedInsert_of_not {x : α} (hx : p x = false) (l : List α) :
    (l.orderedInsert r x).filter p = l.filter p := by
  induction l with
  | nil => simp [hx]
  | cons y l ih =>
    rw [List.orderedInsert_cons]
    by_cases hxy : r x y
    · rw [if_pos hxy, List.filter_cons_of_neg (by simp [hx])]
    · rw [if_neg hxy, List.filter_cons, List.filter_cons, ih]

/-- Inserting an element that a filter keeps, into a list all of which it drops, leaves
that element alone. -/
theorem filter_orderedInsert_of_forall {x : α} (hx : p x = true) {l : List α}
    (hl : ∀ y ∈ l, p y = false) : (l.orderedInsert r x).filter p = [x] := by
  have hnil : l.filter p = [] := List.filter_eq_nil_iff.mpr fun y hy => by simp [hl y hy]
  have hperm := (List.perm_orderedInsert r x l).filter p
  rw [List.filter_cons_of_pos hx, hnil] at hperm
  exact List.perm_singleton.mp hperm

end OrderedInsert

/-- `Vec::swap_remove` at an index `i < l.length`: the element at `i` is removed and the
last element moves into its place. -/
def swapRemove (l : List α) (i : ℕ) : List α :=
  match l.getLast? with
  | none => l
  | some last => (l.set i last).dropLast

theorem swapRemove_perm {l : List α} {i : ℕ} (hi : i < l.length) :
    (swapRemove l i).Perm (l.eraseIdx i) := by
  rcases List.eq_nil_or_concat l with rfl | ⟨init, z, rfl⟩
  · simp at hi
  rw [List.concat_eq_append] at hi ⊢
  unfold swapRemove
  rw [List.getLast?_concat]
  dsimp only
  simp only [List.length_append, List.length_singleton] at hi
  -- Either the last element moves into the gap, or the gap is the last place.
  rcases Nat.lt_succ_iff_lt_or_eq.mp hi with hlt | rfl
  · rw [List.set_append_left _ _ hlt, List.dropLast_concat, List.eraseIdx_append_of_lt_length hlt,
      List.set_eq_take_append_cons_drop, if_pos hlt, List.eraseIdx_eq_take_drop_succ]
    exact List.perm_middle.trans (List.perm_append_singleton _ _).symm
  · rw [List.set_append_right _ _ le_rfl, Nat.sub_self, List.set_cons_zero, List.dropLast_concat,
      List.eraseIdx_append_of_length_le le_rfl, Nat.sub_self, List.eraseIdx_cons_zero,
      List.append_nil]

/-- Removing the first occurrence of `a` by `swapRemove` removes what `erase` removes. -/
theorem swapRemove_idxOf_perm [DecidableEq α] {a : α} {l : List α} (ha : a ∈ l) :
    (swapRemove l (l.idxOf a)).Perm (l.erase a) := by
  rw [← List.eraseIdx_idxOf_eq_erase]
  exact swapRemove_perm (List.idxOf_lt_length_iff.mpr ha)

/-! ## Permutations by indices -/

/-- The elements of `l` at the indices `idxs`, in their order, as `l[idxs[i]]` for each
`i` picks them; an index past the end picks nothing. -/
def permute (idxs : List ℕ) (l : List α) : List α :=
  idxs.filterMap (l[·]?)

end OasisCore
