import OasisCore.Mkvs.Canonical

/-!
# Removal keeps a trie canonical

`doRemove` below a canonical node returns a canonical node (`doRemove_spec`). The removed
value is the key's value or nothing; it is the key's value unless a leaf holds the key's
bytes under a key that is not `Equal` to it, the nil key against an empty one; when a
value is removed the node holds the map without the key, and otherwise it is the node it
was. `collapse`, the end of the internal-node case, keeps the trie compressed: a node left
with its `LeafNode` alone becomes that leaf, one left with a single child becomes the
child, and a child that is an internal node takes the node's label in front of its own
(`collapse_spec`).
-/

namespace OasisCore

namespace Mkvs

open Bits

/-- What a successful `doRemove` below a canonical node returns: a canonical node; the
node it was when nothing was removed; the key's value and the map without the key when a
value was removed; the key's value whenever no leaf holds the key's bytes under a key that
is not `Equal` to it; and whether it changed. -/
structure RemoveSpec (path : List Bool) (ptr : Node) (key : Key)
    (r : Node × Bool × Option (List UInt8)) : Prop where
  canonical : Canonical path r.1
  unchanged : r.2.2 = none → r.1 = ptr
  removed : r.2.2.isSome →
    r.2.2 = ptr.toMap key.bytes ∧ r.1.toMap = Function.update ptr.toMap key.bytes none
  found : (∀ k ∈ ptr.keys, k.bytes = key.bytes → k.equal key = true) →
    r.2.2 = ptr.toMap key.bytes
  changed_eq : r.2.1 = r.2.2.isSome

theorem Node.present_eq_one_of_ne_nil {t : Node} (h : t ≠ .nil) : t.present = 1 := by
  cases t with
  | nil => exact absurd rfl h
  | leaf => rfl
  | internal => rfl

/-- A node of a canonical trie without values is a nil pointer. -/
theorem Canonical.eq_nil_of_toMap {path : List Bool} {t : Node} (hc : Canonical path t)
    (h : ∀ b, t.toMap b = none) : t = .nil := by
  by_contra hne
  obtain ⟨k, hk⟩ := hc.exists_key (Node.present_eq_one_of_ne_nil hne)
  have hsome := Node.toMap_isSome_of_mem hk
  rw [h] at hsome
  exact absurd hsome (by simp)

/-- A child that a removal leaves in its slot. -/
theorem ChildOk.of_remove {q : List Bool} {s : Option Bool} {t : Node} {key : Key}
    {r : Node × Bool × Option (List UInt8)} (hok : ChildOk q s t) (hspec : RemoveSpec q t key r) :
    ChildOk q s r.1 := by
  by_cases hex : r.2.2 = none
  · rw [hspec.unchanged hex]
    exact hok
  have hsome : r.2.2.isSome := by simpa [Option.isSome_iff_ne_none] using hex
  obtain ⟨hval, hmap⟩ := hspec.removed hsome
  cases s with
  | none =>
    refine ⟨hspec.canonical, .inl (hspec.canonical.eq_nil_of_toMap fun b => ?_)⟩
    -- the `LeafNode` held the removed key alone
    rcases hok.2 with rfl | ⟨k, v, rfl, -⟩
    · simp at hval
      exact absurd hval hex
    · rw [hmap]
      by_cases hb : b = key.bytes
      · rw [hb, Function.update_self]
      · have hk : k.bytes = key.bytes := by
          by_contra hk
          rw [Node.toMap_leaf, if_neg hk] at hval
          exact hex hval
        rw [Function.update_of_ne hb, Node.toMap_leaf, if_neg (by rw [hk]; exact Ne.symm hb)]
  | some c =>
    refine ⟨hspec.canonical, Node.forall_keys_of_toMap_isSome (P := fun bits => bits[q.length]? = some c)
      (fun b hb => .inl ?_) hok.2⟩
    rw [hmap] at hb
    by_cases hbk : b = key.bytes
    · rw [hbk, Function.update_self] at hb
      exact absurd hb (by simp)
    · rwa [Function.update_of_ne hbk] at hb

theorem doRemove_nil_spec {path : List Bool} {key : Key} {r : Node × Bool × Option (List UInt8)}
    (h : doRemove .nil path.length key = .ok r) : RemoveSpec path .nil key r := by
  obtain ⟨n, -, h⟩ := Except.bind_eq_ok.mp h
  rw [Except.pure_eq_ok] at h
  subst h
  exact ⟨trivial, fun _ => rfl, by simp, fun _ => rfl, rfl⟩

theorem doRemove_leaf_spec {path : List Bool} {nKey : Key} {v : List UInt8} {key : Key}
    {r : Node × Bool × Option (List UInt8)} (hc : Canonical path (.leaf nKey v))
    (h : doRemove (.leaf nKey v) path.length key = .ok r) : RemoveSpec path (.leaf nKey v) key r := by
  obtain ⟨n, -, h⟩ := Except.bind_eq_ok.mp h
  split at h
  · rename_i heq
    rw [Except.pure_eq_ok] at h
    subst h
    have hbytes := Key.bytes_eq_of_equal heq
    have hval : (Node.leaf nKey v).toMap key.bytes = some v := by simp [Node.toMap_leaf, hbytes]
    refine ⟨trivial, by simp, fun _ => ⟨hval.symm, ?_⟩, fun _ => hval.symm, rfl⟩
    funext b
    by_cases hb : b = key.bytes
    · rw [hb, Function.update_self]
      rfl
    · rw [Function.update_of_ne hb, Node.toMap_nil, Node.toMap_leaf,
        if_neg (by rw [hbytes]; exact Ne.symm hb)]
  · rename_i hne
    rw [Except.pure_eq_ok] at h
    subst h
    refine ⟨hc, fun _ => rfl, by simp, fun hf => ?_, rfl⟩
    have hbytes : nKey.bytes ≠ key.bytes := fun hb => hne (hf nKey (by simp) hb)
    simp [Node.toMap_leaf, hbytes]

/-- A node that still has two children is kept as it is. -/
theorem collapse_of_twoChildren {label : Key} {ℓ : ℕ} {leafNode left right : Node} {changed : Bool}
    {existing : Option (List UInt8)} (h : 2 ≤ leafNode.present + left.present + right.present) :
    collapse label ℓ leafNode left right changed existing =
      .ok (.internal label ℓ leafNode left right, changed, existing) := by
  unfold collapse
  rw [if_neg, if_neg]
  · rfl
  · rintro ⟨rfl, rfl | rfl⟩
    · have := right.present_le_one
      simp only [Node.present_nil] at h
      omega
    · have := left.present_le_one
      simp only [Node.present_nil] at h
      omega
  · rintro ⟨-, rfl, rfl⟩
    have := leafNode.present_le_one
    simp only [Node.present_nil] at h
    omega

/-- `collapse` of an internal node whose children fit their slots: a canonical node that
holds what the internal node holds, with the removed value passed on. -/
theorem collapse_spec {path : List Bool} {label : Key} {ℓ : ℕ} {leafNode left right : Node}
    {changed : Bool} {existing : Option (List UInt8)} {res : Node × Bool × Option (List UInt8)}
    (hlabel : label.IsLabel ℓ) (hlf : ChildOk (path ++ label.bits.take ℓ) none leafNode)
    (hl : ChildOk (path ++ label.bits.take ℓ) (some false) left)
    (hr : ChildOk (path ++ label.bits.take ℓ) (some true) right)
    (h : collapse label ℓ leafNode left right changed existing = .ok res) :
    Canonical path res.1 ∧ res.1.toMap = (Node.internal label ℓ leafNode left right).toMap ∧
      res.2.2 = existing ∧ (res.2.1 = changed ∨ res.2.1 = true) := by
  unfold collapse at h
  split at h
  · -- the `LeafNode` alone is left
    rename_i hlone
    obtain ⟨hne, rfl, rfl⟩ := hlone
    rw [Except.pure_eq_ok] at h
    subst h
    obtain ⟨hc, rfl | ⟨k, v, rfl, -⟩⟩ := hlf
    · exact absurd rfl hne
    · refine ⟨hc.leaf_of_isPrefix (List.prefix_append _ _), ?_, rfl, .inr rfl⟩
      funext b
      simp [Node.toMap_internal]
  split at h
  · -- one child alone is left: it replaces the node
    rename_i _ hlone
    obtain ⟨rfl, hlr⟩ := hlone
    generalize hchild : (if left ≠ .nil then left else right) = child at h
    have hcases : (∃ c, ChildOk (path ++ label.bits.take ℓ) (some c) child) ∧
        (Node.internal label ℓ .nil left right).toMap = child.toMap := by
      by_cases hl0 : left = .nil
      · subst hl0
        rw [if_neg (not_not.mpr rfl)] at hchild
        subst hchild
        exact ⟨⟨true, hr⟩, by funext b; simp [Node.toMap_internal]⟩
      · rw [if_pos hl0] at hchild
        subst hchild
        rcases hlr with rfl | rfl
        · exact absurd rfl hl0
        · exact ⟨⟨false, hl⟩, by funext b; simp [Node.toMap_internal]⟩
    obtain ⟨⟨c, hok⟩, hmap⟩ := hcases
    dsimp only at h
    split at h
    · -- an internal child takes the node's label in front of its own
      rename_i childLabel childLabelBitLength childLeaf childLeft childRight
      obtain ⟨m, hm, h⟩ := Except.bind_eq_ok.mp h
      rw [Except.pure_eq_ok] at h
      subst h
      have hcc := hok.canonical
      obtain ⟨htwo, hcl, hclf, hcll, hclr⟩ := Canonical.internal_iff_childOk.mp hcc
      -- the merged label fits: a key of the child runs through both labels
      have hmax : ℓ + childLabelBitLength ≤ maxDepth := by
        obtain ⟨k, hk⟩ := hcc.exists_key rfl
        have hlen := (hcc.1.keys_extend k hk).length_le
        have hvalid := hcc.valid_of_mem hk
        rw [List.length_append, List.length_append, Key.length_take_bits_of_isLabel hlabel,
          Key.length_take_bits_of_isLabel hcl, Key.length_bits] at hlen
        omega
      obtain ⟨hmlabel, hmbits⟩ := Key.merge_spec hlabel hcl hmax hm
      have hpath : path ++ m.bits.take (childLabelBitLength + ℓ) =
          path ++ label.bits.take ℓ ++ childLabel.bits.take childLabelBitLength := by
        rw [Nat.add_comm, hmbits, List.append_assoc]
      rw [Nat.add_comm] at hmlabel
      refine ⟨Canonical.internal_iff_childOk.mpr ⟨htwo, hmlabel, ?_, ?_, ?_⟩, hmap.symm, rfl, .inr rfl⟩
      · rw [hpath]
        exact hclf
      · rw [hpath]
        exact hcll
      · rw [hpath]
        exact hclr
    · -- a leaf child, or none
      rename_i hnot
      rw [Except.pure_eq_ok] at h
      subst h
      refine ⟨?_, hmap.symm, rfl, .inr rfl⟩
      cases child with
      | nil => trivial
      | leaf k v => exact hok.canonical.leaf_of_isPrefix (List.prefix_append _ _)
      | internal => exact absurd rfl (hnot _ _ _ _ _)
  · -- two children are left: the node stays
    rename_i hlone hone
    rw [Except.pure_eq_ok] at h
    subst h
    refine ⟨Canonical.internal_iff_childOk.mpr ⟨?_, hlabel, hlf, hl, hr⟩, rfl, rfl, .inl rfl⟩
    by_cases hlf0 : leafNode = .nil
    · have hl0 : left ≠ .nil := fun h0 => hone ⟨hlf0, .inl h0⟩
      have hr0 : right ≠ .nil := fun h0 => hone ⟨hlf0, .inr h0⟩
      rw [Node.present_eq_one_of_ne_nil hl0, Node.present_eq_one_of_ne_nil hr0]
      omega
    · have hlr : left ≠ .nil ∨ right ≠ .nil := by
        by_contra hboth
        simp only [not_or, not_not] at hboth
        exact hlone ⟨hlf0, hboth⟩
      rw [Node.present_eq_one_of_ne_nil hlf0]
      rcases hlr with hl0 | hr0
      · rw [Node.present_eq_one_of_ne_nil hl0]
        omega
      · rw [Node.present_eq_one_of_ne_nil hr0]
        omega

/-- The removal below a canonical internal node that went down into one child and left
`leafNode`, `left` and `right` behind, assembled by `collapse`. -/
theorem RemoveSpec.collapse {path : List Bool} {label : Key} {ℓ : ℕ}
    {leafNode left right leafNode' left' right' : Node} {key : Key} {changed : Bool}
    {existing : Option (List UInt8)} {res : Node × Bool × Option (List UInt8)}
    (hc : Canonical path (.internal label ℓ leafNode left right))
    (hlf : ChildOk (path ++ label.bits.take ℓ) none leafNode')
    (hl : ChildOk (path ++ label.bits.take ℓ) (some false) left')
    (hr : ChildOk (path ++ label.bits.take ℓ) (some true) right')
    (hunchanged : existing = none → leafNode' = leafNode ∧ left' = left ∧ right' = right)
    (hremoved : existing.isSome →
      existing = (Node.internal label ℓ leafNode left right).toMap key.bytes ∧
      (Node.internal label ℓ leafNode' left' right').toMap =
        Function.update (Node.internal label ℓ leafNode left right).toMap key.bytes none)
    (hfound : (∀ k ∈ (Node.internal label ℓ leafNode left right).keys, k.bytes = key.bytes →
      k.equal key = true) → existing = (Node.internal label ℓ leafNode left right).toMap key.bytes)
    (hchanged : changed = existing.isSome)
    (h : collapse label ℓ leafNode' left' right' changed existing = .ok res) :
    RemoveSpec path (.internal label ℓ leafNode left right) key res := by
  obtain ⟨hcan, hmap, hex, hch⟩ := collapse_spec (Canonical.internal_iff_childOk.mp hc).2.1
    hlf hl hr h
  have hkept : existing = none → res = (.internal label ℓ leafNode left right, changed, existing) := by
    intro hnone
    obtain ⟨rfl, rfl, rfl⟩ := hunchanged hnone
    rw [collapse_of_twoChildren (Canonical.internal_iff_childOk.mp hc).1] at h
    exact (Except.ok.inj h).symm
  refine ⟨hcan, fun hnone => by rw [hkept (hex ▸ hnone)], fun hsome => ?_, fun hf => ?_, ?_⟩
  · rw [hex] at hsome ⊢
    obtain ⟨hval, hmap'⟩ := hremoved hsome
    exact ⟨hval, hmap.trans hmap'⟩
  · rw [hex]
    exact hfound hf
  · by_cases hnone : existing = none
    · rw [hkept hnone, hchanged]
    · rcases hch with hch | hch
      · rw [hch, hchanged, hex]
      · rw [hch, hex]
        simpa [Option.isSome_iff_ne_none] using hnone

theorem doRemove_internal_spec {path : List Bool} {label : Key} {ℓ : ℕ}
    {leafNode left right : Node} {key : Key} {r : Node × Bool × Option (List UInt8)}
    (ihlf : ∀ {q : List Bool} {r : Node × Bool × Option (List UInt8)}, Canonical q leafNode →
      doRemove leafNode q.length key = .ok r → RemoveSpec q leafNode key r)
    (ihl : ∀ {q : List Bool} {r : Node × Bool × Option (List UInt8)}, Canonical q left →
      doRemove left q.length key = .ok r → RemoveSpec q left key r)
    (ihr : ∀ {q : List Bool} {r : Node × Bool × Option (List UInt8)}, Canonical q right →
      doRemove right q.length key = .ok r → RemoveSpec q right key r)
    (hc : Canonical path (.internal label ℓ leafNode left right))
    (h : doRemove (.internal label ℓ leafNode left right) path.length key = .ok r) :
    RemoveSpec path (.internal label ℓ leafNode left right) key r := by
  obtain ⟨n, hn, h⟩ := Except.bind_eq_ok.mp h
  obtain ⟨-, rfl⟩ := Key.bitLength_eq_ok.mp hn
  dsimp only at h
  obtain ⟨htwo, hlabel, hlf, hl, hr⟩ := Canonical.internal_iff_childOk.mp hc
  have hQlen : (path ++ label.bits.take ℓ).length = path.length + ℓ := by
    rw [List.length_append, Key.length_take_bits_of_isLabel hlabel]
  have hslot : ∀ {s : Option Bool} {t : Node}, ChildOk (path ++ label.bits.take ℓ) s t →
      key.bits[path.length + ℓ]? ≠ s → t.toMap key.bytes = none := by
    intro s t hok hne
    exact hok.toMap_eq_none (by rw [hQlen]; exact hne)
  split at h
  · -- the key is shorter than the path to the node: no key below has it
    rename_i hlt
    rw [Except.pure_eq_ok] at h
    subst h
    refine ⟨hc, fun _ => rfl, by simp, fun _ => ?_, rfl⟩
    refine (Node.toMap_eq_none fun k hk hkb => ?_).symm
    have hlen := (hc.1.keys_extend k hk).length_le
    rw [List.length_append, Key.length_take_bits_of_isLabel hlabel, Key.length_bits, hkb,
      ← Key.length_bits] at hlen
    omega
  split at h
  · -- the key ends at the node: it can only be the `LeafNode`
    rename_i hge heq
    obtain ⟨⟨leafNode', changed, existing⟩, hrec, h⟩ := Except.bind_eq_ok.mp h
    rw [← hQlen] at hrec
    have hs := ihlf hlf.canonical hrec
    have hend : key.bits[path.length + ℓ]? = none := List.getElem?_eq_none (by omega)
    have hlnone := hslot hl (by rw [hend]; simp)
    have hrnone := hslot hr (by rw [hend]; simp)
    refine RemoveSpec.collapse hc (hlf.of_remove hs) hl hr (fun hnone => ⟨hs.unchanged hnone, rfl, rfl⟩)
      (fun hsome => ?_) (fun hf => ?_) hs.changed_eq h
    · obtain ⟨hval, hmap⟩ := hs.removed hsome
      dsimp only at hval hmap
      refine ⟨by simp [Node.toMap_internal, hval, hlnone, hrnone], ?_⟩
      rw [Function.eq_update_iff]
      refine ⟨by simp [Node.toMap_internal, hmap, hlnone, hrnone], fun b hb => ?_⟩
      simp [Node.toMap_internal, hmap, Function.update_of_ne hb]
    · have hval : existing = _ := hs.found fun k hk => hf k (by simp [hk])
      simp [Node.toMap_internal, hval, hlnone, hrnone]
  · -- the key goes on: down into the child of its next bit
    rename_i hge hne
    obtain ⟨bit, hbit, h⟩ := Except.bind_eq_ok.mp h
    rw [Key.mustGetBit_eq_ok] at hbit
    have hlfnone := hslot hlf (by rw [hbit]; simp)
    cases bit <;> simp only [Bool.false_eq_true, ↓reduceIte] at h <;>
      obtain ⟨⟨child', changed, existing⟩, hrec, h⟩ := Except.bind_eq_ok.mp h <;> rw [← hQlen] at hrec
    · have hs := ihl hl.canonical hrec
      have hrnone := hslot hr (by rw [hbit]; simp)
      refine RemoveSpec.collapse hc hlf (hl.of_remove hs) hr
        (fun hnone => ⟨rfl, hs.unchanged hnone, rfl⟩) (fun hsome => ?_) (fun hf => ?_) hs.changed_eq h
      · obtain ⟨hval, hmap⟩ := hs.removed hsome
        dsimp only at hval hmap
        refine ⟨by simp [Node.toMap_internal, hval, hlfnone, hrnone], ?_⟩
        rw [Function.eq_update_iff]
        refine ⟨by simp [Node.toMap_internal, hmap, hlfnone, hrnone], fun b hb => ?_⟩
        simp [Node.toMap_internal, hmap, Function.update_of_ne hb]
      · have hval : existing = _ := hs.found fun k hk => hf k (by simp [hk])
        simp [Node.toMap_internal, hval, hlfnone, hrnone]
    · have hs := ihr hr.canonical hrec
      have hlnone := hslot hl (by rw [hbit]; simp)
      refine RemoveSpec.collapse hc hlf hl (hr.of_remove hs)
        (fun hnone => ⟨rfl, rfl, hs.unchanged hnone⟩) (fun hsome => ?_) (fun hf => ?_) hs.changed_eq h
      · obtain ⟨hval, hmap⟩ := hs.removed hsome
        dsimp only at hval hmap
        refine ⟨by simp [Node.toMap_internal, hval, hlfnone, hlnone], ?_⟩
        rw [Function.eq_update_iff]
        refine ⟨by simp [Node.toMap_internal, hmap, hlfnone, hlnone], fun b hb => ?_⟩
        simp [Node.toMap_internal, hmap, Function.update_of_ne hb]
      · have hval : existing = _ := hs.found fun k hk => hf k (by simp [hk])
        simp [Node.toMap_internal, hval, hlfnone, hlnone]

/-- `doRemove` below a canonical node: see `RemoveSpec`. -/
theorem doRemove_spec {ptr : Node} {path : List Bool} {key : Key}
    {r : Node × Bool × Option (List UInt8)} (hc : Canonical path ptr)
    (h : doRemove ptr path.length key = .ok r) : RemoveSpec path ptr key r := by
  induction ptr generalizing path r with
  | nil => exact doRemove_nil_spec h
  | leaf nKey v => exact doRemove_leaf_spec hc h
  | internal label ℓ leafNode left right ihlf ihl ihr =>
    exact doRemove_internal_spec ihlf ihl ihr hc h

end Mkvs

end OasisCore
