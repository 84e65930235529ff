import OasisCore.Mkvs.Tree

/-!
# Canonical tries

The shape that every pending root of an MKVS tree keeps: a compressed binary trie in
which each internal node has at least two of `LeafNode`, `Left` and `Right`, each label
is well formed, every key below a node starts with the node's accumulated path, the
`LeafNode` holds the key that ends at the node, and the keys below `Left` and `Right`
go on with bit 0 and bit 1. `Canonical path t` says this of the node `t` reached along
`path`, and of every node below it; no two leaves of such a trie hold the same key
(`Canonical.nodup_keys`).

`Node.toMap` is the map the leaves hold, by the bytes of their keys; `Node.keys` lists
the leaves' keys. The lemmas here are the trie facts the operations' proofs use: where
in a canonical trie a key can be, and so which children miss it.
-/

namespace OasisCore

namespace Mkvs

open Bits

namespace Node

/-- The keys of the leaves below a node. -/
def keys : Node → List Key
  | nil => []
  | leaf k _ => [k]
  | internal _ _ leafNode left right => leafNode.keys ++ left.keys ++ right.keys

/-- The map the leaves below a node hold, by the bytes of their keys. -/
def toMap : Node → List UInt8 → Option (List UInt8)
  | nil, _ => none
  | leaf k v, b => if k.bytes = b then some v else none
  | internal _ _ leafNode left right, b => (leafNode.toMap b).or ((left.toMap b).or (right.toMap b))

/-- One for a node, zero for a nil pointer. -/
def present : Node → ℕ
  | nil => 0
  | _ => 1

@[simp] theorem present_nil : nil.present = 0 := rfl

@[simp] theorem present_leaf (k : Key) (v : List UInt8) : (leaf k v).present = 1 := rfl

theorem present_le_one (t : Node) : t.present ≤ 1 := by
  cases t <;> simp [present]

@[simp] theorem keys_nil : nil.keys = [] := rfl

@[simp] theorem keys_leaf (k : Key) (v : List UInt8) : (leaf k v).keys = [k] := rfl

@[simp] theorem keys_internal (label : Key) (ℓ : ℕ) (leafNode left right : Node) :
    (internal label ℓ leafNode left right).keys = leafNode.keys ++ left.keys ++ right.keys := rfl

@[simp] theorem toMap_nil (b : List UInt8) : nil.toMap b = none := rfl

theorem toMap_leaf (k : Key) (v b : List UInt8) :
    (leaf k v).toMap b = if k.bytes = b then some v else none := rfl

theorem toMap_internal (label : Key) (ℓ : ℕ) (leafNode left right : Node) (b : List UInt8) :
    (internal label ℓ leafNode left right).toMap b =
      (leafNode.toMap b).or ((left.toMap b).or (right.toMap b)) := rfl

/-- A node holds nothing under bytes that none of its keys has. -/
theorem toMap_eq_none {t : Node} {b : List UInt8} (h : ∀ k ∈ t.keys, k.bytes ≠ b) :
    t.toMap b = none := by
  induction t with
  | nil => rfl
  | leaf k v => simp [toMap_leaf, h k (by simp)]
  | internal label ℓ leafNode left right ihl ihlt ihr =>
    simp only [keys_internal, List.mem_append] at h
    rw [toMap_internal, ihl fun k hk => h k (.inl (.inl hk)), ihlt fun k hk => h k (.inl (.inr hk)),
      ihr fun k hk => h k (.inr hk)]
    rfl

/-- What a node holds, one of its keys holds. -/
theorem exists_key_of_toMap_isSome {t : Node} {b : List UInt8} (h : (t.toMap b).isSome) :
    ∃ k ∈ t.keys, k.bytes = b := by
  by_contra hne
  simp only [not_exists, not_and] at hne
  rw [toMap_eq_none hne] at h
  simp at h

/-- Every key of a node holds a value. -/
theorem toMap_isSome_of_mem {t : Node} {k : Key} (h : k ∈ t.keys) : (t.toMap k.bytes).isSome := by
  induction t with
  | nil => simp at h
  | leaf k' v =>
    simp only [keys_leaf, List.mem_singleton] at h
    subst h
    simp [toMap_leaf]
  | internal label ℓ leafNode left right ihl ihlt ihr =>
    simp only [keys_internal, List.mem_append] at h
    rw [toMap_internal]
    rcases h with (h | h) | h
    · simp [Option.isSome_or, ihl h]
    · simp [Option.isSome_or, ihlt h]
    · simp [Option.isSome_or, ihr h]

theorem present_eq_one_of_toMap_isSome {t : Node} {b : List UInt8} (h : (t.toMap b).isSome) :
    t.present = 1 := by
  cases t with
  | nil => simp at h
  | leaf => rfl
  | internal => rfl

end Node

/-- The conditions on one internal node of a canonical trie, reached along `path`, with
label `label` of `labelBitLength` bits (`node.go:328-343`). -/
structure InternalOk (path : List Bool) (label : Key) (labelBitLength : ℕ)
    (leafNode left right : Node) : Prop where
  /-- At least two of `LeafNode`, `Left` and `Right` are present. -/
  twoChildren : 2 ≤ leafNode.present + left.present + right.present
  /-- The label has `ToBytes(LabelBitLength)` bytes, its bits past `LabelBitLength` zero. -/
  isLabel : label.IsLabel labelBitLength
  /-- Every key below the node starts with the node's accumulated path. -/
  keys_extend : ∀ k ∈ leafNode.keys ++ left.keys ++ right.keys,
    path ++ label.bits.take labelBitLength <+: k.bits
  /-- `LeafNode` is a leaf whose key ends at the node. -/
  leafNode_ends : leafNode = .nil ∨
    ∃ k v, leafNode = .leaf k v ∧ k.bits.length = path.length + labelBitLength
  /-- The keys below `Left` go on with bit 0. -/
  left_bit : ∀ k ∈ left.keys, k.bits[path.length + labelBitLength]? = some false
  /-- The keys below `Right` go on with bit 1. -/
  right_bit : ∀ k ∈ right.keys, k.bits[path.length + labelBitLength]? = some true

/-- A canonical trie below the node reached along `path`: its leaves' keys extend the
path and have at most `MaxDepth` bits, and every internal node meets `InternalOk`. -/
def Canonical : List Bool → Node → Prop
  | _, .nil => True
  | path, .leaf key _ => path <+: key.bits ∧ key.bytes.length * 8 ≤ maxDepth
  | path, .internal label labelBitLength leafNode left right =>
    InternalOk path label labelBitLength leafNode left right ∧
      Canonical (path ++ label.bits.take labelBitLength) leafNode ∧
      Canonical (path ++ label.bits.take labelBitLength) left ∧
      Canonical (path ++ label.bits.take labelBitLength) right

namespace Canonical

theorem leaf_iff {path : List Bool} {key : Key} {v : List UInt8} :
    Canonical path (.leaf key v) ↔ path <+: key.bits ∧ key.bytes.length * 8 ≤ maxDepth :=
  Iff.rfl

theorem internal_iff {path : List Bool} {label : Key} {ℓ : ℕ} {leafNode left right : Node} :
    Canonical path (.internal label ℓ leafNode left right) ↔
      InternalOk path label ℓ leafNode left right ∧
        Canonical (path ++ label.bits.take ℓ) leafNode ∧
        Canonical (path ++ label.bits.take ℓ) left ∧
        Canonical (path ++ label.bits.take ℓ) right :=
  Iff.rfl

/-- Every key below a canonical node extends the path to it. -/
theorem prefix_of_mem {path : List Bool} {t : Node} (hc : Canonical path t) {k : Key}
    (hk : k ∈ t.keys) : path <+: k.bits := by
  cases t with
  | nil => simp at hk
  | leaf key v =>
    simp only [Node.keys_leaf, List.mem_singleton] at hk
    subst hk
    exact hc.1
  | internal label ℓ leafNode left right =>
    exact (List.prefix_append _ _).trans (hc.1.keys_extend k hk)

/-- Every key below a canonical node has at most `MaxDepth` bits. -/
theorem valid_of_mem {path : List Bool} {t : Node} (hc : Canonical path t) {k : Key}
    (hk : k ∈ t.keys) : k.bytes.length * 8 ≤ maxDepth := by
  induction t generalizing path with
  | nil => simp at hk
  | leaf key v =>
    simp only [Node.keys_leaf, List.mem_singleton] at hk
    subst hk
    exact hc.2
  | internal label ℓ leafNode left right ihl ihlt ihr =>
    obtain ⟨-, hl, hlt, hr⟩ := hc
    simp only [Node.keys_internal, List.mem_append] at hk
    rcases hk with (hk | hk) | hk
    · exact ihl hl hk
    · exact ihlt hlt hk
    · exact ihr hr hk

/-- A node of a canonical trie has a key below it. -/
theorem exists_key {path : List Bool} {t : Node} (hc : Canonical path t) (ht : t.present = 1) :
    ∃ k, k ∈ t.keys := by
  induction t generalizing path with
  | nil => simp at ht
  | leaf k v => exact ⟨k, by simp⟩
  | internal label ℓ leafNode left right ihl ihlt ihr =>
    obtain ⟨ho, hcl, hclt, hcr⟩ := hc
    have htwo := ho.twoChildren
    simp only [Node.keys_internal, List.mem_append]
    by_cases hl : leafNode.present = 1
    · obtain ⟨k, hk⟩ := ihl hcl hl
      exact ⟨k, .inl (.inl hk)⟩
    by_cases hlt : left.present = 1
    · obtain ⟨k, hk⟩ := ihlt hclt hlt
      exact ⟨k, .inl (.inr hk)⟩
    have hr : right.present = 1 := by
      have := leafNode.present_le_one
      have := left.present_le_one
      have := right.present_le_one
      omega
    obtain ⟨k, hk⟩ := ihr hcr hr
    exact ⟨k, .inr hk⟩

/-- A leaf canonical below a path is canonical below every shorter one. -/
theorem leaf_of_isPrefix {path q : List Bool} {k : Key} {v : List UInt8}
    (hc : Canonical q (.leaf k v)) (hq : path <+: q) : Canonical path (.leaf k v) :=
  ⟨hq.trans hc.1, hc.2⟩

/-- A canonical node holds nothing under bytes that do not extend its path. -/
theorem toMap_eq_none_of_not_isPrefix {path : List Bool} {t : Node} (hc : Canonical path t)
    {b : List UInt8} (hb : ¬ path <+: bitString b) : t.toMap b = none :=
  Node.toMap_eq_none fun _ hk hkb => hb (hkb ▸ hc.prefix_of_mem hk)

end Canonical

/-- A node holds nothing under bytes whose bit `n` is not `s`, what every key below it
has there (`none`: the keys end before `n`). -/
theorem Node.toMap_eq_none_of_getElem? {t : Node} {n : ℕ} {s : Option Bool}
    (ht : ∀ k ∈ t.keys, k.bits[n]? = s) {b : List UInt8} (hb : (bitString b)[n]? ≠ s) :
    t.toMap b = none :=
  Node.toMap_eq_none fun k hk hkb => hb (by rw [← hkb]; exact ht k hk)

/-- A property of the keys' bits holds of the keys of `t'` when every bytes that `t'` holds
a value under are held by `t` or have bits with the property. -/
theorem Node.forall_keys_of_toMap_isSome {t t' : Node} {P : List Bool → Prop}
    (h : ∀ b, (t'.toMap b).isSome → (t.toMap b).isSome ∨ P (bitString b))
    (ht : ∀ k ∈ t.keys, P k.bits) : ∀ k ∈ t'.keys, P k.bits := by
  intro k hk
  rcases h k.bytes (Node.toMap_isSome_of_mem hk) with hsome | hP
  · obtain ⟨k', hk', hbytes⟩ := Node.exists_key_of_toMap_isSome hsome
    have hk' := ht k' hk'
    rwa [Key.bits, hbytes] at hk'
  · exact hP

/-- The same, when `t'` holds the map of `t` updated at `b`, and `b`'s bits have the
property. -/
theorem Node.forall_keys_of_toMap_eq_update {t t' : Node} {b v : List UInt8}
    (h : t'.toMap = Function.update t.toMap b (some v)) {P : List Bool → Prop}
    (ht : ∀ k ∈ t.keys, P k.bits) (hb : P (bitString b)) : ∀ k ∈ t'.keys, P k.bits := by
  refine Node.forall_keys_of_toMap_isSome (fun b' hb' => ?_) ht
  by_cases hbb : b' = b
  · rw [hbb]
    exact .inr hb
  · rw [h, Function.update_of_ne hbb] at hb'
    exact .inl hb'

theorem Node.toMap_leaf_eq_update {k : Key} {v : List UInt8} {t : Node}
    (ht : ∀ b ≠ k.bytes, t.toMap b = none) :
    (Node.leaf k v).toMap = Function.update t.toMap k.bytes (some v) := by
  funext b
  by_cases hb : b = k.bytes
  · subst hb
    simp [Node.toMap_leaf]
  · rw [Function.update_of_ne hb, ht b hb, Node.toMap_leaf, if_neg (Ne.symm hb)]

theorem Node.toMap_leaf_eq_none {k k' : Key} {v : List UInt8} (h : k.bits ≠ k'.bits) :
    (Node.leaf k v).toMap k'.bytes = none := by
  rw [Node.toMap_leaf, if_neg]
  intro hb
  exact h (by rw [Key.bits, hb, Key.bits])

/-! ## Children of internal nodes -/

/-- A child of an internal node whose keys extend `q`, in the slot of the keys whose bit
after `q` is `slot`: for `none`, the `LeafNode`, a leaf whose key ends at `q`. -/
def ChildOk (q : List Bool) : Option Bool → Node → Prop
  | none, t => Canonical q t ∧ (t = .nil ∨ ∃ k v, t = .leaf k v ∧ k.bits.length = q.length)
  | some c, t => Canonical q t ∧ ∀ k ∈ t.keys, k.bits[q.length]? = some c

namespace ChildOk

variable {q : List Bool} {s : Option Bool} {t : Node}

theorem canonical (h : ChildOk q s t) : Canonical q t := by
  cases s with
  | none => exact h.1
  | some c => exact h.1

/-- The keys in a slot have the slot's bit after `q`. -/
theorem getElem?_eq (h : ChildOk q s t) : ∀ k ∈ t.keys, k.bits[q.length]? = s := by
  cases s with
  | none =>
    rcases h.2 with rfl | ⟨k, v, rfl, hk⟩
    · simp
    · intro k' hk'
      simp only [Node.keys_leaf, List.mem_singleton] at hk'
      subst hk'
      rw [List.getElem?_eq_none_iff]
      omega
  | some c => exact h.2

theorem nil : ChildOk q s .nil := by
  cases s with
  | none => exact ⟨trivial, .inl rfl⟩
  | some c => exact ⟨trivial, by simp⟩

/-- A leaf fits the slot of its key's bit after `q`. -/
theorem leaf {k : Key} {v : List UInt8} (hc : Canonical q (.leaf k v))
    (hq : q.length ≤ k.bits.length) : ChildOk q (k.bits[q.length]?) (.leaf k v) := by
  cases hbit : k.bits[q.length]? with
  | none =>
    rw [List.getElem?_eq_none_iff] at hbit
    exact ⟨hc, .inr ⟨k, v, rfl, by omega⟩⟩
  | some c =>
    refine ⟨hc, ?_⟩
    simpa using hbit

/-- A slot holds nothing under bytes whose bit after `q` is not the slot's. -/
theorem toMap_eq_none (h : ChildOk q s t) {b : List UInt8} (hb : (bitString b)[q.length]? ≠ s) :
    t.toMap b = none :=
  Node.toMap_eq_none_of_getElem? h.getElem?_eq hb

end ChildOk

namespace Canonical

/-- An internal node is canonical when it has two children and a well-formed label, and
each child fits its slot below the node's accumulated path. -/
theorem internal_iff_childOk {path : List Bool} {label : Key} {ℓ : ℕ} {leafNode left right : Node} :
    Canonical path (.internal label ℓ leafNode left right) ↔
      2 ≤ leafNode.present + left.present + right.present ∧ label.IsLabel ℓ ∧
      ChildOk (path ++ label.bits.take ℓ) none leafNode ∧
      ChildOk (path ++ label.bits.take ℓ) (some false) left ∧
      ChildOk (path ++ label.bits.take ℓ) (some true) right := by
  constructor
  · rintro ⟨ho, hclf, hcl, hcr⟩
    have hlen : (path ++ label.bits.take ℓ).length = path.length + ℓ := by
      rw [List.length_append, Key.length_take_bits_of_isLabel ho.isLabel]
    refine ⟨ho.twoChildren, ho.isLabel, ⟨hclf, ?_⟩, ⟨hcl, ?_⟩, ⟨hcr, ?_⟩⟩
    · rw [hlen]
      exact ho.leafNode_ends
    · rw [hlen]
      exact ho.left_bit
    · rw [hlen]
      exact ho.right_bit
  · rintro ⟨htwo, hlabel, ⟨hclf, hlf⟩, ⟨hcl, hl⟩, ⟨hcr, hr⟩⟩
    have hlen : (path ++ label.bits.take ℓ).length = path.length + ℓ := by
      rw [List.length_append, Key.length_take_bits_of_isLabel hlabel]
    rw [hlen] at hlf hl hr
    refine ⟨⟨htwo, hlabel, ?_, hlf, hl, hr⟩, hclf, hcl, hcr⟩
    intro k hk
    simp only [List.mem_append] at hk
    rcases hk with (hk | hk) | hk
    · exact hclf.prefix_of_mem hk
    · exact hcl.prefix_of_mem hk
    · exact hcr.prefix_of_mem hk

/-- No two leaves of a canonical trie hold keys with the same bits: below an internal
node, the keys of different slots differ in the bit after the node's path. -/
theorem nodup_bits {path : List Bool} {t : Node} (hc : Canonical path t) :
    (t.keys.map Key.bits).Nodup := by
  induction t generalizing path with
  | nil => simp
  | leaf k v => simp
  | internal label ℓ leafNode left right ihlf ihl ihr =>
    obtain ⟨-, -, hlf, hl, hr⟩ := internal_iff_childOk.mp hc
    have hslot : ∀ {s s' : Option Bool} {t t' : Node}, ChildOk (path ++ label.bits.take ℓ) s t →
        ChildOk (path ++ label.bits.take ℓ) s' t' → s ≠ s' →
        ∀ a ∈ t.keys.map Key.bits, ∀ b ∈ t'.keys.map Key.bits, a ≠ b := by
      intro s s' t t' ht ht' hne a ha b hb hab
      obtain ⟨k, hk, rfl⟩ := List.mem_map.mp ha
      obtain ⟨k', hk', rfl⟩ := List.mem_map.mp hb
      have h1 := ht.getElem?_eq k hk
      have h2 := ht'.getElem?_eq k' hk'
      rw [hab] at h1
      exact hne (h1.symm.trans h2)
    simp only [Node.keys_internal, List.map_append, List.nodup_append]
    refine ⟨⟨ihlf hlf.canonical, ihl hl.canonical, hslot hlf hl (by simp)⟩, ihr hr.canonical, ?_⟩
    intro a ha b hb
    rw [List.mem_append] at ha
    rcases ha with ha | ha
    · exact hslot hlf hr (by simp) a ha b hb
    · exact hslot hl hr (by simp) a ha b hb

/-- No two leaves of a canonical trie hold the same key. -/
theorem nodup_keys {path : List Bool} {t : Node} (hc : Canonical path t) :
    (t.keys.map Key.bytes).Nodup :=
  List.Nodup.of_map bitString (by rw [List.map_map]; exact hc.nodup_bits)

/-- The lower part of an internal node whose edge is split after `cp` of its label's
bits: the rest of the label, the same children, in the slot of the label's bit `cp`. -/
theorem childOk_split {path : List Bool} {label : Key} {ℓ : ℕ} {leafNode left right : Node}
    (hc : Canonical path (.internal label ℓ leafNode left right)) {cp : ℕ} (hcp : cp < ℓ) :
    ChildOk (path ++ label.bits.take cp) (label.bits[cp]?)
      (.internal (.ofBytes (Key.splitSuffix label.bytes cp ℓ)) (ℓ - cp) leafNode left right) := by
  obtain ⟨htwo, hlabel, hlf, hl, hr⟩ := internal_iff_childOk.mp hc
  have hℓ := hlabel.le_length_bits
  have hpath : path ++ label.bits.take cp ++
      (Key.ofBytes (Key.splitSuffix label.bytes cp ℓ)).bits.take (ℓ - cp) =
        path ++ label.bits.take ℓ := by
    rw [Key.take_bits_splitSuffix _ hℓ, List.append_assoc,
      show label.bits.take cp = (label.bits.take ℓ).take cp by rw [List.take_take]; congr 1; omega,
      List.take_append_drop]
  rw [List.getElem?_eq_getElem (by omega)]
  refine ⟨internal_iff_childOk.mpr ⟨htwo, Key.isLabel_splitSuffix cp hlabel.2, ?_, ?_, ?_⟩, ?_⟩
  · rw [hpath]
    exact hlf
  · rw [hpath]
    exact hl
  · rw [hpath]
    exact hr
  · intro k hk
    have hpre := hc.1.keys_extend k hk
    have hcpl : (path ++ label.bits.take cp).length = path.length + cp := by
      simp only [List.length_append, List.length_take]
      omega
    have hlt : (path ++ label.bits.take cp).length < (path ++ label.bits.take ℓ).length := by
      rw [hcpl, List.length_append, Key.length_take_bits_of_isLabel hlabel]
      omega
    rw [getElem?_of_isPrefix hpre hlt, hcpl, List.getElem?_append_right (by omega),
      Nat.add_sub_cancel_left, List.getElem?_take_of_lt hcp, List.getElem?_eq_getElem (by omega)]

end Canonical

end Mkvs

end OasisCore
