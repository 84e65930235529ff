import OasisCore.Mkvs.Insert
import OasisCore.Mkvs.Remove

/-!
# The tree's operations as a map

The tree operations over the trie: `Insert`, `RemoveExisting` and `Commit` keep the
pending root canonical, so every tree reached from `New` has a canonical root in which no
two leaves hold the same key (`pendingRoot_canonical`). `doGet` below a canonical root
reads the root's map (`doGet_spec`), unless a leaf holds the key's bytes under a key
that is not `Equal` to it.

That exception is real: a nil key and an empty key have the same bytes and the same entry
of the write log, but `Key.Equal` tells them apart. After `Insert(nil)` and
`Remove([]byte{})` the write log says removed while the trie still holds the nil key's
value (`get_fastPath_disagrees_nil_key`), and the write log of the next `Commit` leaves the
key out (`commitLog_drops_nil_key`).
-/

namespace OasisCore

namespace Mkvs

open Bits

/-- `doGet` below a canonical node reads the node's map, for a key of at most `MaxDepth`
bits that no leaf holds under a key not `Equal` to it. -/
theorem doGet_spec {ptr : Node} {path : List Bool} {key : Key} (hc : Canonical path ptr)
    (hvalid : key.bytes.length * 8 ≤ maxDepth)
    (hequal : ∀ k ∈ ptr.keys, k.bytes = key.bytes → k.equal key = true) :
    doGet ptr path.length key = .ok (ptr.toMap key.bytes) := by
  induction ptr generalizing path with
  | nil => rfl
  | leaf nKey v =>
    rw [doGet]
    by_cases heq : nKey.equal key
    · simp [heq, Node.toMap_leaf, Key.bytes_eq_of_equal heq, pure, Except.pure]
    · have hbytes : nKey.bytes ≠ key.bytes := fun hb => heq (hequal nKey (by simp) hb)
      simp [heq, Node.toMap_leaf, hbytes, pure, Except.pure]
  | internal label ℓ leafNode left right ihlf ihl ihr =>
    obtain ⟨htwo, hlabel, hlf, hl, hr⟩ := Canonical.internal_iff_childOk.mp hc
    have hQlen : (path ++ label.bits.take ℓ).length = path.length + ℓ := by
      rw [List.length_append, Key.length_take_bits_of_isLabel hlabel]
    have hslot : ∀ {s : Option Bool} {t : Node}, ChildOk (path ++ label.bits.take ℓ) s t →
        key.bits[path.length + ℓ]? ≠ s → t.toMap key.bytes = none := by
      intro s t hok hne
      exact hok.toMap_eq_none (by rw [hQlen]; exact hne)
    have hchild : ∀ {t : Node}, t ∈ [leafNode, left, right] →
        ∀ k ∈ t.keys, k.bytes = key.bytes → k.equal key = true := by
      intro t ht k hk
      simp only [List.mem_cons, List.not_mem_nil, or_false] at ht
      rcases ht with rfl | rfl | rfl <;> exact hequal k (by simp [hk])
    rw [doGet, Key.bitLength_eq_ok.mpr ⟨hvalid, rfl⟩, Except.ok_bind]
    split_ifs with heq hlt
    · -- the key ends at the node: its `LeafNode`
      have hend : key.bits[path.length + ℓ]? = none := List.getElem?_eq_none (by omega)
      rw [← hQlen, ihlf hlf.canonical (hchild (by simp)), Node.toMap_internal,
        hslot hl (by rw [hend]; simp), hslot hr (by rw [hend]; simp)]
      simp
    · -- the key is shorter than the path to the node
      refine congrArg Except.ok (Node.toMap_eq_none fun k hk hkb => ?_).symm
      have hlen := (hc.1.keys_extend k hk).length_le
      rw [List.length_append, Key.length_take_bits_of_isLabel hlabel, Key.length_bits, hkb,
        ← Key.length_bits] at hlen
      omega
    · -- the key goes on: the child of its next bit
      have hi : path.length + ℓ < key.bits.length := by omega
      have hbit : key.mustGetBit (path.length + ℓ) = .ok key.bits[path.length + ℓ] :=
        Key.mustGetBit_eq_ok.mpr (List.getElem?_eq_getElem hi)
      have hkbit := List.getElem?_eq_getElem hi
      have hlfnone := hslot hlf (by rw [hkbit]; simp)
      rw [hbit, Except.ok_bind]
      cases hb : key.bits[path.length + ℓ] <;> rw [hb] at hkbit <;>
        simp only [Bool.false_eq_true, ↓reduceIte]
      · rw [← hQlen, ihl hl.canonical (hchild (by simp)), Node.toMap_internal, hlfnone,
          hslot hr (by rw [hkbit]; simp)]
        simp
      · rw [← hQlen, ihr hr.canonical (hchild (by simp)), Node.toMap_internal, hlfnone,
          hslot hl (by rw [hkbit]; simp)]
        simp

namespace Tree

/-- A successful `Insert`: the insert into the root, and the pending write log. -/
theorem insert_eq_ok {t t' : Tree} {key : Key} {value : Option (List UInt8)}
    (h : t.insert key value = .ok t') :
    ∃ r, doInsert t.pendingRoot 0 key (value.getD []) = .ok r ∧ t' = { t with
      pendingRoot := r.newRoot
      pendingWriteLog :=
        if t.withoutWriteLog then t.pendingWriteLog
        else
          match t.pendingWriteLog.lookup key.bytes with
          | none => t.pendingWriteLog.set key.bytes ⟨key, some (value.getD []), r.existed⟩
          | some entry => t.pendingWriteLog.set key.bytes { entry with value := some (value.getD []) } } := by
  obtain ⟨r, hr, h⟩ := Except.bind_eq_ok.mp h
  exact ⟨r, hr, (Except.pure_eq_ok.mp h).symm⟩

/-- A successful `RemoveExisting`: nothing, for a key whose entry says removed, or the
removal from the root and the pending write log. -/
theorem removeExisting_eq_ok {t t' : Tree} {key : Key} {v : Option (List UInt8)}
    (h : t.removeExisting key = .ok (t', v)) :
    ((if t.withoutWriteLog then none else t.pendingWriteLog.lookup key.bytes).any
        (·.value.isNone) ∧ t' = t ∧ v = none) ∨
    ∃ newRoot changed, doRemove t.pendingRoot 0 key = .ok (newRoot, changed, v) ∧ t' = { t with
      pendingRoot := newRoot
      pendingWriteLog :=
        if t.withoutWriteLog then t.pendingWriteLog
        else
          match (if t.withoutWriteLog then none else t.pendingWriteLog.lookup key.bytes) with
          | none => t.pendingWriteLog.set key.bytes ⟨key, none, changed⟩
          | some e => t.pendingWriteLog.set key.bytes { e with value := none } } := by
  unfold removeExisting at h
  dsimp only at h
  by_cases hany : (if t.withoutWriteLog then none else t.pendingWriteLog.lookup key.bytes).any
      (·.value.isNone) = true
  · rw [if_pos hany] at h
    obtain ⟨rfl, rfl⟩ := Prod.mk.inj (Except.ok.inj h)
    exact .inl ⟨hany, rfl, rfl⟩
  · rw [if_neg hany] at h
    obtain ⟨⟨newRoot, changed, existing⟩, hr, h⟩ := Except.bind_eq_ok.mp h
    rw [Except.pure_eq_ok, Prod.mk.injEq] at h
    obtain ⟨rfl, rfl⟩ := h
    exact .inr ⟨newRoot, changed, hr, rfl⟩

theorem remove_eq_ok {t t' : Tree} {key : Key} (h : t.remove key = .ok t') :
    ∃ v, t.removeExisting key = .ok (t', v) := by
  unfold remove at h
  cases hr : t.removeExisting key with
  | error e =>
    rw [hr] at h
    cases h
  | ok p =>
    rw [hr] at h
    cases h
    exact ⟨p.2, rfl⟩

@[simp] theorem commit_pendingRoot (o : IterOrder (List UInt8)) (noPersist : Bool) (t : Tree) :
    (t.commit o noPersist).1.pendingRoot = t.pendingRoot := by
  unfold commit
  split <;> rfl

@[simp] theorem commit_snd (o : IterOrder (List UInt8)) (noPersist : Bool) (t : Tree) :
    (t.commit o noPersist).2 = t.commitLog o := rfl

/-- A write log whose entries all say removed and not existing commits to nothing. -/
theorem commitLog_eq_nil_of {t : Tree}
    (h : ∀ k ∈ t.pendingWriteLog.keys,
      (t.pendingWriteLog.get k).value = none ∧ (t.pendingWriteLog.get k).existed = false)
    (o : IterOrder (List UInt8)) : t.commitLog o = [] := by
  rw [commitLog, List.filterMap_eq_nil_iff]
  intro k hk
  obtain ⟨hv, he⟩ := h k ((o.mem_enum _ k).mp hk)
  simp [hv, he]

@[simp] theorem applyWriteLog_nil (t : Tree) : t.applyWriteLog [] = .ok t := rfl

theorem insert_canonical {t t' : Tree} {key : Key} {value : Option (List UInt8)}
    (hc : Canonical [] t.pendingRoot) (h : t.insert key value = .ok t') :
    Canonical [] t'.pendingRoot := by
  obtain ⟨r, hr, rfl⟩ := insert_eq_ok h
  exact (doInsert_spec hc (List.nil_prefix) hr).canonical

theorem removeExisting_canonical {t t' : Tree} {key : Key} {v : Option (List UInt8)}
    (hc : Canonical [] t.pendingRoot) (h : t.removeExisting key = .ok (t', v)) :
    Canonical [] t'.pendingRoot := by
  rcases removeExisting_eq_ok h with ⟨-, rfl, -⟩ | ⟨newRoot, changed, hr, rfl⟩
  · exact hc
  · exact (doRemove_spec hc hr).canonical

end Tree

/-- The trees reachable from `New` by successful inserts, removals and commits. -/
inductive Reachable : Tree → Prop
  | new (withoutWriteLog : Bool) : Reachable (Tree.new withoutWriteLog)
  | insert {t t' : Tree} (key : Key) (value : Option (List UInt8)) :
      Reachable t → t.insert key value = .ok t' → Reachable t'
  | removeExisting {t t' : Tree} (key : Key) (v : Option (List UInt8)) :
      Reachable t → t.removeExisting key = .ok (t', v) → Reachable t'
  | commit {t : Tree} (o : IterOrder (List UInt8)) (noPersist : Bool) :
      Reachable t → Reachable (t.commit o noPersist).1

theorem Reachable.remove {t t' : Tree} {key : Key} (ht : Reachable t)
    (h : t.remove key = .ok t') : Reachable t' := by
  obtain ⟨v, hv⟩ := Tree.remove_eq_ok h
  exact .removeExisting key v ht hv

/-- Every pending root reached from `New` by inserts, removals and commits is a canonical
compressed binary trie: each internal node has two of `LeafNode`, `Left` and `Right`, a
well-formed label, keys below it that extend its path, its `LeafNode` for the key ending
there and the keys going on with bit 0 and bit 1 under `Left` and `Right`; and no two
leaves hold the same key. -/
theorem pendingRoot_canonical {t : Tree} (ht : Reachable t) :
    Canonical [] t.pendingRoot ∧ (t.pendingRoot.keys.map Key.bytes).Nodup := by
  have hc : Canonical [] t.pendingRoot := by
    induction ht with
    | new => trivial
    | insert key value _ h ih => exact Tree.insert_canonical ih h
    | removeExisting key v _ h ih => exact Tree.removeExisting_canonical ih h
    | commit o noPersist _ ih => rwa [Tree.commit_pendingRoot]
  exact ⟨hc, hc.nodup_keys⟩

/-- The root after two inserts of keys that part at their first bit. -/
theorem pendingRoot_canonical_two_keys :
    ∃ t₁ t₂, (Tree.new false).insert (.ofBytes [0x7f]) (some [1]) = .ok t₁ ∧
      t₁.insert (.ofBytes [0xff]) (some [2]) = .ok t₂ ∧
      Canonical [] t₂.pendingRoot ∧ (t₂.pendingRoot.keys.map Key.bytes).Nodup := by
  refine ⟨_, _, rfl, rfl, ?_⟩
  exact pendingRoot_canonical (.insert (.ofBytes [0xff]) (some [2])
    (.insert (.ofBytes [0x7f]) (some [1]) (.new false) rfl) rfl)

/-- `Insert(nil, [1])` and then `Remove([]byte{})`: the write log keys both by the empty
bytes, so `Get(nil)` answers from the entry that says removed, while the trie, whose
leaf holds the nil key that is not `Equal` to the empty one, still has the value; after a
`Commit` empties the write log, `Get(nil)` returns the value again. -/
theorem get_fastPath_disagrees_nil_key :
    ∃ t₁ t₂, (Tree.new false).insert .null (some [1]) = .ok t₁ ∧
      t₁.remove (.ofBytes []) = .ok t₂ ∧
      t₂.get .null = .ok none ∧ doGet t₂.pendingRoot 0 .null = .ok (some [1]) ∧
      ∀ o, (t₂.commit o false).1.get .null = .ok (some [1]) :=
  ⟨_, _, rfl, rfl, rfl, rfl, fun _ => rfl⟩

/-- From the empty tree, `Insert(nil, [1])` and `Remove([]byte{})`: the pending entry of
the empty bytes says removed and not existing, so in every map order the commit's write
log is empty and applied to the empty tree leaves it as it is, while the committed tree
still answers `Get(nil)` with `[1]`. -/
theorem commitLog_drops_nil_key :
    ∃ t₁ t₂, (Tree.new false).insert .null (some [1]) = .ok t₁ ∧
      t₁.remove (.ofBytes []) = .ok t₂ ∧
      ∀ o, (t₂.commit o false).2 = [] ∧
        (Tree.new false).applyWriteLog (t₂.commit o false).2 = .ok (Tree.new false) ∧
        (Tree.new false).get .null = .ok none ∧
        (t₂.commit o false).1.get .null = .ok (some [1]) := by
  refine ⟨_, _, rfl, rfl, fun o => ?_⟩
  rw [Tree.commit_snd, Tree.commitLog_eq_nil_of]
  · exact ⟨rfl, rfl, rfl, rfl⟩
  intro k hk
  have hkeys : k = [] := by simpa [Tree.new] using hk
  subst hkeys
  exact ⟨rfl, rfl⟩

end Mkvs

end OasisCore
