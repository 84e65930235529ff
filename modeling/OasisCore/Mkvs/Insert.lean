import OasisCore.Mkvs.Canonical

/-!
# Insertion keeps a trie canonical

`doInsert` below a canonical node, along a path that the key extends, returns a canonical
node that holds the node's map updated at the key, and tells whether the key was there
(`doInsert_spec`). The proof follows the code's cases: a nil pointer becomes the new
leaf; a leaf with an `Equal` key takes the new value; a key that runs through an internal
node's label goes down into the child of its next bit; anywhere else the key and the old
node part, and a new internal node holds both (`InsertSpec.fork`).

The one place where the code's cases and the bytes disagree is a leaf of a nil key under
an empty key: the keys are not `Equal`, and the insert panics
(`doInsert_empty_below_null_panics`).
-/

namespace OasisCore

namespace Mkvs

open Bits

/-- What a successful `doInsert` below a canonical node returns: a canonical node that
holds the map updated at the key, and whether the key was there before. -/
structure InsertSpec (path : List Bool) (ptr : Node) (key : Key) (val : List UInt8)
    (r : InsertResult) : Prop where
  canonical : Canonical path r.newRoot
  toMap_eq : r.newRoot.toMap = Function.update ptr.toMap key.bytes (some val)
  existed_eq : r.existed = (ptr.toMap key.bytes).isSome

/-- The map of an internal node that holds a new leaf and a node `t` missing the leaf's
key, with a nil pointer in the third slot. -/
theorem Node.toMap_fork {t : Node} {key : Key} {val : List UInt8}
    (hnone : t.toMap key.bytes = none) {label : Key} {ℓ : ℕ} {A B C : Node}
    (h : [A, B, C] = [.leaf key val, .nil, t] ∨ [A, B, C] = [.leaf key val, t, .nil] ∨
      [A, B, C] = [.nil, t, .leaf key val] ∨ [A, B, C] = [.nil, .leaf key val, t] ∨
      [A, B, C] = [t, .nil, .leaf key val] ∨ [A, B, C] = [t, .leaf key val, .nil]) :
    (Node.internal label ℓ A B C).toMap = Function.update t.toMap key.bytes (some val) := by
  rw [Function.eq_update_iff]
  constructor
  · rcases h with h | h | h | h | h | h <;> simp only [List.cons.injEq, and_true] at h <;>
      obtain ⟨rfl, rfl, rfl⟩ := h <;> simp [Node.toMap_internal, Node.toMap_leaf, hnone]
  · intro b hb
    have hleaf : (Node.leaf key val).toMap b = none := by
      rw [Node.toMap_leaf, if_neg (Ne.symm hb)]
    rcases h with h | h | h | h | h | h <;> simp only [List.cons.injEq, and_true] at h <;>
      obtain ⟨rfl, rfl, rfl⟩ := h <;> simp [Node.toMap_internal, hleaf]

/-- An insert that forks: a new internal node labelled with the `cp` bits that the key
shares with the old node `t` below it, holding the new leaf and `t` in their slots. -/
theorem InsertSpec.fork {path : List Bool} {ptr t : Node} {key : Key} {val : List UInt8}
    {P : Key} {cp : ℕ} (hP : P.IsLabel cp) {A B C : Node}
    (hA : ChildOk (path ++ P.bits.take cp) none A)
    (hB : ChildOk (path ++ P.bits.take cp) (some false) B)
    (hC : ChildOk (path ++ P.bits.take cp) (some true) C)
    (hshape : [A, B, C] = [.leaf key val, .nil, t] ∨ [A, B, C] = [.leaf key val, t, .nil] ∨
      [A, B, C] = [.nil, t, .leaf key val] ∨ [A, B, C] = [.nil, .leaf key val, t] ∨
      [A, B, C] = [t, .nil, .leaf key val] ∨ [A, B, C] = [t, .leaf key val, .nil])
    (htp : t.present = 1) (ht : t.toMap = ptr.toMap) (hnone : ptr.toMap key.bytes = none) :
    InsertSpec path ptr key val ⟨.internal P cp A B C, false⟩ := by
  have htnone : t.toMap key.bytes = none := by rw [ht, hnone]
  refine ⟨Canonical.internal_iff_childOk.mpr ⟨?_, hP, hA, hB, hC⟩, ?_, ?_⟩
  · rcases hshape with h | h | h | h | h | h <;> simp only [List.cons.injEq, and_true] at h <;>
      obtain ⟨rfl, rfl, rfl⟩ := h <;> simp [htp]
  · rw [Node.toMap_fork htnone hshape, ht]
  · simp [hnone]

/-- Below a nil pointer, an insert makes the new leaf. -/
theorem doInsert_nil_eq_ok {d : ℕ} {key : Key} {val : List UInt8} {r : InsertResult}
    (h : doInsert .nil d key val = .ok r) :
    key.bytes.length * 8 ≤ maxDepth ∧ r = ⟨.leaf key val, false⟩ := by
  obtain ⟨n, hn, h⟩ := Except.bind_eq_ok.mp h
  obtain ⟨hmax, rfl⟩ := Key.bitLength_eq_ok.mp hn
  obtain ⟨⟨_, _⟩, -, h⟩ := Except.bind_eq_ok.mp h
  exact ⟨hmax, (Except.pure_eq_ok.mp h).symm⟩

theorem doInsert_nil_spec {path : List Bool} {key : Key} {val : List UInt8} {r : InsertResult}
    (hpath : path <+: key.bits) (h : doInsert .nil path.length key val = .ok r) :
    InsertSpec path .nil key val r := by
  obtain ⟨hmax, rfl⟩ := doInsert_nil_eq_ok h
  exact ⟨⟨hpath, hmax⟩, Node.toMap_leaf_eq_update fun _ _ => rfl, rfl⟩

/-- Inserting an empty key below the leaf of a nil key panics: the keys are not `Equal`,
so the insert looks for the bit where they part, and reads past the empty remainder. -/
theorem doInsert_empty_below_null_panics (v val : List UInt8) (d : ℕ) :
    doInsert (.leaf .null v) d (.ofBytes []) val = .error .panic := by
  cases d <;> rfl

/-- Below a leaf whose key has the key's bits, an insert replaces the leaf's value and
keeps its key. -/
theorem doInsert_leaf_of_bits_eq {nKey : Key} {v : List UInt8} {d : ℕ} {key : Key}
    {val : List UInt8} {r : InsertResult} (hbits : nKey.bits = key.bits)
    (h : doInsert (.leaf nKey v) d key val = .ok r) : r = ⟨.leaf nKey val, true⟩ := by
  by_cases heq : nKey.equal key
  · obtain ⟨n, -, h⟩ := Except.bind_eq_ok.mp h
    obtain ⟨⟨_, _⟩, -, h⟩ := Except.bind_eq_ok.mp h
    dsimp only at h
    rw [if_pos heq, Except.pure_eq_ok] at h
    exact h.symm
  · obtain ⟨rfl, rfl⟩ := Key.eq_null_of_bytes_eq (Key.bits_injective hbits) (by simpa using heq)
    rw [doInsert_empty_below_null_panics] at h
    cases h

theorem doInsert_leaf_spec {path : List Bool} {nKey : Key} {v : List UInt8} {key : Key}
    {val : List UInt8} {r : InsertResult} (hc : Canonical path (.leaf nKey v))
    (hpath : path <+: key.bits) (h : doInsert (.leaf nKey v) path.length key val = .ok r) :
    InsertSpec path (.leaf nKey v) key val r := by
  obtain ⟨n, hn, h⟩ := Except.bind_eq_ok.mp h
  obtain ⟨hmax, rfl⟩ := Key.bitLength_eq_ok.mp hn
  obtain ⟨⟨_, rem⟩, hsplit, h⟩ := Except.bind_eq_ok.mp h
  obtain ⟨-, hd, hrem⟩ := Key.mustSplit_eq_ok.mp hsplit
  simp only [Prod.mk.injEq] at hrem
  obtain ⟨-, rfl⟩ := hrem
  dsimp only at h
  split at h
  · rename_i heq
    rw [Except.pure_eq_ok] at h
    subst h
    have hbytes := Key.bytes_eq_of_equal heq
    refine ⟨hc, ?_, by simp [Node.toMap_leaf, hbytes]⟩
    rw [← hbytes]
    exact Node.toMap_leaf_eq_update fun b hb => by rw [Node.toMap_leaf, if_neg (Ne.symm hb)]
  rename_i hne
  obtain ⟨m, hm, h⟩ := Except.bind_eq_ok.mp h
  obtain ⟨-, rfl⟩ := Key.bitLength_eq_ok.mp hm
  obtain ⟨⟨_, lrem⟩, hsplit', h⟩ := Except.bind_eq_ok.mp h
  obtain ⟨-, hdN, hlrem⟩ := Key.mustSplit_eq_ok.mp hsplit'
  simp only [Prod.mk.injEq] at hlrem
  obtain ⟨-, rfl⟩ := hlrem
  dsimp only at h
  obtain ⟨cp, hcp, h⟩ := Except.bind_eq_ok.mp h
  obtain ⟨-, -, hcp⟩ := Key.commonPrefixLen_eq_ok.mp hcp
  rw [Key.take_bits_splitSuffix _ le_rfl, Key.take_bits_splitSuffix _ le_rfl, List.take_length,
    List.take_length] at hcp
  obtain ⟨lbl, hlbl, h⟩ := Except.bind_eq_ok.mp h
  obtain ⟨-, rfl⟩ := Key.bitLength_eq_ok.mp hlbl
  obtain ⟨⟨P, _⟩, hsplitP, h⟩ := Except.bind_eq_ok.mp h
  obtain ⟨-, hcpl, hP⟩ := Key.mustSplit_eq_ok.mp hsplitP
  simp only [Prod.mk.injEq] at hP
  obtain ⟨rfl, -⟩ := hP
  dsimp only at h
  -- both keys extend `path`, then agree on `cp` more bits, the path `Q` to the fork
  have hNd := List.prefix_iff_eq_append.mp hc.1
  have hKd := List.prefix_iff_eq_append.mp hpath
  have hcpN : cp ≤ nKey.bits.length - path.length := by
    rw [hcp, ← List.length_drop]
    exact prefixLength_le_left _ _
  have hcpK : cp ≤ key.bits.length - path.length := by
    rw [hcp, ← List.length_drop]
    exact prefixLength_le_right _ _
  have htake : (nKey.bits.drop path.length).take cp = (key.bits.drop path.length).take cp := by
    rw [hcp]
    exact take_prefixLength _ _
  have hQ : (Key.ofBytes (Key.splitPrefix (Key.ofBytes (Key.splitSuffix nKey.bytes path.length
      nKey.bits.length)).bytes cp)).bits.take cp = (nKey.bits.drop path.length).take cp := by
    have hrest : (Key.ofBytes (Key.splitSuffix nKey.bytes path.length nKey.bits.length)).bits.take cp =
        ((Key.ofBytes (Key.splitSuffix nKey.bytes path.length nKey.bits.length)).bits.take
          (nKey.bits.length - path.length)).take cp := by
      rw [List.take_take, Nat.min_eq_left hcpN]
    rw [Key.take_bits_splitPrefix _ hcpl, hrest, Key.take_bits_splitSuffix _ le_rfl, List.take_length]
  have hQN : path ++ (nKey.bits.drop path.length).take cp <+: nKey.bits := by
    conv_rhs => rw [← hNd]
    exact (List.prefix_append_right_inj path).mpr (List.take_prefix _ _)
  have hQK : path ++ (nKey.bits.drop path.length).take cp <+: key.bits := by
    conv_rhs => rw [← hKd]
    rw [htake]
    exact (List.prefix_append_right_inj path).mpr (List.take_prefix _ _)
  have hQlen : (path ++ (nKey.bits.drop path.length).take cp).length = path.length + cp := by
    simp only [List.length_append, List.length_take, List.length_drop]
    omega
  have hkeyOk := ChildOk.leaf (v := val) ⟨hQK, hmax⟩ (by rw [hQlen]; omega)
  have hnOk := ChildOk.leaf (v := v) ⟨hQN, hc.2⟩ (by rw [hQlen]; omega)
  rw [hQlen] at hkeyOk hnOk
  rw [← hQ] at hkeyOk hnOk
  have hlabel := Key.isLabel_splitPrefix (Key.ofBytes (Key.splitSuffix nKey.bytes path.length
    nKey.bits.length)).bytes cp
  split at h
  · -- the key ends at the fork
    rename_i hkend
    obtain ⟨bit, hbit, h⟩ := Except.bind_eq_ok.mp h
    rw [Key.mustGetBit_eq_ok] at hbit
    have hlt : cp < nKey.bits.length - path.length := by
      by_contra hge
      -- the leaf's key would have the key's bits: only a nil key and an empty one differ so
      have hNK : nKey.bits = key.bits := by
        rw [← hNd, ← hKd, ← List.take_of_length_le (l := nKey.bits.drop path.length)
          (show (nKey.bits.drop path.length).length ≤ cp by rw [List.length_drop]; omega),
          ← List.take_of_length_le (l := key.bits.drop path.length)
          (show (key.bits.drop path.length).length ≤ cp by rw [List.length_drop]; omega), htake]
      obtain ⟨rfl, rfl⟩ := Key.eq_null_of_bytes_eq (Key.bits_injective hNK) (by simpa using hne)
      have := (List.getElem?_eq_some_iff.mp hbit).1
      simp [toBytes] at this
    rw [Key.getElem?_bits_splitSuffix _ hlt] at hbit
    have hkeyEnd : key.bits[path.length + cp]? = none := List.getElem?_eq_none (by omega)
    rw [hbit] at hnOk
    rw [hkeyEnd] at hkeyOk
    have hnone : (Node.leaf nKey v).toMap key.bytes = none :=
      Node.toMap_leaf_eq_none fun hNK => by
        have := congrArg List.length hNK
        omega
    cases bit <;> simp only [Bool.false_eq_true, ↓reduceIte, Except.pure_eq_ok] at h <;> subst h
    · exact InsertSpec.fork (t := .leaf nKey v) hlabel hkeyOk hnOk .nil (by simp) rfl rfl hnone
    · exact InsertSpec.fork (t := .leaf nKey v) hlabel hkeyOk .nil hnOk (by simp) rfl rfl hnone
  split at h
  · -- the leaf's key ends at the fork
    rename_i hkend hnend
    obtain ⟨bit, hbit, h⟩ := Except.bind_eq_ok.mp h
    rw [Key.mustGetBit_eq_ok, Key.getElem?_bits_splitSuffix _ (by omega)] at hbit
    have hnEnd : nKey.bits[path.length + cp]? = none := List.getElem?_eq_none (by omega)
    rw [hbit] at hkeyOk
    rw [hnEnd] at hnOk
    have hnone : (Node.leaf nKey v).toMap key.bytes = none :=
      Node.toMap_leaf_eq_none fun hNK => by
        have := congrArg List.length hNK
        omega
    cases bit <;> simp only [Bool.false_eq_true, ↓reduceIte, Except.pure_eq_ok] at h <;> subst h
    · exact InsertSpec.fork (t := .leaf nKey v) hlabel hnOk hkeyOk .nil (by simp) rfl rfl hnone
    · exact InsertSpec.fork (t := .leaf nKey v) hlabel hnOk .nil hkeyOk (by simp) rfl rfl hnone
  · -- both keys go on past the fork, with different bits
    rename_i hkend hnend
    obtain ⟨bit, hbit, h⟩ := Except.bind_eq_ok.mp h
    rw [Key.mustGetBit_eq_ok, Key.getElem?_bits_splitSuffix _ (by omega)] at hbit
    have hdiff : nKey.bits[path.length + cp]? ≠ key.bits[path.length + cp]? := by
      have hne' := @getElem_ne_of_prefixLength Bool _ (nKey.bits.drop path.length)
        (key.bits.drop path.length) (by rw [← hcp, List.length_drop]; omega)
        (by rw [← hcp, List.length_drop]; omega)
      simp only [← hcp, List.getElem_drop] at hne'
      rw [List.getElem?_eq_getElem (by omega), List.getElem?_eq_getElem (by omega)]
      simpa using hne'
    have hnbit : nKey.bits[path.length + cp]? = some !bit := by
      rw [List.getElem?_eq_getElem (by omega)] at hdiff ⊢
      rw [hbit] at hdiff
      cases bit <;> simpa using hdiff
    rw [hbit] at hkeyOk
    rw [hnbit] at hnOk
    have hnone : (Node.leaf nKey v).toMap key.bytes = none :=
      Node.toMap_leaf_eq_none fun hNK => hdiff (by rw [hNK])
    cases bit <;> simp only [Bool.false_eq_true, ↓reduceIte, Except.pure_eq_ok] at h <;> subst h
    · exact InsertSpec.fork (t := .leaf nKey v) hlabel .nil hkeyOk hnOk (by simp) rfl rfl hnone
    · exact InsertSpec.fork (t := .leaf nKey v) hlabel .nil hnOk hkeyOk (by simp) rfl rfl hnone

/-- Inserting a key that ends at an internal node, into its `LeafNode`: a nil pointer
or a leaf with the key's bits, which becomes a leaf with the new value. -/
theorem doInsert_leafNode_spec {q : List Bool} {leafNode : Node} {key : Key} {val : List UInt8}
    {r : InsertResult} (hlf : ChildOk q none leafNode) (hq : q <+: key.bits)
    (hlen : key.bits.length = q.length) (h : doInsert leafNode q.length key val = .ok r) :
    ChildOk q none r.newRoot ∧ InsertSpec q leafNode key val r := by
  obtain ⟨hc, rfl | ⟨k, v, rfl, hk⟩⟩ := hlf
  · obtain ⟨hmax, rfl⟩ := doInsert_nil_eq_ok h
    exact ⟨⟨⟨hq, hmax⟩, .inr ⟨key, val, rfl, hlen⟩⟩, doInsert_nil_spec hq h⟩
  · have hkK : k.bits = key.bits :=
      (hc.1.eq_of_length hk.symm).symm.trans (hq.eq_of_length hlen.symm)
    have hspec := doInsert_leaf_spec hc hq h
    obtain rfl := doInsert_leaf_of_bits_eq hkK h
    exact ⟨⟨hc, .inr ⟨k, val, rfl, hk⟩⟩, hspec⟩

/-- A child that an insert of a key with the child's bit after `q` leaves in its slot. -/
theorem ChildOk.of_insert {q : List Bool} {c : Bool} {t : Node} {key : Key} {val : List UInt8}
    {r : InsertResult} (hok : ChildOk q (some c) t) (hbit : key.bits[q.length]? = some c)
    (hspec : InsertSpec q t key val r) : ChildOk q (some c) r.newRoot :=
  ⟨hspec.canonical, Node.forall_keys_of_toMap_eq_update (P := fun bits => bits[q.length]? = some c)
    hspec.toMap_eq hok.2 hbit⟩

theorem InsertSpec.toMap_key {q : List Bool} {t : Node} {key : Key} {val : List UInt8}
    {r : InsertResult} (hspec : InsertSpec q t key val r) : r.newRoot.toMap key.bytes = some val := by
  rw [hspec.toMap_eq, Function.update_self]

/-- An insert into the `LeafNode` of a canonical internal node. -/
theorem InsertSpec.internal_leafNode {path : List Bool} {label : Key} {ℓ : ℕ}
    {leafNode left right : Node} {key : Key} {val : List UInt8} {r : InsertResult}
    (hc : Canonical path (.internal label ℓ leafNode left right))
    (hbit : key.bits[(path ++ label.bits.take ℓ).length]? = none)
    (hok : ChildOk (path ++ label.bits.take ℓ) none r.newRoot)
    (hspec : InsertSpec (path ++ label.bits.take ℓ) leafNode key val r) :
    InsertSpec path (.internal label ℓ leafNode left right) key val
      ⟨.internal label ℓ r.newRoot left right, r.existed⟩ := by
  obtain ⟨htwo, hlabel, -, hl, hr⟩ := Canonical.internal_iff_childOk.mp hc
  have hlnone := hl.toMap_eq_none (b := key.bytes) (by rw [← Key.bits, hbit]; simp)
  have hrnone := hr.toMap_eq_none (b := key.bytes) (by rw [← Key.bits, hbit]; simp)
  have hkey := hspec.toMap_key
  refine ⟨Canonical.internal_iff_childOk.mpr ⟨?_, hlabel, hok, hl, hr⟩, ?_, ?_⟩
  · have := Node.present_eq_one_of_toMap_isSome (by rw [hkey]; rfl)
    have := leafNode.present_le_one
    omega
  · rw [Function.eq_update_iff]
    refine ⟨by simp [Node.toMap_internal, hkey], fun b hb => ?_⟩
    simp [Node.toMap_internal, hspec.toMap_eq, Function.update_of_ne hb]
  · simp [Node.toMap_internal, hspec.existed_eq, hlnone, hrnone]

/-- An insert into the `Left` child of a canonical internal node. -/
theorem InsertSpec.internal_left {path : List Bool} {label : Key} {ℓ : ℕ}
    {leafNode left right : Node} {key : Key} {val : List UInt8} {r : InsertResult}
    (hc : Canonical path (.internal label ℓ leafNode left right))
    (hbit : key.bits[(path ++ label.bits.take ℓ).length]? = some false)
    (hspec : InsertSpec (path ++ label.bits.take ℓ) left key val r) :
    InsertSpec path (.internal label ℓ leafNode left right) key val
      ⟨.internal label ℓ leafNode r.newRoot right, r.existed⟩ := by
  obtain ⟨htwo, hlabel, hlf, hl, hr⟩ := Canonical.internal_iff_childOk.mp hc
  have hlfnone := hlf.toMap_eq_none (b := key.bytes) (by rw [← Key.bits, hbit]; simp)
  have hrnone := hr.toMap_eq_none (b := key.bytes) (by rw [← Key.bits, hbit]; simp)
  have hkey := hspec.toMap_key
  refine ⟨Canonical.internal_iff_childOk.mpr ⟨?_, hlabel, hlf, hl.of_insert hbit hspec, hr⟩, ?_, ?_⟩
  · have := Node.present_eq_one_of_toMap_isSome (by rw [hkey]; rfl)
    have := left.present_le_one
    omega
  · rw [Function.eq_update_iff]
    refine ⟨by simp [Node.toMap_internal, hkey, hlfnone], fun b hb => ?_⟩
    simp [Node.toMap_internal, hspec.toMap_eq, Function.update_of_ne hb]
  · simp [Node.toMap_internal, hspec.existed_eq, hlfnone, hrnone]

/-- An insert into the `Right` child of a canonical internal node. -/
theorem InsertSpec.internal_right {path : List Bool} {label : Key} {ℓ : ℕ}
    {leafNode left right : Node} {key : Key} {val : List UInt8} {r : InsertResult}
    (hc : Canonical path (.internal label ℓ leafNode left right))
    (hbit : key.bits[(path ++ label.bits.take ℓ).length]? = some true)
    (hspec : InsertSpec (path ++ label.bits.take ℓ) right key val r) :
    InsertSpec path (.internal label ℓ leafNode left right) key val
      ⟨.internal label ℓ leafNode left r.newRoot, r.existed⟩ := by
  obtain ⟨htwo, hlabel, hlf, hl, hr⟩ := Canonical.internal_iff_childOk.mp hc
  have hlfnone := hlf.toMap_eq_none (b := key.bytes) (by rw [← Key.bits, hbit]; simp)
  have hlnone := hl.toMap_eq_none (b := key.bytes) (by rw [← Key.bits, hbit]; simp)
  have hkey := hspec.toMap_key
  refine ⟨Canonical.internal_iff_childOk.mpr ⟨?_, hlabel, hlf, hl, hr.of_insert hbit hspec⟩, ?_, ?_⟩
  · have := Node.present_eq_one_of_toMap_isSome (by rw [hkey]; rfl)
    have := right.present_le_one
    omega
  · rw [Function.eq_update_iff]
    refine ⟨by simp [Node.toMap_internal, hkey, hlfnone, hlnone], fun b hb => ?_⟩
    simp [Node.toMap_internal, hspec.toMap_eq, Function.update_of_ne hb]
  · simp [Node.toMap_internal, hspec.existed_eq, hlfnone, hlnone]

theorem doInsert_internal_spec {path : List Bool} {label : Key} {ℓ : ℕ}
    {leafNode left right : Node} {key : Key} {val : List UInt8} {r : InsertResult}
    (ihl : ∀ {q : List Bool} {r : InsertResult}, Canonical q left → q <+: key.bits →
      doInsert left q.length key val = .ok r → InsertSpec q left key val r)
    (ihr : ∀ {q : List Bool} {r : InsertResult}, Canonical q right → q <+: key.bits →
      doInsert right q.length key val = .ok r → InsertSpec q right key val r)
    (hc : Canonical path (.internal label ℓ leafNode left right)) (hpath : path <+: key.bits)
    (h : doInsert (.internal label ℓ leafNode left right) path.length key val = .ok r) :
    InsertSpec path (.internal label ℓ leafNode left right) key val r := by
  obtain ⟨n, hn, h⟩ := Except.bind_eq_ok.mp h
  obtain ⟨hmax, rfl⟩ := Key.bitLength_eq_ok.mp hn
  obtain ⟨⟨_, rem⟩, hsplit, h⟩ := Except.bind_eq_ok.mp h
  obtain ⟨-, hd, hrem⟩ := Key.mustSplit_eq_ok.mp hsplit
  simp only [Prod.mk.injEq] at hrem
  obtain ⟨-, rfl⟩ := hrem
  dsimp only at h
  obtain ⟨cp, hcp, h⟩ := Except.bind_eq_ok.mp h
  obtain ⟨-, -, hcp⟩ := Key.commonPrefixLen_eq_ok.mp hcp
  rw [Key.take_bits_splitSuffix _ le_rfl, List.take_length] at hcp
  obtain ⟨htwo, hlabel, hlf, hl, hr⟩ := Canonical.internal_iff_childOk.mp hc
  have hKd := List.prefix_iff_eq_append.mp hpath
  have hℓ := hlabel.le_length_bits
  have hLlen : (label.bits.take ℓ).length = ℓ := Key.length_take_bits_of_isLabel hlabel
  have hcpK : cp ≤ key.bits.length - path.length := by
    rw [hcp, ← List.length_drop]
    exact prefixLength_le_right _ _
  split at h
  · -- the key runs through the whole label: it goes on below the node
    rename_i hcpℓ
    have hQK : path ++ label.bits.take ℓ <+: key.bits := by
      rw [← hKd, List.prefix_append_right_inj, ← prefixLength_eq_length_iff, hLlen, ← hcp, hcpℓ]
    have hQlen : (path ++ label.bits.take ℓ).length = path.length + ℓ := by
      rw [List.length_append, hLlen]
    split at h
    · rename_i hend
      obtain ⟨r', hr', h⟩ := Except.bind_eq_ok.mp h
      rw [Except.pure_eq_ok] at h
      subst h
      rw [← hQlen] at hr'
      obtain ⟨hok, hspec⟩ := doInsert_leafNode_spec hlf hQK (by omega) hr'
      exact hspec.internal_leafNode hc (List.getElem?_eq_none (by omega)) hok
    · obtain ⟨bit, hbit, h⟩ := Except.bind_eq_ok.mp h
      rw [Key.mustGetBit_eq_ok, ← hQlen] at hbit
      cases bit <;> simp only [Bool.false_eq_true, ↓reduceIte] at h <;>
        obtain ⟨r', hr', h⟩ := Except.bind_eq_ok.mp h <;> rw [Except.pure_eq_ok] at h <;> subst h <;>
        rw [← hQlen] at hr'
      · exact InsertSpec.internal_left hc hbit (ihl hl.canonical hQK hr')
      · exact InsertSpec.internal_right hc hbit (ihr hr.canonical hQK hr')
  · -- the key leaves the label after `cp` bits: the edge is split there
    rename_i hcpℓ
    have hcplt : cp < ℓ := by
      have := prefixLength_le_left (label.bits.take ℓ) (key.bits.drop path.length)
      omega
    obtain ⟨⟨lp, ls⟩, hsplitL, h⟩ := Except.bind_eq_ok.mp h
    obtain ⟨-, -, hL⟩ := Key.mustSplit_eq_ok.mp hsplitL
    simp only [Prod.mk.injEq] at hL
    obtain ⟨rfl, rfl⟩ := hL
    dsimp only at h
    have htake : label.bits.take cp = (key.bits.drop path.length).take cp := by
      rw [show label.bits.take cp = (label.bits.take ℓ).take cp by
        rw [List.take_take, Nat.min_eq_left hcplt.le], hcp]
      exact take_prefixLength _ _
    have hQ : (Key.ofBytes (Key.splitPrefix label.bytes cp)).bits.take cp = label.bits.take cp :=
      Key.take_bits_splitPrefix _ (by omega)
    have hQK : path ++ label.bits.take cp <+: key.bits := by
      rw [← hKd, List.prefix_append_right_inj, htake]
      exact List.take_prefix _ _
    have hQlen : (path ++ label.bits.take cp).length = path.length + cp := by
      simp only [List.length_append, List.length_take]
      omega
    have hkeyOk := ChildOk.leaf (v := val) ⟨hQK, hmax⟩ (by rw [hQlen]; omega)
    have hlow := hc.childOk_split hcplt
    rw [hQlen] at hkeyOk
    rw [← hQ] at hkeyOk hlow
    -- the node's keys run through the whole label, the key does not
    have hnone : (Node.internal label ℓ leafNode left right).toMap key.bytes = none := by
      refine Node.toMap_eq_none fun k hk hkb => hcpℓ ?_
      have hkK : k.bits = key.bits := by
        unfold Key.bits
        rw [hkb]
      have hpre := hc.1.keys_extend k hk
      rw [hkK, ← hKd, List.prefix_append_right_inj, ← prefixLength_eq_length_iff, hLlen] at hpre
      rw [hcp, hpre]
    have hlabelP := Key.isLabel_splitPrefix label.bytes cp
    split at h
    · -- the key ends where the edge is split
      rename_i hkend
      obtain ⟨bit, hbit, h⟩ := Except.bind_eq_ok.mp h
      rw [Key.mustGetBit_eq_ok, ← List.getElem?_take_of_lt (show 0 < ℓ - cp by omega),
        Key.take_bits_splitSuffix _ hℓ, List.getElem?_drop, Nat.add_zero,
        List.getElem?_take_of_lt hcplt] at hbit
      have hkeyEnd : key.bits[path.length + cp]? = none := List.getElem?_eq_none (by omega)
      rw [hkeyEnd] at hkeyOk
      rw [hbit] at hlow
      cases bit <;> simp only [Bool.false_eq_true, ↓reduceIte, Except.pure_eq_ok] at h <;> subst h
      · exact InsertSpec.fork
          (t := .internal (.ofBytes (Key.splitSuffix label.bytes cp ℓ)) (ℓ - cp) leafNode left right)
          hlabelP hkeyOk hlow .nil (by simp) rfl rfl hnone
      · exact InsertSpec.fork
          (t := .internal (.ofBytes (Key.splitSuffix label.bytes cp ℓ)) (ℓ - cp) leafNode left right)
          hlabelP hkeyOk .nil hlow (by simp) rfl rfl hnone
    · -- the key goes on with the other bit
      rename_i hkend
      obtain ⟨bit, hbit, h⟩ := Except.bind_eq_ok.mp h
      rw [Key.mustGetBit_eq_ok, Key.getElem?_bits_splitSuffix _ (by omega)] at hbit
      have hdiff : label.bits[cp]? ≠ key.bits[path.length + cp]? := by
        have hne' := @getElem_ne_of_prefixLength Bool _ (label.bits.take ℓ)
          (key.bits.drop path.length) (by rw [← hcp, hLlen]; omega)
          (by rw [← hcp, List.length_drop]; omega)
        simp only [← hcp, List.getElem_drop, List.getElem_take] at hne'
        rw [List.getElem?_eq_getElem (by omega), List.getElem?_eq_getElem (by omega)]
        simpa using hne'
      have hlbit : label.bits[cp]? = some !bit := by
        rw [List.getElem?_eq_getElem (by omega)] at hdiff ⊢
        rw [hbit] at hdiff
        cases bit <;> simpa using hdiff
      rw [hbit] at hkeyOk
      rw [hlbit] at hlow
      cases bit <;> simp only [Bool.false_eq_true, ↓reduceIte, Except.pure_eq_ok] at h <;> subst h
      · exact InsertSpec.fork
          (t := .internal (.ofBytes (Key.splitSuffix label.bytes cp ℓ)) (ℓ - cp) leafNode left right)
          hlabelP .nil hkeyOk hlow (by simp) rfl rfl hnone
      · exact InsertSpec.fork
          (t := .internal (.ofBytes (Key.splitSuffix label.bytes cp ℓ)) (ℓ - cp) leafNode left right)
          hlabelP .nil hlow hkeyOk (by simp) rfl rfl hnone

/-- `doInsert` below a canonical node, along a path that the key extends: the result is
canonical, holds the node's map updated at the key, and says whether the key was there. -/
theorem doInsert_spec {ptr : Node} {path : List Bool} {key : Key} {val : List UInt8}
    {r : InsertResult} (hc : Canonical path ptr) (hpath : path <+: key.bits)
    (h : doInsert ptr path.length key val = .ok r) : InsertSpec path ptr key val r := by
  induction ptr generalizing path r with
  | nil => exact doInsert_nil_spec hpath h
  | leaf nKey v => exact doInsert_leaf_spec hc hpath h
  | internal label ℓ leafNode left right _ ihl ihr =>
    exact doInsert_internal_spec ihl ihr hc hpath h

end Mkvs

end OasisCore
