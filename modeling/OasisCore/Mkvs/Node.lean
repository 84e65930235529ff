import OasisCore.Misc.Bytes
import OasisCore.Misc.Except
import OasisCore.Mkvs.Key

/-!
# MKVS node encodings

The binary encodings of tree nodes (`go/storage/mkvs/node/node.go`, `key.go`,
`depth.go`): `MarshalBinary` and `SizedUnmarshalBinary` of leaf and internal nodes, the
compact encodings of proofs, `node.UnmarshalBinary`, and the hashes of `UpdateHash`.

A leaf node is `PrefixLeafNode`, its key after a length of two bytes and its value after
a length of four, little endian. An internal node is `PrefixInternalNode`, the bit length
of its label, the label, its leaf node or `PrefixNilNode`, and the hashes of its two
children. The compact encoding of version 0 leaves out the hashes, that of version 1 the
leaf node too. The decoder of an internal node reads the hashes only when `2 · Size`
bytes remain, and only then updates the node's hash.

The digest, SHA-512/256 in Go, is a parameter `sum` of every definition that hashes;
nothing here depends on which function it is. A child pointer is modelled by the hash it
caches, the one field of it that the encodings read, and the pointer to the leaf node by
its hash and its node, when loaded. The `Clean` flags are left out: no encoding reads
them.
-/

namespace OasisCore

namespace Mkvs

open Bytes

/-- The errors of the encodings: `ErrMalformedNode` and `ErrMalformedKey`
(`node.go:18-23`), `hash.ErrMalformed`, an error that `fmt.Errorf` wraps with its
context, and the panic of a method call on a nil node. -/
inductive NodeError where
  | malformedNode
  | malformedKey
  | malformedHash
  | wrapped (context : String) (err : NodeError)
  | panic
  deriving DecidableEq, Repr

/-- `hash.Size` (`hash.go:20`). -/
def hashSize : ℕ := 32

/-- `hash.Hash` (`hash.go:34-35`). -/
structure Hash where
  toList : List UInt8
  length_toList : toList.length = hashSize
  deriving DecidableEq

namespace Hash

/-- The zero value of `hash.Hash`. -/
def zero : Hash :=
  ⟨List.replicate hashSize 0, List.length_replicate⟩

/-- `Hash.UnmarshalBinary` (`hash.go:43-51`). -/
def unmarshalBinary (data : List UInt8) : Except NodeError Hash :=
  if h : data.length = hashSize then .ok ⟨data, h⟩ else .error .malformedHash

variable (sum : List UInt8 → Hash)

/-- `Hash.FromBytes` (`hash.go:95-102`): the digest of the parts one after another. -/
def fromBytes (data : List (List UInt8)) : Hash :=
  sum data.flatten

/-- `Hash.Empty` (`hash.go:113-115`): the digest of no bytes. -/
def empty : Hash :=
  sum []

/-- `Hash.IsEmpty` (`hash.go:117-120`). -/
def isEmpty (h : Hash) : Bool :=
  h == empty sum

end Hash

/-- `PrefixLeafNode` (`node.go:34-35`). -/
def prefixLeafNode : UInt8 := 0x00

/-- `PrefixInternalNode` (`node.go:36-37`). -/
def prefixInternalNode : UInt8 := 0x01

/-- `PrefixNilNode` (`node.go:38-39`). -/
def prefixNilNode : UInt8 := 0x02

/-- `DepthSize` (`depth.go:11-12`). -/
def depthSize : ℕ := 2

/-- `ValueLengthSize` (`node.go:48-49`). -/
def valueLengthSize : ℕ := 4

namespace Depth

/-- `Depth.MarshalBinary` (`depth.go:26-31`). -/
def marshalBinary (dt : UInt16) : List UInt8 :=
  leBytes depthSize dt.toNat

/-- `Depth.UnmarshalBinary` (`depth.go:33-41`). -/
def unmarshalBinary (data : List UInt8) : Except NodeError (UInt16 × ℕ) :=
  if data.length < depthSize then .error .malformedNode
  else .ok (UInt16.ofNat (leValue (data.take depthSize)), depthSize)

end Depth

namespace Key

/-- `Key.MarshalBinary` (`key.go:28-40`): the length in two bytes, then the bytes. -/
def marshalBinary (k : Key) : Except NodeError (List UInt8) :=
  if k.bytes.length > 65535 then .error .malformedKey
  else .ok (leBytes 2 k.bytes.length ++ k.bytes)

/-- `Key.SizedUnmarshalBinary` (`key.go:48-70`). The node package calls it on the address
of a local key, never on a nil pointer, so an empty key comes back as `[]byte{}`. -/
def sizedUnmarshalBinary (data : List UInt8) : Except NodeError (Key × ℕ) :=
  if data.length < 2 then .error .malformedKey
  else
    let keyLen := leValue (data.take 2)
    let size := 2 + keyLen
    if data.length < size then .error .malformedKey
    else if keyLen > 0 then .ok (ofBytes ((data.take size).drop 2), size)
    else .ok (ofBytes [], size)

end Key

/-- `node.LeafNode` (`node.go:579-584`). -/
structure LeafNode where
  hash : Hash
  key : Key
  value : List UInt8

/-- `node.Pointer` (`node.go:177-186`) to a leaf node: the hash it caches and its node,
when loaded. -/
structure LeafPointer where
  hash : Hash
  node : Option LeafNode

/-- `node.InternalNode` (`node.go:327-340`); a child pointer is the hash it caches. -/
structure InternalNode where
  hash : Hash
  label : Key
  labelBitLength : UInt16
  leafNode : Option LeafPointer
  left : Option Hash
  right : Option Hash

/-- `node.Node` (`node.go:291-325`), a node of either kind as `node.UnmarshalBinary`
returns it; `Node` is the trie of `Mkvs.Tree`. -/
inductive AnyNode where
  | internal (n : InternalNode)
  | leaf (n : LeafNode)

namespace LeafNode

/-- The zero value `LeafNode{}`. -/
def empty : LeafNode :=
  ⟨Hash.zero, .null, []⟩

/-- `LeafNode.CompactMarshalBinaryV1` (`node.go:640-654`). -/
def compactMarshalBinaryV1 (n : LeafNode) : Except NodeError (List UInt8) := do
  let keyData ← n.key.marshalBinary
  pure ([prefixLeafNode] ++ keyData ++ leBytes valueLengthSize n.value.length ++ n.value)

/-- `LeafNode.CompactMarshalBinaryV0` (`node.go:634-638`), the same as version 1. -/
def compactMarshalBinaryV0 (n : LeafNode) : Except NodeError (List UInt8) :=
  n.compactMarshalBinaryV1

/-- `LeafNode.MarshalBinary` (`node.go:656-659`), the same as the compact encoding. -/
def marshalBinary (n : LeafNode) : Except NodeError (List UInt8) :=
  n.compactMarshalBinaryV0

variable (sum : List UInt8 → Hash)

/-- The digest of `LeafNode.UpdateHash` (`node.go:602-613`); both lengths are written as
`uint32`. -/
def computeHash (n : LeafNode) : Hash :=
  Hash.fromBytes sum [[prefixLeafNode], leBytes 4 n.key.bytes.length, n.key.bytes,
    leBytes 4 n.value.length, n.value]

/-- `LeafNode.UpdateHash` (`node.go:602-613`). -/
def updateHash (n : LeafNode) : LeafNode :=
  { n with hash := computeHash sum n }

/-- `LeafNode.SizedUnmarshalBinary` (`node.go:667-699`) into the receiver `n`. -/
def sizedUnmarshalBinary (n : LeafNode) (data : List UInt8) : Except NodeError (LeafNode × ℕ) :=
  if data.length < 1 + depthSize + valueLengthSize ∨ data[0]? ≠ some prefixLeafNode then
    .error .malformedNode
  else do
    let (key, keySize) ← Key.sizedUnmarshalBinary (data.drop 1)
    let pos := 1 + keySize
    if pos + valueLengthSize > data.length then .error .malformedNode
    else
      let valueSize := leValue ((data.drop pos).take valueLengthSize)
      let pos := pos + valueLengthSize
      if pos + valueSize > data.length then .error .malformedNode
      else
        let value := (data.drop pos).take valueSize
        pure (updateHash sum { n with key, value }, pos + valueSize)

end LeafNode

namespace InternalNode

/-- The zero value `InternalNode{}`. -/
def empty : InternalNode :=
  ⟨Hash.zero, .null, 0, none, none, none⟩

variable (sum : List UInt8 → Hash)

/-- `Pointer.GetHash` (`node.go:197-206`): the empty hash for a nil pointer. -/
def childHash : Option Hash → Hash
  | none => Hash.empty sum
  | some h => h

/-- The digest of `InternalNode.UpdateHash` (`node.go:354-369`). -/
def computeHash (n : InternalNode) : Hash :=
  Hash.fromBytes sum [[prefixInternalNode], Depth.marshalBinary n.labelBitLength, n.label.bytes,
    (childHash sum (n.leafNode.map (·.hash))).toList, (childHash sum n.left).toList,
    (childHash sum n.right).toList]

/-- `InternalNode.UpdateHash` (`node.go:354-369`). -/
def updateHash (n : InternalNode) : InternalNode :=
  { n with hash := computeHash sum n }

/-- The leaf node as the encodings of an internal node write it (`node.go:415-424`):
`PrefixNilNode` for a nil pointer, else the leaf's `MarshalBinary`, whose call on a
pointer with no node loaded panics. -/
def marshalLeafNode : Option LeafPointer → Except NodeError (List UInt8)
  | none => .ok [prefixNilNode]
  | some ⟨_, none⟩ => .error .panic
  | some ⟨_, some l⟩ => l.marshalBinary.mapError (.wrapped "mkvs: failed to marshal leaf node")

/-- `InternalNode.CompactMarshalBinaryV0` (`node.go:413-433`). -/
def compactMarshalBinaryV0 (n : InternalNode) : Except NodeError (List UInt8) := do
  let leafNodeBinary ← marshalLeafNode n.leafNode
  pure ([prefixInternalNode] ++ Depth.marshalBinary n.labelBitLength ++ n.label.bytes ++ leafNodeBinary)

/-- `InternalNode.CompactMarshalBinaryV1` (`node.go:435-445`): no hashes and no leaf node. -/
def compactMarshalBinaryV1 (n : InternalNode) : Except NodeError (List UInt8) :=
  .ok ([prefixInternalNode] ++ Depth.marshalBinary n.labelBitLength ++ n.label.bytes ++ [prefixNilNode])

/-- `InternalNode.MarshalBinary` (`node.go:447-472`). -/
def marshalBinary (n : InternalNode) : Except NodeError (List UInt8) := do
  let leafNodeBinary ← marshalLeafNode n.leafNode
  pure ([prefixInternalNode] ++ Depth.marshalBinary n.labelBitLength ++ n.label.bytes ++ leafNodeBinary ++
    (childHash sum n.left).toList ++ (childHash sum n.right).toList)

/-- The leaf node that `InternalNode.SizedUnmarshalBinary` reads at `pos`
(`node.go:509-521`): nil after `PrefixNilNode`, else a leaf node decoded into a zero one,
with the position after it. -/
def unmarshalLeafNode (data : List UInt8) (pos : ℕ) : Except NodeError (Option LeafPointer × ℕ) :=
  if data[pos]? = some prefixNilNode then .ok (none, pos + 1)
  else do
    let (leafNode, leafNodeBinarySize) ←
      (LeafNode.sizedUnmarshalBinary sum LeafNode.empty (data.drop pos)).mapError
        (.wrapped "mkvs: failed to unmarshal leaf node")
    pure (some ⟨leafNode.hash, some leafNode⟩, pos + leafNodeBinarySize)

/-- A decoded child pointer (`node.go:537-547`): nil for the empty hash. -/
def childOfHash (h : Hash) : Option Hash :=
  if h.isEmpty sum then none else some h

/-- The child hashes that `InternalNode.SizedUnmarshalBinary` reads at `pos`
(`node.go:523-550`), only when `2 · Size` bytes remain; the node's hash is then updated. -/
def unmarshalHashes (n : InternalNode) (data : List UInt8) (pos : ℕ) :
    Except NodeError (InternalNode × ℕ) :=
  if data.length ≥ pos + hashSize * 2 then do
    let leftHash ← (Hash.unmarshalBinary ((data.drop pos).take hashSize)).mapError
      (.wrapped "mkvs: failed to unmarshal left hash")
    let pos := pos + hashSize
    let rightHash ← (Hash.unmarshalBinary ((data.drop pos).take hashSize)).mapError
      (.wrapped "mkvs: failed to unmarshal right hash")
    let pos := pos + hashSize
    pure (updateHash sum { n with left := childOfHash sum leftHash, right := childOfHash sum rightHash }, pos)
  else .ok (n, pos)

/-- `InternalNode.SizedUnmarshalBinary` (`node.go:480-555`) into the receiver `n`. -/
def sizedUnmarshalBinary (n : InternalNode) (data : List UInt8) : Except NodeError (InternalNode × ℕ) :=
  if data.length < 1 + depthSize + 1 then .error .malformedNode
  else if data[0]? ≠ some prefixInternalNode then .error .malformedNode
  else do
    let (labelBitLength, _) ← (Depth.unmarshalBinary (data.drop 1)).mapError
      (.wrapped "mkvs: failed to unmarshal LabelBitLength")
    let labelLen := toBytes labelBitLength.toNat
    let pos := 1 + depthSize
    if pos + labelLen > data.length then .error .malformedNode
    else
      let label := Key.ofBytes ((data.drop pos).take labelLen)
      let pos := pos + labelLen
      if pos ≥ data.length then .error .malformedNode
      else do
        let (leafNode, pos) ← unmarshalLeafNode sum data pos
        unmarshalHashes sum { n with labelBitLength, label, leafNode } data pos

end InternalNode

namespace AnyNode

/-- `MarshalBinary` of a node of either kind. -/
def marshalBinary (sum : List UInt8 → Hash) : AnyNode → Except NodeError (List UInt8)
  | internal n => n.marshalBinary sum
  | leaf n => n.marshalBinary

/-- `node.UnmarshalBinary` (`node.go:714-746`): a node of the kind its first byte names,
decoded into a zero node. -/
def unmarshalBinary (sum : List UInt8 → Hash) (bytes : List UInt8) : Except NodeError AnyNode :=
  if bytes.length > 1 then
    if bytes[0]? = some prefixLeafNode then
      (LeafNode.sizedUnmarshalBinary sum LeafNode.empty bytes).map fun r => leaf r.1
    else if bytes[0]? = some prefixInternalNode then
      (InternalNode.sizedUnmarshalBinary sum InternalNode.empty bytes).map fun r => internal r.1
    else .error .malformedNode
  else .error .malformedNode

end AnyNode

/-! ## Round trips of the parts -/

theorem Hash.unmarshalBinary_toList (h : Hash) : Hash.unmarshalBinary h.toList = .ok h := by
  rw [Hash.unmarshalBinary, dif_pos h.length_toList]

theorem Depth.unmarshalBinary_marshalBinary (dt : UInt16) (rest : List UInt8) :
    Depth.unmarshalBinary (Depth.marshalBinary dt ++ rest) = .ok (dt, depthSize) := by
  have hlen : (Depth.marshalBinary dt).length = depthSize := length_leBytes _ _
  rw [Depth.unmarshalBinary, if_neg (by rw [List.length_append]; omega), List.take_left' hlen,
    Depth.marshalBinary, leValue_leBytes,
    Nat.mod_eq_of_lt (show dt.toNat < 256 ^ depthSize from dt.toNat_lt), UInt16.ofNat_toNat]

namespace Key

theorem marshalBinary_eq_ok {k : Key} (h : k.bytes.length ≤ 65535) :
    k.marshalBinary = .ok (leBytes 2 k.bytes.length ++ k.bytes) := by
  rw [marshalBinary, if_neg (by omega)]

theorem sizedUnmarshalBinary_marshalBinary {k : Key} (h : k.bytes.length ≤ 65535) (rest : List UInt8) :
    sizedUnmarshalBinary (leBytes 2 k.bytes.length ++ (k.bytes ++ rest)) =
      .ok (ofBytes k.bytes, 2 + k.bytes.length) := by
  have hlen : (leBytes 2 k.bytes.length).length = 2 := length_leBytes _ _
  have hkeyLen : leValue ((leBytes 2 k.bytes.length ++ (k.bytes ++ rest)).take 2) = k.bytes.length := by
    rw [List.take_left' hlen, leValue_leBytes, Nat.mod_eq_of_lt (by omega)]
  have htotal : (leBytes 2 k.bytes.length ++ (k.bytes ++ rest)).length = 2 + k.bytes.length + rest.length := by
    simp only [List.length_append, hlen]
    omega
  simp only [sizedUnmarshalBinary, hkeyLen, htotal]
  rw [if_neg (by omega), if_neg (by omega)]
  split
  · rw [← List.append_assoc, List.take_left' (by simp), List.drop_left' hlen]
  · rw [List.eq_nil_of_length_eq_zero (by omega : k.bytes.length = 0)]

end Key

/-- Dropping the front `l₁ ++ l₂` of a string. -/
theorem drop_append_append {α : Type} {l₁ l₂ l₃ : List α} {n : ℕ} (h : l₁.length + l₂.length = n) :
    (l₁ ++ (l₂ ++ l₃)).drop n = l₃ := by
  rw [← List.append_assoc, List.drop_left' (by rw [List.length_append, h])]

namespace LeafNode

variable (sum : List UInt8 → Hash)

/-- The leaf node that decoding the encoding of `n` gives: its key read back as bytes and
its hash updated. -/
def decoded (n : LeafNode) : LeafNode :=
  updateHash sum { n with key := .ofBytes n.key.bytes }

theorem marshalBinary_eq_ok {n : LeafNode} (hk : n.key.bytes.length ≤ 65535) :
    n.marshalBinary = .ok (prefixLeafNode :: (leBytes 2 n.key.bytes.length ++ (n.key.bytes ++
      (leBytes valueLengthSize n.value.length ++ n.value)))) := by
  rw [marshalBinary, compactMarshalBinaryV0, compactMarshalBinaryV1, Key.marshalBinary_eq_ok hk]
  simp

theorem sizedUnmarshalBinary_marshalBinary (r : LeafNode) {n : LeafNode}
    (hk : n.key.bytes.length ≤ 65535) (hv : n.value.length < 2 ^ 32) (rest : List UInt8) :
    sizedUnmarshalBinary sum r (prefixLeafNode :: (leBytes 2 n.key.bytes.length ++ (n.key.bytes ++
      (leBytes valueLengthSize n.value.length ++ (n.value ++ rest))))) =
      .ok (n.decoded sum, 7 + n.key.bytes.length + n.value.length) := by
  set K := leBytes 2 n.key.bytes.length
  set V := leBytes valueLengthSize n.value.length
  set data := prefixLeafNode :: (K ++ (n.key.bytes ++ (V ++ (n.value ++ rest))))
  have hK : K.length = 2 := length_leBytes _ _
  have hV : V.length = valueLengthSize := length_leBytes _ _
  have hlen : data.length = 7 + n.key.bytes.length + n.value.length + rest.length := by
    simp only [data, List.length_cons, List.length_append, hK, hV, valueLengthSize]
    omega
  have hkey : Key.sizedUnmarshalBinary (data.drop 1) = .ok (.ofBytes n.key.bytes, 2 + n.key.bytes.length) :=
    Key.sizedUnmarshalBinary_marshalBinary hk _
  have hafterKey : data.drop (1 + (2 + n.key.bytes.length)) = V ++ (n.value ++ rest) := by
    rw [← List.drop_drop]
    exact drop_append_append (by rw [hK])
  have hvalueSize : leValue ((V ++ (n.value ++ rest)).take valueLengthSize) = n.value.length := by
    rw [List.take_left' hV, leValue_leBytes,
      Nat.mod_eq_of_lt (show n.value.length < 256 ^ valueLengthSize from hv)]
  have hvalue : ((V ++ (n.value ++ rest)).drop valueLengthSize).take n.value.length = n.value := by
    rw [List.drop_left' hV, List.take_left' rfl]
  have hguard : ¬(data.length < 1 + depthSize + valueLengthSize ∨ data[0]? ≠ some prefixLeafNode) := by
    simp only [hlen, depthSize, valueLengthSize, data, List.getElem?_cons_zero, ne_eq, not_true_eq_false,
      or_false]
    omega
  rw [sizedUnmarshalBinary, if_neg hguard, hkey]
  simp only [Except.ok_bind, hafterKey, hvalueSize]
  rw [if_neg (by rw [hlen, valueLengthSize]; omega), if_neg (by rw [hlen, valueLengthSize]; omega),
    ← List.drop_drop, hafterKey, hvalue]
  congr 2
  rw [valueLengthSize]
  omega

/-- A leaf node that the encodings write and read back: a key of at most `MaxUint16`
bytes and a value whose length fits a `uint32`. -/
def Encodable (n : LeafNode) : Prop :=
  n.key.bytes.length ≤ 65535 ∧ n.value.length < 2 ^ 32

theorem marshalBinary_spec {n : LeafNode} (hn : n.Encodable) :
    ∃ data, n.marshalBinary = .ok data ∧ data[0]? = some prefixLeafNode ∧
      data.length = 7 + n.key.bytes.length + n.value.length ∧
      ∀ (r : LeafNode) (rest : List UInt8),
        sizedUnmarshalBinary sum r (data ++ rest) = .ok (n.decoded sum, data.length) := by
  have hlen : (prefixLeafNode :: (leBytes 2 n.key.bytes.length ++ (n.key.bytes ++
      (leBytes valueLengthSize n.value.length ++ n.value)))).length =
      7 + n.key.bytes.length + n.value.length := by
    simp only [List.length_cons, List.length_append, length_leBytes, valueLengthSize]
    omega
  refine ⟨_, marshalBinary_eq_ok hn.1, rfl, hlen, fun r rest => ?_⟩
  rw [hlen, ← sizedUnmarshalBinary_marshalBinary sum r hn.1 hn.2 rest]
  simp only [List.cons_append, List.append_assoc]

theorem decoded_hash (n : LeafNode) : (n.decoded sum).hash = n.computeHash sum :=
  rfl

end LeafNode

namespace LeafPointer

variable (sum : List UInt8 → Hash)

/-- The pointer that decoding gives back for a pointer to a loaded leaf node: to the
decoded leaf, with its hash. -/
def decoded (p : LeafPointer) : Option LeafPointer :=
  p.node.map fun l => ⟨(l.decoded sum).hash, some (l.decoded sum)⟩

end LeafPointer

namespace InternalNode

variable (sum : List UInt8 → Hash)

/-- An internal node that the encodings write and read back: a label of
`ToBytes(LabelBitLength)` bytes and, if it has one, a loaded leaf node that encodes. -/
def Encodable (n : InternalNode) : Prop :=
  n.label.bytes.length = toBytes n.labelBitLength.toNat ∧ ∀ p ∈ n.leafNode, ∃ l ∈ p.node, l.Encodable

/-- The internal node that decoding the encoding of `n` gives: its label read back as
bytes, its leaf node decoded, a nil child for each empty hash, and its hash updated. -/
def decoded (n : InternalNode) : InternalNode :=
  updateHash sum { n with
    label := .ofBytes n.label.bytes
    leafNode := n.leafNode.bind (LeafPointer.decoded sum)
    left := childOfHash sum (childHash sum n.left)
    right := childOfHash sum (childHash sum n.right) }

/-- The node the compact encoding of version 0 decodes to in the receiver `r`: the label,
its bit length and the decoded leaf node; the hashes are not read and the hash is not
updated. -/
def compactDecoded (r n : InternalNode) : InternalNode :=
  { r with
    labelBitLength := n.labelBitLength
    label := .ofBytes n.label.bytes
    leafNode := n.leafNode.bind (LeafPointer.decoded sum) }

theorem drop_header (a : UInt8) (D label tail : List UInt8) :
    (a :: (D ++ (label ++ tail))).drop (1 + D.length + label.length) = tail := by
  rw [Nat.add_assoc, Nat.add_comm, List.drop_succ_cons]
  exact drop_append_append rfl

theorem marshalLeafNode_spec {p : Option LeafPointer} (hp : ∀ q ∈ p, ∃ l ∈ q.node, l.Encodable) :
    ∃ lb, marshalLeafNode p = .ok lb ∧ lb ≠ [] ∧
      ∀ {data rest : List UInt8} {pos : ℕ}, data.drop pos = lb ++ rest →
        unmarshalLeafNode sum data pos = .ok (p.bind (LeafPointer.decoded sum), pos + lb.length) := by
  match p, hp with
  | none, _ =>
    refine ⟨[prefixNilNode], rfl, List.cons_ne_nil _ _, fun {data rest pos} hd => ?_⟩
    have hat : data[pos]? = some prefixNilNode := by
      rw [← Nat.add_zero pos, ← List.getElem?_drop, hd]
      rfl
    rw [unmarshalLeafNode, if_pos hat]
    rfl
  | some ⟨_, none⟩, hp =>
    obtain ⟨l, hl, -⟩ := hp _ rfl
    cases hl
  | some ⟨_, some l⟩, hp =>
    obtain ⟨l', hl', hl⟩ := hp _ rfl
    cases hl'
    obtain ⟨lb, hmar, h0, -, hdec⟩ := LeafNode.marshalBinary_spec sum hl
    have hpos : 0 < lb.length := (List.getElem?_eq_some_iff.mp h0).1
    refine ⟨lb, by rw [marshalLeafNode, hmar]; rfl, List.ne_nil_of_length_pos hpos,
      fun {data rest pos} hd => ?_⟩
    have hat : data[pos]? = some prefixLeafNode := by
      rw [← Nat.add_zero pos, ← List.getElem?_drop, hd, List.getElem?_append_left hpos]
      exact h0
    rw [unmarshalLeafNode, if_neg (by rw [hat]; decide), hd, hdec]
    rfl

theorem unmarshalHashes_of_drop (n : InternalNode) {data : List UInt8} {pos : ℕ} {L R : Hash}
    (hd : data.drop pos = L.toList ++ R.toList) :
    unmarshalHashes sum n data pos =
      .ok (updateHash sum { n with left := childOfHash sum L, right := childOfHash sum R },
        pos + hashSize * 2) := by
  have hlen : data.length = pos + hashSize * 2 := by
    have h := congrArg List.length hd
    simp only [List.length_drop, List.length_append, L.length_toList, R.length_toList, hashSize] at h
    rw [hashSize]
    omega
  have hL : (data.drop pos).take hashSize = L.toList := by
    rw [hd, List.take_left' L.length_toList]
  have hR : (data.drop (pos + hashSize)).take hashSize = R.toList := by
    rw [← List.drop_drop, hd, List.drop_left' L.length_toList,
      List.take_of_length_le (Nat.le_of_eq R.length_toList)]
  rw [unmarshalHashes, if_pos hlen.ge]
  simp only [hL, hR, Hash.unmarshalBinary_toList, Except.mapError_ok, Except.ok_bind]
  congr 2

theorem unmarshalHashes_of_length_lt (n : InternalNode) {data : List UInt8} {pos : ℕ}
    (h : data.length < pos + hashSize * 2) : unmarshalHashes sum n data pos = .ok (n, pos) := by
  rw [unmarshalHashes, if_neg (Nat.not_le.mpr h)]

/-- Past the header, the decoder of an internal node reads the leaf node and then the
hashes. -/
theorem sizedUnmarshalBinary_eq (r : InternalNode) (dt : UInt16) {label tail : List UInt8}
    (hlabel : label.length = toBytes dt.toNat) (htail : tail ≠ []) :
    sizedUnmarshalBinary sum r (prefixInternalNode :: (Depth.marshalBinary dt ++ (label ++ tail))) = (do
      let (lp, pos) ← unmarshalLeafNode sum
        (prefixInternalNode :: (Depth.marshalBinary dt ++ (label ++ tail))) (1 + depthSize + label.length)
      unmarshalHashes sum { r with labelBitLength := dt, label := .ofBytes label, leafNode := lp }
        (prefixInternalNode :: (Depth.marshalBinary dt ++ (label ++ tail))) pos) := by
  set data := prefixInternalNode :: (Depth.marshalBinary dt ++ (label ++ tail))
  have hD : (Depth.marshalBinary dt).length = depthSize := length_leBytes _ _
  have hlen : data.length = 1 + depthSize + label.length + tail.length := by
    simp only [data, List.length_cons, List.length_append, hD]
    omega
  have htl : 0 < tail.length := List.length_pos_iff.mpr htail
  have hdepth : Depth.unmarshalBinary (data.drop 1) = .ok (dt, depthSize) :=
    Depth.unmarshalBinary_marshalBinary dt _
  have hlabelBytes : (data.drop (1 + depthSize)).take (toBytes dt.toNat) = label := by
    rw [← List.drop_drop, ← hD]
    exact List.drop_left' rfl ▸ List.take_left' hlabel
  have hprefix : ¬data[0]? ≠ some prefixInternalNode := not_not.mpr rfl
  rw [sizedUnmarshalBinary, if_neg (by rw [hlen]; omega), if_neg hprefix, hdepth]
  simp only [Except.mapError_ok, Except.ok_bind, hlabelBytes]
  rw [if_neg (by rw [hlen, ← hlabel]; omega), if_neg (by rw [hlen, ← hlabel]; omega), hlabel]

theorem marshalBinary_spec {n : InternalNode} (hn : n.Encodable) :
    ∃ data, n.marshalBinary sum = .ok data ∧ data[0]? = some prefixInternalNode ∧ 1 < data.length ∧
      ∀ r : InternalNode, sizedUnmarshalBinary sum r data = .ok (n.decoded sum, data.length) := by
  obtain ⟨lb, hmar, hne, hleaf⟩ := marshalLeafNode_spec sum hn.2
  set L := childHash sum n.left
  set R := childHash sum n.right
  set data := prefixInternalNode ::
    (Depth.marshalBinary n.labelBitLength ++ (n.label.bytes ++ (lb ++ (L.toList ++ R.toList))))
  have hD : (Depth.marshalBinary n.labelBitLength).length = depthSize := length_leBytes _ _
  have hlen : data.length = 1 + depthSize + n.label.bytes.length + lb.length + hashSize * 2 := by
    simp only [data, List.length_cons, List.length_append, hD, L.length_toList, R.length_toList]
    omega
  have hafterLabel : data.drop (1 + depthSize + n.label.bytes.length) = lb ++ (L.toList ++ R.toList) := by
    rw [← hD]
    exact drop_header _ _ _ _
  have hafterLeaf : data.drop (1 + depthSize + n.label.bytes.length + lb.length) = L.toList ++ R.toList := by
    rw [← List.drop_drop, hafterLabel, List.drop_left' rfl]
  refine ⟨data, ?_, rfl, by rw [hlen, depthSize]; omega, fun r => ?_⟩
  · rw [marshalBinary, hmar]
    simp [data, L, R]
  · rw [sizedUnmarshalBinary_eq sum r _ hn.1 (by simp [hne]), hleaf hafterLabel]
    simp only [Except.ok_bind]
    rw [unmarshalHashes_of_drop sum _ hafterLeaf, hlen]
    rfl

theorem compactMarshalBinaryV0_spec {n : InternalNode} (hn : n.Encodable) :
    ∃ data, n.compactMarshalBinaryV0 = .ok data ∧ data[0]? = some prefixInternalNode ∧ 1 < data.length ∧
      ∀ r : InternalNode, sizedUnmarshalBinary sum r data = .ok (compactDecoded sum r n, data.length) := by
  obtain ⟨lb, hmar, hne, hleaf⟩ := marshalLeafNode_spec sum hn.2
  set data := prefixInternalNode :: (Depth.marshalBinary n.labelBitLength ++ (n.label.bytes ++ lb))
  have hD : (Depth.marshalBinary n.labelBitLength).length = depthSize := length_leBytes _ _
  have hlen : data.length = 1 + depthSize + n.label.bytes.length + lb.length := by
    simp only [data, List.length_cons, List.length_append, hD]
    omega
  have hafterLabel : data.drop (1 + depthSize + n.label.bytes.length) = lb ++ [] := by
    rw [List.append_nil, ← hD]
    exact drop_header _ _ _ _
  have hlb : 0 < lb.length := List.length_pos_iff.mpr hne
  refine ⟨data, ?_, rfl, by rw [hlen, depthSize]; omega, fun r => ?_⟩
  · rw [compactMarshalBinaryV0, hmar]
    simp [data]
  · rw [sizedUnmarshalBinary_eq sum r _ hn.1 hne, hleaf hafterLabel]
    simp only [Except.ok_bind]
    rw [unmarshalHashes_of_length_lt sum _ (by rw [hlen, hashSize]; omega), hlen]
    rfl

/-- The version 1 encoding is that of version 0 without the leaf node. -/
theorem compactMarshalBinaryV1_eq (n : InternalNode) :
    n.compactMarshalBinaryV1 = compactMarshalBinaryV0 { n with leafNode := none } :=
  rfl

theorem compactMarshalBinaryV1_spec {n : InternalNode}
    (hn : n.label.bytes.length = toBytes n.labelBitLength.toNat) :
    ∃ data, n.compactMarshalBinaryV1 = .ok data ∧ data[0]? = some prefixInternalNode ∧ 1 < data.length ∧
      ∀ r : InternalNode, sizedUnmarshalBinary sum r data =
        .ok (compactDecoded sum r { n with leafNode := none }, data.length) := by
  rw [compactMarshalBinaryV1_eq]
  exact compactMarshalBinaryV0_spec sum ⟨hn, fun _ h => by cases h⟩

theorem childHash_childOfHash (h : Hash) : childHash sum (childOfHash sum h) = h := by
  rw [childOfHash, Hash.isEmpty]
  by_cases hE : h = Hash.empty sum
  · simp only [hE, beq_self_eq_true, if_true]
    rfl
  · simp only [beq_iff_eq, hE, if_false]
    rfl

theorem childOfHash_eq_none_iff {h : Hash} : childOfHash sum h = none ↔ h = Hash.empty sum := by
  rw [childOfHash, Hash.isEmpty]
  by_cases hE : h = Hash.empty sum <;> simp [hE]

/-- The hashes that a node caches are those `UpdateHash` computes: its own and, for a
loaded leaf node, that of the pointer to it. -/
def HashesCurrent (n : InternalNode) : Prop :=
  n.hash = n.computeHash sum ∧ ∀ p ∈ n.leafNode, ∀ l ∈ p.node, p.hash = l.computeHash sum

theorem map_hash_decoded {p : Option LeafPointer} (hp : ∀ q ∈ p, ∃ l ∈ q.node, l.Encodable)
    (hcur : ∀ q ∈ p, ∀ l ∈ q.node, q.hash = l.computeHash sum) :
    (p.bind (LeafPointer.decoded sum)).map (·.hash) = p.map (·.hash) := by
  match p, hp, hcur with
  | none, _, _ => rfl
  | some q, hp, hcur =>
    obtain ⟨l, hl, -⟩ := hp q rfl
    show (LeafPointer.decoded sum q).map (·.hash) = some q.hash
    rw [LeafPointer.decoded, hl, hcur q rfl l hl]
    rfl

theorem leafNode_decoded (n : InternalNode) :
    (n.decoded sum).leafNode = n.leafNode.bind (LeafPointer.decoded sum) :=
  rfl

theorem decoded_leafNode {n : InternalNode} {p : LeafPointer} {l : LeafNode} (hp : p ∈ n.leafNode)
    (hl : l ∈ p.node) : (n.decoded sum).leafNode = some ⟨(l.decoded sum).hash, some (l.decoded sum)⟩ := by
  rw [leafNode_decoded, hp]
  show LeafPointer.decoded sum p = _
  rw [LeafPointer.decoded, hl]
  rfl

theorem decoded_hash {n : InternalNode} (hn : n.Encodable) (hcur : n.HashesCurrent sum) :
    (n.decoded sum).hash = n.hash := by
  rw [hcur.1, decoded, updateHash]
  simp only [computeHash, childHash_childOfHash, map_hash_decoded sum hn.2 hcur.2]
  rfl

end InternalNode

namespace AnyNode

variable (sum : List UInt8 → Hash)

theorem unmarshalBinary_of_leaf {data : List UInt8} {l : LeafNode} {m : ℕ}
    (h0 : data[0]? = some prefixLeafNode) (hlen : 1 < data.length)
    (hdec : LeafNode.sizedUnmarshalBinary sum LeafNode.empty data = .ok (l, m)) :
    unmarshalBinary sum data = .ok (leaf l) := by
  rw [unmarshalBinary, if_pos hlen, if_pos h0, hdec]
  rfl

theorem unmarshalBinary_of_internal {data : List UInt8} {n : InternalNode} {m : ℕ}
    (h0 : data[0]? = some prefixInternalNode) (hlen : 1 < data.length)
    (hdec : InternalNode.sizedUnmarshalBinary sum InternalNode.empty data = .ok (n, m)) :
    unmarshalBinary sum data = .ok (internal n) := by
  rw [unmarshalBinary, if_pos hlen, if_neg (by rw [h0]; decide), if_pos h0, hdec]
  rfl

end AnyNode

theorem nodeCodec_roundTrip (sum : List UInt8 → Hash) :
    (∀ l : LeafNode, l.Encodable →
      ∃ data, l.marshalBinary = .ok data ∧ l.compactMarshalBinaryV0 = .ok data ∧
        l.compactMarshalBinaryV1 = .ok data ∧
        (∀ r : LeafNode, LeafNode.sizedUnmarshalBinary sum r data = .ok (l.decoded sum, data.length)) ∧
        AnyNode.unmarshalBinary sum data = .ok (.leaf (l.decoded sum)) ∧
        (l.decoded sum).key.bytes = l.key.bytes ∧ (l.decoded sum).value = l.value ∧
        (l.hash = l.computeHash sum → (l.decoded sum).hash = l.hash)) ∧
    (∀ n : InternalNode, n.Encodable →
      ∃ data, n.marshalBinary sum = .ok data ∧
        (∀ r : InternalNode,
          InternalNode.sizedUnmarshalBinary sum r data = .ok (n.decoded sum, data.length)) ∧
        AnyNode.unmarshalBinary sum data = .ok (.internal (n.decoded sum)) ∧
        (n.decoded sum).label.bytes = n.label.bytes ∧
        (n.decoded sum).labelBitLength = n.labelBitLength ∧
        (∀ p ∈ n.leafNode, ∀ l ∈ p.node,
          (n.decoded sum).leafNode = some ⟨(l.decoded sum).hash, some (l.decoded sum)⟩) ∧
        (n.leafNode = none → (n.decoded sum).leafNode = none) ∧
        InternalNode.childHash sum (n.decoded sum).left = InternalNode.childHash sum n.left ∧
        InternalNode.childHash sum (n.decoded sum).right = InternalNode.childHash sum n.right ∧
        ((n.decoded sum).left = none ↔ InternalNode.childHash sum n.left = Hash.empty sum) ∧
        ((n.decoded sum).right = none ↔ InternalNode.childHash sum n.right = Hash.empty sum) ∧
        (n.HashesCurrent sum → (n.decoded sum).hash = n.hash)) ∧
    (∀ n : InternalNode, n.Encodable →
      ∃ data, n.compactMarshalBinaryV0 = .ok data ∧
        AnyNode.unmarshalBinary sum data = .ok (.internal (InternalNode.compactDecoded sum .empty n))) ∧
    (∀ n : InternalNode, n.Encodable →
      ∃ data, n.compactMarshalBinaryV1 = .ok data ∧
        AnyNode.unmarshalBinary sum data =
          .ok (.internal (InternalNode.compactDecoded sum .empty { n with leafNode := none }))) := by
  refine ⟨fun l hl => ?_, fun n hn => ?_, fun n hn => ?_, fun n hn => ?_⟩
  · obtain ⟨data, hmar, h0, hlen, hdec⟩ := LeafNode.marshalBinary_spec sum hl
    have hdec' : ∀ r, LeafNode.sizedUnmarshalBinary sum r data = .ok (l.decoded sum, data.length) := by
      intro r
      simpa using hdec r []
    refine ⟨data, hmar, hmar, hmar, hdec', ?_, rfl, rfl, fun h => ?_⟩
    · exact AnyNode.unmarshalBinary_of_leaf sum h0 (by rw [hlen]; omega) (hdec' _)
    · rw [LeafNode.decoded_hash, h]
  · obtain ⟨data, hmar, h0, hlen, hdec⟩ := InternalNode.marshalBinary_spec sum hn
    refine ⟨data, hmar, hdec, AnyNode.unmarshalBinary_of_internal sum h0 hlen (hdec _), rfl, rfl,
      fun p hp l hl => InternalNode.decoded_leafNode sum hp hl, fun h => ?_,
      InternalNode.childHash_childOfHash sum _, InternalNode.childHash_childOfHash sum _,
      InternalNode.childOfHash_eq_none_iff sum, InternalNode.childOfHash_eq_none_iff sum,
      InternalNode.decoded_hash sum hn⟩
    rw [InternalNode.leafNode_decoded, h]
    rfl
  · obtain ⟨data, hmar, h0, hlen, hdec⟩ := InternalNode.compactMarshalBinaryV0_spec sum hn
    exact ⟨data, hmar, AnyNode.unmarshalBinary_of_internal sum h0 hlen (hdec _)⟩
  · obtain ⟨data, hmar, h0, hlen, hdec⟩ := InternalNode.compactMarshalBinaryV1_spec sum hn.1
    exact ⟨data, hmar, AnyNode.unmarshalBinary_of_internal sum h0 hlen (hdec _)⟩

/-- A stand-in digest for the examples: the length of its input, in `Size` bytes. -/
def lengthSum (data : List UInt8) : Hash :=
  ⟨leBytes hashSize data.length, length_leBytes _ _⟩

/-- The leaf node of key `0xab` and value `0x01 0x02`, with its hash. -/
def sampleLeaf : LeafNode :=
  LeafNode.updateHash lengthSum ⟨Hash.zero, .ofBytes [0xab], [1, 2]⟩

/-- An internal node with a label of three bits, the leaf node above and a left child, with
its hash. -/
def sampleNode : InternalNode :=
  InternalNode.updateHash lengthSum
    ⟨Hash.zero, .ofBytes [0xa0], 3, some ⟨sampleLeaf.hash, some sampleLeaf⟩, some Hash.zero, none⟩

theorem nodeCodec_roundTrip_sample :
    (sampleLeaf.decoded lengthSum).hash = sampleLeaf.hash ∧
      ∃ data, sampleNode.marshalBinary lengthSum = .ok data ∧
        AnyNode.unmarshalBinary lengthSum data = .ok (.internal (sampleNode.decoded lengthSum)) ∧
        (sampleNode.decoded lengthSum).hash = sampleNode.hash := by
  have hl : sampleLeaf.Encodable := ⟨by decide, by decide⟩
  have hn : sampleNode.Encodable := ⟨by decide, fun p hp => by cases hp; exact ⟨sampleLeaf, rfl, hl⟩⟩
  have hc : sampleNode.HashesCurrent lengthSum := ⟨rfl, fun p hp l hl => by cases hp; cases hl; rfl⟩
  obtain ⟨-, -, -, -, -, -, -, -, hleafHash⟩ := (nodeCodec_roundTrip lengthSum).1 sampleLeaf hl
  obtain ⟨data, hmar, -, hnode, -, -, -, -, -, -, -, -, hhash⟩ := (nodeCodec_roundTrip lengthSum).2.1 sampleNode hn
  exact ⟨hleafHash rfl, data, hmar, hnode, hhash hc⟩

theorem compactMarshalBinaryV1_drops_leafNode :
    sampleNode.leafNode ≠ none ∧ ∃ data, sampleNode.compactMarshalBinaryV1 = .ok data ∧
      ∃ d : InternalNode, AnyNode.unmarshalBinary lengthSum data = .ok (.internal d) ∧ d.leafNode = none ∧
        d.hash = Hash.zero ∧ d.hash ≠ sampleNode.hash := by
  obtain ⟨data, hmar, h0, hlen, hdec⟩ :=
    InternalNode.compactMarshalBinaryV1_spec lengthSum (n := sampleNode) (by decide)
  refine ⟨Option.some_ne_none _, data, hmar, _,
    AnyNode.unmarshalBinary_of_internal lengthSum h0 hlen (hdec _), rfl, rfl, by decide⟩

end Mkvs

end OasisCore
