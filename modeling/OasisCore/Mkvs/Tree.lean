import OasisCore.Mkvs.Key
import OasisCore.Misc.FinMap

/-!
# The MKVS tree

The in-memory trie of the Merklized key-value store (`go/storage/mkvs`) and the tree
operations on it: `Insert` (`insert.go`), `RemoveExisting` and `Remove` (`remove.go`),
`Get` (`lookup.go`), the write log of `Commit` (`commit.go`) and `ApplyWriteLog`
(`tree.go`).

A node is a leaf holding a key and its value, or an internal node holding the label of
its incoming edge, the label's bit length, and three children: `LeafNode` for the key
that ends at the node, `Left` and `Right` for the keys whose next bit is 0 and 1. A nil
pointer, and a pointer to no node, is `Node.nil`. The Go code rewrites nodes in place;
every node is reached through one pointer only, so the model rebuilds them instead.

The tree keeps its pending root and its pending write log, a Go map from the bytes of
each key touched since the last commit to an entry: the key, its value after the last
update (nil once removed), and whether it existed before the first update.

Left out, since no result reads them: node hashes, the clean flags and
`pendingRemovedNodes`, which only decide what a commit stores; the node cache, its
eviction and remote fetches (the tree is resident); `insertedLeaf`, which only annotates
the stored write log; cancellation of `ctx` and closing the tree. An error before the
tree is changed leaves it as it was; a failed `Merge` in the middle of `doRemove`, the
one error after Go has changed nodes in place, cannot happen on a canonical trie.
-/

namespace OasisCore

namespace Mkvs

/-- `node.Node` behind a `node.Pointer` (`node/node.go:320-343, 407-417`). -/
inductive Node where
  | nil
  | leaf (key : Key) (value : List UInt8)
  | internal (label : Key) (labelBitLength : ℕ) (leafNode left right : Node)
  deriving DecidableEq, Repr

/-- `insertResult` (`insert.go:53-57`), without `insertedLeaf`. -/
structure InsertResult where
  newRoot : Node
  existed : Bool
  deriving DecidableEq, Repr

/-- `tree.doInsert` (`insert.go:59-262`): insert `key` with `val` below `ptr`, the node at
bit depth `bitDepth`. -/
def doInsert (ptr : Node) (bitDepth : ℕ) (key : Key) (val : List UInt8) :
    Except MkvsError InsertResult := do
  let keyBitLength ← key.bitLength
  let (_, keyRemainder) ← key.mustSplit bitDepth keyBitLength
  match ptr with
  | .nil => pure ⟨.leaf key val, false⟩
  | .internal label labelBitLength leafNode left right =>
    let cpLength ← label.commonPrefixLen labelBitLength keyRemainder (keyBitLength - bitDepth)
    if cpLength = labelBitLength then
      let bitLength := bitDepth + labelBitLength
      if keyBitLength = bitLength then
        let result ← doInsert leafNode bitLength key val
        pure { result with newRoot := .internal label labelBitLength result.newRoot left right }
      else do
        let bit ← key.mustGetBit bitLength
        if bit then
          let result ← doInsert right bitLength key val
          pure { result with newRoot := .internal label labelBitLength leafNode left result.newRoot }
        else
          let result ← doInsert left bitLength key val
          pure { result with newRoot := .internal label labelBitLength leafNode result.newRoot right }
    else do
      -- the key leaves the label at cpLength: the edge is split there
      let (labelPrefix, labelSuffix) ← label.mustSplit cpLength labelBitLength
      let ptr := Node.internal labelSuffix (labelBitLength - cpLength) leafNode left right
      let newLeaf := Node.leaf key val
      if keyBitLength - bitDepth = cpLength then
        let bit ← labelSuffix.mustGetBit 0
        if bit then pure ⟨.internal labelPrefix cpLength newLeaf .nil ptr, false⟩
        else pure ⟨.internal labelPrefix cpLength newLeaf ptr .nil, false⟩
      else do
        let bit ← keyRemainder.mustGetBit cpLength
        if bit then pure ⟨.internal labelPrefix cpLength .nil ptr newLeaf, false⟩
        else pure ⟨.internal labelPrefix cpLength .nil newLeaf ptr, false⟩
  | .leaf nKey _ =>
    -- an equal value keeps the leaf as it is, which is the same leaf
    if nKey.equal key then pure ⟨.leaf nKey val, true⟩
    else do
      let nodeKeyBitLength ← nKey.bitLength
      let (_, leafKeyRemainder) ← nKey.mustSplit bitDepth nodeKeyBitLength
      let cpLength ← leafKeyRemainder.commonPrefixLen (nodeKeyBitLength - bitDepth) keyRemainder
        (keyBitLength - bitDepth)
      let leafKeyBitLength ← leafKeyRemainder.bitLength
      let (labelPrefix, _) ← leafKeyRemainder.mustSplit cpLength leafKeyBitLength
      let newLeaf := Node.leaf key val
      if keyBitLength - bitDepth = cpLength then
        let bit ← leafKeyRemainder.mustGetBit cpLength
        if bit then pure ⟨.internal labelPrefix cpLength newLeaf .nil ptr, false⟩
        else pure ⟨.internal labelPrefix cpLength newLeaf ptr .nil, false⟩
      else if nodeKeyBitLength - bitDepth = cpLength then do
        let bit ← keyRemainder.mustGetBit cpLength
        if bit then pure ⟨.internal labelPrefix cpLength ptr .nil newLeaf, false⟩
        else pure ⟨.internal labelPrefix cpLength ptr newLeaf .nil, false⟩
      else do
        let bit ← keyRemainder.mustGetBit cpLength
        if bit then pure ⟨.internal labelPrefix cpLength .nil ptr newLeaf, false⟩
        else pure ⟨.internal labelPrefix cpLength .nil newLeaf ptr, false⟩

/-- The end of the internal-node case of `tree.doRemove` (`remove.go:110-163`): an
internal node left with its leaf alone becomes that leaf, one left with a single child
and no leaf becomes the child, whose label, if it is an internal node, takes the
node's label in front. -/
def collapse (label : Key) (labelBitLength : ℕ) (leafNode left right : Node) (changed : Bool)
    (existing : Option (List UInt8)) : Except MkvsError (Node × Bool × Option (List UInt8)) :=
  if leafNode ≠ .nil ∧ left = .nil ∧ right = .nil then pure (leafNode, true, existing)
  else if leafNode = .nil ∧ (left = .nil ∨ right = .nil) then
    let child := if left ≠ .nil then left else right
    match child with
    | .internal childLabel childLabelBitLength childLeaf childLeft childRight => do
      let childLabel ← label.merge labelBitLength childLabel childLabelBitLength
      pure (.internal childLabel (childLabelBitLength + labelBitLength) childLeaf childLeft childRight,
        true, existing)
    | _ => pure (child, true, existing)
  else pure (.internal label labelBitLength leafNode left right, changed, existing)

/-- `tree.doRemove` (`remove.go:54-173`): the new node, whether anything changed, and the
removed value. -/
def doRemove (ptr : Node) (bitDepth : ℕ) (key : Key) :
    Except MkvsError (Node × Bool × Option (List UInt8)) := do
  let keyBitLength ← key.bitLength
  match ptr with
  | .nil => pure (.nil, false, none)
  | .internal label labelBitLength leafNode left right =>
    let bitLength := bitDepth + labelBitLength
    if keyBitLength < bitLength then pure (ptr, false, none)
    else if keyBitLength = bitLength then do
      let (leafNode, changed, existing) ← doRemove leafNode bitLength key
      collapse label labelBitLength leafNode left right changed existing
    else do
      let bit ← key.mustGetBit bitLength
      if bit then do
        let (right, changed, existing) ← doRemove right bitLength key
        collapse label labelBitLength leafNode left right changed existing
      else do
        let (left, changed, existing) ← doRemove left bitLength key
        collapse label labelBitLength leafNode left right changed existing
  | .leaf nKey nValue =>
    if nKey.equal key then pure (.nil, true, some nValue) else pure (ptr, false, none)

/-- `tree.doGet` (`lookup.go:97-207`) without a proof builder, the lookup of `Get`. -/
def doGet (ptr : Node) (bitDepth : ℕ) (key : Key) : Except MkvsError (Option (List UInt8)) :=
  match ptr with
  | .nil => pure none
  | .internal _ labelBitLength leafNode left right => do
    let bitLength := bitDepth + labelBitLength
    let keyBitLength ← key.bitLength
    if keyBitLength = bitLength then doGet leafNode bitLength key
    else if keyBitLength < bitLength then pure none
    else do
      let bit ← key.mustGetBit bitLength
      if bit then doGet right bitLength key else doGet left bitLength key
  | .leaf nKey nValue => pure (if nKey.equal key then some nValue else none)

/-- `pendingEntry` (`tree.go:28-34`), without `insertedLeaf`. -/
structure PendingEntry where
  key : Key
  value : Option (List UInt8)
  existed : Bool
  deriving DecidableEq, Repr

instance : Inhabited PendingEntry := ⟨⟨.null, none, false⟩⟩

/-- The parts of `tree` (`tree.go:36-55`) that the operations read: the pending root of
the node cache, the pending write log keyed by `ToMapKey`, the key's bytes, and the
`WithoutWriteLog` option. -/
structure Tree where
  pendingRoot : Node
  pendingWriteLog : FinMap (List UInt8) PendingEntry
  withoutWriteLog : Bool

/-- `writelog.LogEntry`: a key and its new value, nil for a removal. -/
structure LogEntry where
  key : Key
  value : Option (List UInt8)
  deriving DecidableEq, Repr

namespace Tree

/-- A tree as `New` makes it (`tree.go:67-86`): no root, an empty write log. -/
def new (withoutWriteLog : Bool) : Tree :=
  ⟨.nil, FinMap.empty, withoutWriteLog⟩

/-- `tree.Insert` (`insert.go:11-51`); a nil value is stored as the empty value. -/
def insert (t : Tree) (key : Key) (value : Option (List UInt8)) : Except MkvsError Tree := do
  let value := value.getD []
  let result ← doInsert t.pendingRoot 0 key value
  let pendingWriteLog :=
    if t.withoutWriteLog then t.pendingWriteLog
    else
      match t.pendingWriteLog.lookup key.bytes with
      | none => t.pendingWriteLog.set key.bytes ⟨key, some value, result.existed⟩
      | some entry => t.pendingWriteLog.set key.bytes { entry with value := some value }
  pure { t with pendingRoot := result.newRoot, pendingWriteLog }

/-- `tree.RemoveExisting` (`remove.go:10-46`): a key whose entry already says removed is
not looked up again. -/
def removeExisting (t : Tree) (key : Key) : Except MkvsError (Tree × Option (List UInt8)) :=
  let entry := if t.withoutWriteLog then none else t.pendingWriteLog.lookup key.bytes
  if entry.any (·.value.isNone) then .ok (t, none)
  else do
    let (newRoot, changed, existing) ← doRemove t.pendingRoot 0 key
    let pendingWriteLog :=
      if t.withoutWriteLog then t.pendingWriteLog
      else
        match entry with
        | none => t.pendingWriteLog.set key.bytes ⟨key, none, changed⟩
        | some e => t.pendingWriteLog.set key.bytes { e with value := none }
    pure ({ t with pendingRoot := newRoot, pendingWriteLog }, existing)

/-- `tree.Remove` (`remove.go:48-52`). -/
def remove (t : Tree) (key : Key) : Except MkvsError Tree :=
  (t.removeExisting key).map Prod.fst

/-- `tree.Get` (`lookup.go:14-35`): from the write log if the key was touched, else from
the trie. -/
def get (t : Tree) (key : Key) : Except MkvsError (Option (List UInt8)) :=
  match (if t.withoutWriteLog then none else t.pendingWriteLog.lookup key.bytes) with
  | some entry => .ok entry.value
  | none => doGet t.pendingRoot 0 key

/-- The write log that `commitWithHooks` assembles (`commit.go:98-114`), walking the pending
write log in Go's map order: every entry but those of keys that neither exist now nor
existed before. -/
def commitLog (o : IterOrder (List UInt8)) (t : Tree) : List LogEntry :=
  (o.enum t.pendingWriteLog.keys).filterMap fun k =>
    let entry := t.pendingWriteLog.get k
    if entry.value = none ∧ !entry.existed then none else some ⟨entry.key, entry.value⟩

/-- `tree.Commit` (`commit.go:40-143`): the write log, and the tree with an empty pending
write log, unless the commit does not persist. Hashing and storing the nodes leave the
trie as it is. -/
def commit (o : IterOrder (List UInt8)) (noPersist : Bool) (t : Tree) : Tree × List LogEntry :=
  (if noPersist then t else { t with pendingWriteLog := FinMap.empty }, t.commitLog o)

/-- `tree.ApplyWriteLog` (`tree.go:106-133`): a removal for each nil value, an insert for
each other. -/
def applyWriteLog (t : Tree) (wl : List LogEntry) : Except MkvsError Tree :=
  wl.foldlM (fun t entry =>
    match entry.value with
    | none => t.remove entry.key
    | some v => t.insert entry.key (some v)) t

end Tree

end Mkvs

end OasisCore
