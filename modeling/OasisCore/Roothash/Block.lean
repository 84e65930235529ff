import Mathlib.Data.Nat.Notation

/-!
# Runtime blocks

The runtime block header of `go/roothash/api/block/header.go` and the block
constructors of `block.go`. Hashes are values of a type `H`; the encoded hash of a
header (`hash.NewFrom` of its CBOR encoding) and the empty hash (`Hash.Empty`)
are the cryptographic functions `BlockHashing` supplies.
-/

namespace OasisCore

namespace Roothash

/-- `HeaderType` (`header.go:36-56`). -/
inductive HeaderType where
  | invalid
  | normal
  | roundFailed
  | epochTransition
  | suspended
  deriving DecidableEq, Repr

/-- `Header` (`header.go:58-90`); `Namespace` is the runtime identifier. -/
structure Header (H : Type) where
  version : UInt16
  runtimeId : List UInt8
  round : UInt64
  timestamp : UInt64
  headerType : HeaderType
  previousHash : H
  ioRoot : H
  stateRoot : H
  messagesHash : H
  inMessagesHash : H
  deriving DecidableEq, Repr

/-- The hashes a block is built with: `Header.EncodedHash` and `Hash.Empty`. -/
structure BlockHashing (H : Type) where
  encodedHash : Header H → H
  emptyHash : H

/-- `Block` (`block.go:6-11`). -/
structure Block (H : Type) where
  header : Header H
  deriving DecidableEq, Repr

variable {H : Type} (hashing : BlockHashing H)

/-- `Header.IsParentOf` (`header.go:92-96`). -/
def Header.isParentOf [DecidableEq H] (h child : Header H) : Bool :=
  h.previousHash = hashing.encodedHash child

/-- `NewGenesisBlock` (`block.go:13-30`). -/
def newGenesisBlock (id : List UInt8) (timestamp : UInt64) : Block H where
  header :=
    { version := 0, runtimeId := id, round := 0, timestamp := timestamp, headerType := .normal,
      previousHash := hashing.emptyHash, ioRoot := hashing.emptyHash,
      stateRoot := hashing.emptyHash, messagesHash := hashing.emptyHash,
      inMessagesHash := hashing.emptyHash }

/-- `NewEmptyBlock` (`block.go:32-49`): the empty block after `child`, which keeps its
state root. -/
def newEmptyBlock (child : Block H) (timestamp : UInt64) (htype : HeaderType) : Block H where
  header :=
    { version := child.header.version, runtimeId := child.header.runtimeId,
      round := child.header.round + 1, timestamp := timestamp, headerType := htype,
      previousHash := hashing.encodedHash child.header, ioRoot := hashing.emptyHash,
      stateRoot := child.header.stateRoot, messagesHash := hashing.emptyHash,
      inMessagesHash := hashing.emptyHash }

end Roothash

end OasisCore
