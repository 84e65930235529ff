import OasisCore.Misc.Bits
import OasisCore.Misc.Except

/-!
# MKVS keys

The key functions of the Merklized key-value store's node package
(`go/storage/mkvs/node/key.go`, `depth.go`). A key is a Go byte slice addressed bit by
bit, the most significant bit of each byte first; the trie labels its edges with keys
too, each with the bit length `LabelBitLength` that its node carries beside it.

A Go slice may be nil, and Go tells a nil slice from an empty one: `Key` keeps the
difference (`null` and `ofBytes []`), since `Key.Equal` is the one function that sees it.
Every other function reads only the bytes, and every key the functions build is made
with `make`, never nil.

A depth, `node.Depth`, is `uint16` in Go and a natural number here: every depth the
tree computes is at most the bit length of one of its keys, which `BitLength` bounds by
`MaxDepth`.

Each function has its specification in bits (`Bits.bitAt`, `Bits.bitString`):
`split` cuts a label at a bit, `merge` joins two labels, `commonPrefixLen` is the
length of the common bit prefix. A label of `ℓ` bits is well formed (`IsLabel`) when
it has `ToBytes(ℓ)` bytes and its bits past `ℓ` are zero; `merge` needs that of both
its inputs, and `split` keeps it.
-/

namespace OasisCore

namespace Mkvs

open Bits

/-- `MaxDepth`, the largest `Depth` (`depth.go:14-15`). -/
def maxDepth : ℕ := 65535

/-- `Depth.ToBytes` (`depth.go:17-24`): the bytes needed to hold `dt` bits. -/
def toBytes (dt : ℕ) : ℕ :=
  dt / 8 + if dt % 8 ≠ 0 then 1 else 0

/-- The errors of the node package (`node.go:26-29`), and a panic of the tree code: a
`Must` helper whose call failed, or an index out of range. -/
inductive MkvsError where
  | invalidKeyLength
  | depthOverflow
  | panic
  deriving DecidableEq, Repr

/-- `node.Key` (`key.go:11-12`), a byte slice that may be nil. -/
inductive Key where
  | null
  | ofBytes (b : List UInt8)
  deriving DecidableEq, Repr

namespace Key

/-- The bytes of a key; a nil slice has none. -/
def bytes : Key → List UInt8
  | null => []
  | ofBytes b => b

/-- The bits of a key. -/
def bits (k : Key) : List Bool :=
  bitString k.bytes

/-- `Key.Equal` (`key.go:72-78`): bytewise on a non-nil receiver, and a nil receiver
equals only a nil key. -/
def equal : Key → Key → Bool
  | ofBytes b, other => b == other.bytes
  | null, other => other == null

/-- `Key.BitLength` (`key.go:91-98`). -/
def bitLength (k : Key) : Except MkvsError ℕ :=
  if k.bytes.length * 8 > maxDepth then .error .depthOverflow else .ok (k.bytes.length * 8)

/-- `Key.GetBit` (`key.go:100-106`); reading `k[bit/8]` past the end panics. -/
def getBit (k : Key) (bit : ℕ) : Except MkvsError Bool :=
  if toBytes bit > k.bytes.length then .error .invalidKeyLength
  else
    match k.bytes[bit / 8]? with
    | some b => .ok ((b &&& shl 1 (7 - bit % 8)) != 0)
    | none => .error .panic

/-- `Key.MustGetBit` (`key.go:108-117`). -/
def mustGetBit (k : Key) (bit : ℕ) : Except MkvsError Bool :=
  (k.getBit bit).mapError fun _ => .panic

/-- The byte of `Key.SetBit` and `Key.AppendBit` with the bits of `mask` set or cleared. -/
def setMask (val : Bool) (mask b : UInt8) : UInt8 :=
  if val then b ||| mask else b &&& ~~~mask

/-- `Key.SetBit` (`key.go:119-135`): a copy of the key with bit `bit` set to `val`;
writing `kb[bit/8]` past the end panics. -/
def setBit (k : Key) (bit : ℕ) (val : Bool) : Except MkvsError Key :=
  if toBytes bit > k.bytes.length then .error .invalidKeyLength
  else if bit / 8 < k.bytes.length then
    .ok (ofBytes (k.bytes.modify (bit / 8) (setMask val (shl 1 (7 - bit % 8)))))
  else .error .panic

/-- `Key.AppendBit` (`key.go:234-252`): the key of `keyLen` bits with `val` appended, in
`ToBytes(keyLen + 1)` bytes. Slicing `newKey[:len(k)]` panics when the key has more
bytes than that. -/
def appendBit (k : Key) (keyLen : ℕ) (val : Bool) : Except MkvsError Key :=
  if keyLen = maxDepth then .error .depthOverflow
  else if k.bytes.length > toBytes (keyLen + 1) then .error .panic
  else
    let newKey := k.bytes ++ List.replicate (toBytes (keyLen + 1) - k.bytes.length) 0
    .ok (ofBytes (newKey.modify (keyLen / 8) (setMask val (shr 0x80 (keyLen % 8)))))

/-- The prefix that `Key.Split` builds: `make` and `copy` of the first `ToBytes(splitPoint)`
bytes, the bits of the last byte past `splitPoint` cleared (`key.go:161-167`). -/
def splitPrefix (k : List UInt8) (splitPoint : ℕ) : List UInt8 :=
  let prefixLen := toBytes splitPoint
  let pre := k.take prefixLen ++ List.replicate (prefixLen - k.length) 0
  if splitPoint % 8 ≠ 0 then
    pre.modify (prefixLen - 1) (· &&& shl 0xff (8 - splitPoint % 8))
  else pre

/-- The suffix that `Key.Split` builds, byte by byte from two neighbouring bytes of `k`
(`key.go:169-176`). The guards of `split` keep the byte indices within `k`. -/
def splitSuffix (k : List UInt8) (splitPoint keyLen : ℕ) : List UInt8 :=
  (List.range (toBytes (keyLen - splitPoint))).map fun i =>
    let left := shl (k.getD (i + splitPoint / 8) 0) (splitPoint % 8)
    if splitPoint % 8 ≠ 0 ∧ i + splitPoint / 8 + 1 ≠ k.length then
      left ||| shr (k.getD (i + splitPoint / 8 + 1) 0) (8 - splitPoint % 8)
    else left

/-- `Key.Split` (`key.go:150-179`): the key of `keyLen` bits cut before bit
`splitPoint`. -/
def split (k : Key) (splitPoint keyLen : ℕ) : Except MkvsError (Key × Key) :=
  if toBytes keyLen > k.bytes.length then .error .invalidKeyLength
  else if splitPoint > keyLen then .error .invalidKeyLength
  else .ok (ofBytes (splitPrefix k.bytes splitPoint), ofBytes (splitSuffix k.bytes splitPoint keyLen))

/-- `Key.MustSplit` (`key.go:181-195`). -/
def mustSplit (k : Key) (splitPoint keyLen : ℕ) : Except MkvsError (Key × Key) :=
  (k.split splitPoint keyLen).mapError fun _ => .panic

/-- `newKey[i] |= b`, which panics past the end of `newKey`. -/
def orAt (newKey : List UInt8) (i : ℕ) (b : UInt8) : Except MkvsError (List UInt8) :=
  if i < newKey.length then .ok (newKey.modify i (· ||| b)) else .error .panic

/-- One round of the loop of `Key.Merge` (`key.go:217-229`): byte `i` of `k2` goes into
the two bytes of `newKey` that it straddles. -/
def mergeStep (keyLen : ℕ) (k2 : List UInt8) (newKey : List UInt8) (i : ℕ) :
    Except MkvsError (List UInt8) := do
  let keyLenBytes := toBytes keyLen
  let newKey ←
    if keyLen % 8 ≠ 0 ∧ keyLenBytes > 0 then
      orAt newKey (keyLenBytes + i - 1) (shr (k2.getD i 0) (keyLen % 8))
    else pure newKey
  if keyLenBytes + i < newKey.length then
    orAt newKey (keyLenBytes + i) (shl (k2.getD i 0) ((8 - keyLen % 8) % 8))
  else pure newKey

/-- `Key.Merge` (`key.go:197-232`): the key of `keyLen` bits followed by `k2` of `k2Len`
bits. -/
def merge (k : Key) (keyLen : ℕ) (k2 : Key) (k2Len : ℕ) : Except MkvsError Key := do
  if toBytes keyLen > k.bytes.length then throw .invalidKeyLength
  if toBytes k2Len > k2.bytes.length then throw .invalidKeyLength
  if maxDepth - keyLen < k2Len then throw .depthOverflow
  let keyLenBytes := toBytes keyLen
  let newLen := toBytes (keyLen + k2Len)
  let newKey := k.bytes.take keyLenBytes ++ List.replicate (newLen - keyLenBytes) 0
  let newKey ← (List.range k2.bytes.length).foldlM (mergeStep keyLen k2.bytes) newKey
  pure (ofBytes newKey)

/-- `Key.CommonPrefixLen` (`key.go:254-287`): the bytewise scan for the first differing
byte, the leading zeros of the two bytes' xor, and the result capped by both bit
lengths. -/
def commonPrefixLen (k : Key) (keyLen : ℕ) (k2 : Key) (k2Len : ℕ) :
    Except MkvsError ℕ :=
  if toBytes keyLen > k.bytes.length then .error .invalidKeyLength
  else if toBytes k2Len > k2.bytes.length then .error .invalidKeyLength
  else
    let i := prefixLength k.bytes k2.bytes
    let bitLength := i * 8 +
      if i ≠ k.bytes.length ∧ i ≠ k2.bytes.length then
        leadingZeros8 (k.bytes.getD i 0 ^^^ k2.bytes.getD i 0)
      else 0
    let bitLength := if bitLength > keyLen then keyLen else bitLength
    .ok (if bitLength > k2Len then k2Len else bitLength)

/-- A label of `len` bits: `ToBytes(len)` bytes, every bit past `len` zero. -/
def IsLabel (k : Key) (len : ℕ) : Prop :=
  k.bytes.length = toBytes len ∧ ∀ i, len ≤ i → bitAt k.bytes i = false

end Key

/-! ## Specifications -/

theorem toBytes_eq (d : ℕ) : toBytes d = (d + 7) / 8 := by
  unfold toBytes
  split <;> omega

theorem toBytes_le_iff {d n : ℕ} : toBytes d ≤ n ↔ d ≤ 8 * n := by
  rw [toBytes_eq]
  omega

namespace Key

@[simp] theorem bytes_ofBytes (b : List UInt8) : (ofBytes b).bytes = b := rfl

@[simp] theorem bytes_null : null.bytes = [] := rfl

@[simp] theorem length_bits (k : Key) : k.bits.length = 8 * k.bytes.length := by
  simp [bits]

theorem bits_injective {k k' : Key} (h : k.bits = k'.bits) : k.bytes = k'.bytes :=
  bitString_injective h

/-- Equal keys have equal bytes. -/
theorem bytes_eq_of_equal {k k' : Key} (h : k.equal k' = true) : k.bytes = k'.bytes := by
  cases k with
  | null =>
    simp only [equal, beq_iff_eq] at h
    rw [h]
  | ofBytes b =>
    simp only [equal, beq_iff_eq] at h
    exact h

/-- Two keys with the same bytes are equal, but for a nil receiver and an empty key. -/
theorem eq_null_of_bytes_eq {k k' : Key} (h : k.bytes = k'.bytes) (hne : k.equal k' = false) :
    k = null ∧ k' = ofBytes [] := by
  cases k with
  | ofBytes b =>
    simp only [equal, bytes_ofBytes, beq_eq_false_iff_ne] at h hne
    exact absurd h hne
  | null =>
    cases k' with
    | null => simp [equal] at hne
    | ofBytes b =>
      simp only [bytes_null, bytes_ofBytes] at h
      exact ⟨rfl, by rw [← h]⟩

theorem bitLength_eq_ok {k : Key} {n : ℕ} :
    k.bitLength = .ok n ↔ k.bytes.length * 8 ≤ maxDepth ∧ n = k.bits.length := by
  rw [bitLength, length_bits]
  split
  · rename_i h
    simp only [reduceCtorEq, false_iff, not_and]
    omega
  · rename_i h
    simp only [Except.ok.injEq]
    omega

theorem mustGetBit_eq_ok {k : Key} {bit : ℕ} {b : Bool} :
    k.mustGetBit bit = .ok b ↔ k.bits[bit]? = some b := by
  rw [mustGetBit, Except.mapError_eq_ok, getBit, bits, getElem?_bitString]
  split
  · rename_i hlen
    have : ¬ bit < 8 * k.bytes.length := by
      rw [gt_iff_lt, ← not_le, toBytes_le_iff] at hlen
      omega
    simp [this]
  · rename_i hlen
    split
    · rename_i b₀ hb₀
      have hlt : bit / 8 < k.bytes.length := (List.getElem?_eq_some_iff.mp hb₀).1
      have hbit : bit < 8 * k.bytes.length := by omega
      have hget : k.bytes.getD (bit / 8) 0 = b₀ := by simp [hb₀]
      rw [if_pos hbit, bitAt, hget, ← and_shl_one_ne_zero b₀ (Nat.mod_lt _ (by decide))]
      simp
    · rename_i hb₀
      have : ¬ bit < 8 * k.bytes.length := by
        have := List.getElem?_eq_none_iff.mp hb₀
        omega
      simp [this]

theorem split_eq_ok {k : Key} {sp kl : ℕ} {r : Key × Key} :
    k.split sp kl = .ok r ↔ kl ≤ k.bits.length ∧ sp ≤ kl ∧
      r = (ofBytes (splitPrefix k.bytes sp), ofBytes (splitSuffix k.bytes sp kl)) := by
  rw [split, length_bits]
  split
  · rename_i h
    rw [gt_iff_lt, ← not_le, toBytes_le_iff] at h
    simp [h]
  · rename_i h
    rw [gt_iff_lt, not_lt, toBytes_le_iff] at h
    split
    · rename_i hsp
      simp only [reduceCtorEq, false_iff, not_and]
      omega
    · rename_i hsp
      simp only [Except.ok.injEq]
      constructor
      · intro hr
        exact ⟨h, by omega, hr.symm⟩
      · intro hr
        exact hr.2.2.symm

theorem mustSplit_eq_ok {k : Key} {sp kl : ℕ} {r : Key × Key} :
    k.mustSplit sp kl = .ok r ↔ kl ≤ k.bits.length ∧ sp ≤ kl ∧
      r = (ofBytes (splitPrefix k.bytes sp), ofBytes (splitSuffix k.bytes sp kl)) := by
  rw [mustSplit, Except.mapError_eq_ok, split_eq_ok]

@[simp] theorem length_splitPrefix (k : List UInt8) (sp : ℕ) : (splitPrefix k sp).length = toBytes sp := by
  unfold splitPrefix
  split <;> simp <;> omega

theorem bitAt_splitPrefix (k : List UInt8) (sp i : ℕ) :
    bitAt (splitPrefix k sp) i = (decide (i < sp) && bitAt k i) := by
  have hpl := toBytes_eq sp
  unfold splitPrefix
  simp only
  split
  · rename_i hr
    rw [bitAt_modify]
    split
    · rename_i hi
      have hi8 := hi.1
      have hj : i % 8 < 8 := Nat.mod_lt _ (by decide)
      rw [byteBit_and, byteBit_shl, byteBit_ff, byteBit_getD _ _ _ hj,
        bitAt_take_append_replicate]
      have hidx : 8 * (toBytes sp - 1) + i % 8 = i := by omega
      rw [hidx]
      by_cases hisp : i < sp
      · simp [hisp, show i < 8 * toBytes sp by omega, show i % 8 + (8 - sp % 8) < 8 by omega]
      · simp [hisp, show ¬ i % 8 + (8 - sp % 8) < 8 by omega]
    · rename_i hi
      rw [bitAt_take_append_replicate]
      have hlen : toBytes sp - 1 < (k.take (toBytes sp) ++
          List.replicate (toBytes sp - k.length) 0).length := by simp; omega
      have hne : i / 8 ≠ toBytes sp - 1 := fun h => hi ⟨h, hlen⟩
      by_cases hisp : i < sp
      · simp [hisp, show i < 8 * toBytes sp by omega]
      · simp [hisp, show ¬ i < 8 * toBytes sp by omega]
  · rename_i hr
    rw [bitAt_take_append_replicate]
    have : 8 * toBytes sp = sp := by omega
    rw [this]

@[simp] theorem length_splitSuffix (k : List UInt8) (sp kl : ℕ) :
    (splitSuffix k sp kl).length = toBytes (kl - sp) := by
  simp [splitSuffix]

theorem bitAt_splitSuffix (k : List UInt8) (sp kl i : ℕ) :
    bitAt (splitSuffix k sp kl) i = (decide (i < 8 * toBytes (kl - sp)) && bitAt k (sp + i)) := by
  rw [splitSuffix, bitAt_map_range]
  by_cases hq : i / 8 < toBytes (kl - sp)
  · have hi : i < 8 * toBytes (kl - sp) := by omega
    simp only [hq, hi, decide_true, Bool.true_and]
    have hj : i % 8 < 8 := Nat.mod_lt _ (by decide)
    have hsum : sp + i = 8 * (i / 8 + sp / 8) + (i % 8 + sp % 8) := by omega
    by_cases hjr : i % 8 + sp % 8 < 8
    · have hleft : byteBit (shl (k.getD (i / 8 + sp / 8) 0) (sp % 8)) (i % 8) = bitAt k (sp + i) := by
        rw [byteBit_shl, byteBit_getD _ _ _ hjr, hsum]
      split
      · rw [byteBit_or, hleft, byteBit_shr]
        simp [show ¬ 8 - sp % 8 ≤ i % 8 by omega]
      · exact hleft
    · have hleft : byteBit (shl (k.getD (i / 8 + sp / 8) 0) (sp % 8)) (i % 8) = false := by
        rw [byteBit_shl, byteBit_of_le (by omega)]
      have hsum' : sp + i = 8 * (i / 8 + sp / 8 + 1) + (i % 8 - (8 - sp % 8)) := by omega
      split
      · rename_i hcond
        rw [byteBit_or, hleft, byteBit_shr,
          byteBit_getD _ _ _ (show i % 8 - (8 - sp % 8) < 8 by omega), ← hsum']
        simp [hj, show 8 - sp % 8 ≤ i % 8 by omega]
      · rename_i hcond
        have hend : i / 8 + sp / 8 + 1 = k.length := by
          by_contra hne
          exact hcond ⟨by omega, hne⟩
        rw [hleft, bitAt_of_length_le (by omega)]
  · simp [hq, show ¬ i < 8 * toBytes (kl - sp) by omega]

theorem commonPrefixLen_eq_ok {k k2 : Key} {kl k2l n : ℕ} :
    k.commonPrefixLen kl k2 k2l = .ok n ↔ kl ≤ k.bits.length ∧ k2l ≤ k2.bits.length ∧
      n = prefixLength (k.bits.take kl) (k2.bits.take k2l) := by
  rw [commonPrefixLen, length_bits, length_bits]
  split
  · rename_i h
    rw [gt_iff_lt, ← not_le, toBytes_le_iff] at h
    simp [h]
  · rename_i h
    rw [gt_iff_lt, not_lt, toBytes_le_iff] at h
    split
    · rename_i h2
      rw [gt_iff_lt, ← not_le, toBytes_le_iff] at h2
      simp [h2]
    · rename_i h2
      rw [gt_iff_lt, not_lt, toBytes_le_iff] at h2
      rw [prefixLength_take, bits, bits, prefixLength_bitString]
      simp only [Except.ok.injEq, h, h2, true_and]
      constructor <;> intro hn <;> split_ifs at * <;> omega

theorem mergeStep_bit (k k2 : List UInt8) {keyLen i p len : ℕ} (hp : p < 8 * len) :
    ((if p < keyLen then bitAt k p else decide (p < keyLen + 8 * i) && bitAt k2 (p - keyLen)) ||
      (decide (keyLen % 8 ≠ 0) && decide (p / 8 = toBytes keyLen + i - 1) &&
        byteBit (shr (k2.getD i 0) (keyLen % 8)) (p % 8)) ||
      (decide (p / 8 = toBytes keyLen + i) && decide (toBytes keyLen + i < len) &&
        byteBit (shl (k2.getD i 0) ((8 - keyLen % 8) % 8)) (p % 8))) =
    (if p < keyLen then bitAt k p else decide (p < keyLen + 8 * (i + 1)) && bitAt k2 (p - keyLen)) := by
  have hkb := toBytes_eq keyLen
  have hj : p % 8 < 8 := Nat.mod_lt _ (by decide)
  have hx : ∀ t, byteBit (k2.getD i 0) t = (decide (t < 8) && bitAt k2 (8 * i + t)) := by
    intro t
    by_cases ht : t < 8
    · rw [byteBit_getD _ _ _ ht]
      simp [ht]
    · simp [ht, byteBit_of_le (Nat.le_of_not_lt ht)]
  rw [byteBit_shr, byteBit_shl, hx, hx]
  apply Bool.eq_iff_iff.mpr
  by_cases hlow : p < keyLen
  · -- below keyLen the round writes nothing
    simp only [hlow, if_true, Bool.or_eq_true, Bool.and_eq_true, decide_eq_true_eq]
    constructor
    · rintro ((h | ⟨⟨_, _⟩, ⟨_, _⟩, _, _⟩) | ⟨⟨_, _⟩, _, _⟩)
      · exact h
      · omega
      · omega
    · exact fun h => Or.inl (Or.inl h)
  · simp only [hlow, if_false, Bool.or_eq_true, Bool.and_eq_true, decide_eq_true_eq]
    constructor
    · rintro ((⟨_, h⟩ | ⟨⟨_, _⟩, ⟨_, _⟩, _, h⟩) | ⟨⟨_, _⟩, _, h⟩)
      · exact ⟨by omega, h⟩
      · refine ⟨by omega, ?_⟩
        rwa [show 8 * i + (p % 8 - keyLen % 8) = p - keyLen by omega] at h
      · refine ⟨by omega, ?_⟩
        rwa [show 8 * i + (p % 8 + (8 - keyLen % 8) % 8) = p - keyLen by omega] at h
    · rintro ⟨hlt, h⟩
      by_cases hdone : p < keyLen + 8 * i
      · exact Or.inl (Or.inl ⟨hdone, h⟩)
      · by_cases hfirst : keyLen % 8 ≠ 0 ∧ p / 8 = toBytes keyLen + i - 1
        · refine Or.inl (Or.inr ⟨hfirst, ⟨hj, by omega⟩, by omega, ?_⟩)
          rwa [show 8 * i + (p % 8 - keyLen % 8) = p - keyLen by omega]
        · refine Or.inr ⟨⟨by omega, by omega⟩, by omega, ?_⟩
          rwa [show 8 * i + (p % 8 + (8 - keyLen % 8) % 8) = p - keyLen by omega]

theorem orAt_eq_ok {nk nk' : List UInt8} {m : ℕ} {b : UInt8} :
    orAt nk m b = .ok nk' ↔ m < nk.length ∧ nk' = nk.modify m (· ||| b) := by
  unfold orAt
  split
  · rename_i hm
    simp only [Except.ok.injEq, hm, true_and]
    exact eq_comm
  · rename_i hm
    simp [hm]

theorem mergeStep_spec (k k2 : List UInt8) {keyLen k2Len i : ℕ} {nk : List UInt8}
    (hk2 : k2.length = toBytes k2Len) (hi : i < k2.length)
    (hlen : nk.length = toBytes (keyLen + k2Len))
    (hbits : ∀ p < 8 * nk.length, bitAt nk p =
      if p < keyLen then bitAt k p else decide (p < keyLen + 8 * i) && bitAt k2 (p - keyLen)) :
    ∃ nk', mergeStep keyLen k2 nk i = .ok nk' ∧ nk'.length = nk.length ∧
      ∀ p < 8 * nk'.length, bitAt nk' p =
        if p < keyLen then bitAt k p else decide (p < keyLen + 8 * (i + 1)) && bitAt k2 (p - keyLen) := by
  have hkb := toBytes_eq keyLen
  have hk2b := toBytes_eq k2Len
  have hnb := toBytes_eq (keyLen + k2Len)
  obtain ⟨nk₁, h₁, hlen₁, hbits₁⟩ : ∃ nk₁,
      (if keyLen % 8 ≠ 0 ∧ toBytes keyLen > 0 then
        orAt nk (toBytes keyLen + i - 1) (shr (k2.getD i 0) (keyLen % 8)) else pure nk) = .ok nk₁ ∧
      nk₁.length = nk.length ∧
      ∀ p, bitAt nk₁ p = (bitAt nk p || (decide (keyLen % 8 ≠ 0) &&
        decide (p / 8 = toBytes keyLen + i - 1) && byteBit (shr (k2.getD i 0) (keyLen % 8)) (p % 8))) := by
    split
    · rename_i hc
      have hidx : toBytes keyLen + i - 1 < nk.length := by omega
      refine ⟨_, orAt_eq_ok.mpr ⟨hidx, rfl⟩, by simp, fun p => ?_⟩
      rw [bitAt_modify_or]
      simp [hc.1, hidx]
    · rename_i hc
      have hr : keyLen % 8 = 0 := by omega
      exact ⟨nk, rfl, rfl, fun p => by simp [hr]⟩
  obtain ⟨nk₂, h₂, hlen₂, hbits₂⟩ : ∃ nk₂,
      (if toBytes keyLen + i < nk₁.length then
        orAt nk₁ (toBytes keyLen + i) (shl (k2.getD i 0) ((8 - keyLen % 8) % 8)) else pure nk₁) = .ok nk₂ ∧
      nk₂.length = nk₁.length ∧
      ∀ p, bitAt nk₂ p = (bitAt nk₁ p || (decide (p / 8 = toBytes keyLen + i) &&
        decide (toBytes keyLen + i < nk.length) &&
        byteBit (shl (k2.getD i 0) ((8 - keyLen % 8) % 8)) (p % 8))) := by
    split
    · rename_i hc
      refine ⟨_, orAt_eq_ok.mpr ⟨hc, rfl⟩, by simp, fun p => ?_⟩
      rw [bitAt_modify_or, hlen₁]
    · rename_i hc
      exact ⟨nk₁, rfl, rfl, fun p => by simp [show ¬ toBytes keyLen + i < nk.length by omega]⟩
  refine ⟨nk₂, ?_, by omega, fun p hp => ?_⟩
  · rw [mergeStep]
    split
    · rename_i hc
      rw [if_pos hc] at h₁
      rw [h₁, Except.ok_bind]
      exact h₂
    · rename_i hc
      rw [if_neg hc] at h₁
      cases Except.pure_eq_ok.mp h₁
      exact h₂
  · rw [hbits₂, hbits₁, hbits p (by omega)]
    exact mergeStep_bit k k2 (by omega)


theorem merge_eq_ok {k k2 : Key} {kl k2l : ℕ} (hk : k.IsLabel kl) (hk2 : k2.IsLabel k2l)
    (hmax : kl + k2l ≤ maxDepth) :
    ∃ m, k.merge kl k2 k2l = .ok m ∧ m.IsLabel (kl + k2l) ∧
      ∀ i, bitAt m.bytes i = if i < kl then bitAt k.bytes i else bitAt k2.bytes (i - kl) := by
  obtain ⟨hklen, hkpad⟩ := hk
  obtain ⟨hk2len, hk2pad⟩ := hk2
  have hkb := toBytes_eq kl
  have hk2b := toBytes_eq k2l
  have hnb := toBytes_eq (kl + k2l)
  -- the loop after n rounds has placed the first 8 * n bits of k2
  have hloop : ∀ n ≤ k2.bytes.length, ∃ nk,
      (List.range n).foldlM (mergeStep kl k2.bytes)
        (k.bytes.take (toBytes kl) ++ List.replicate (toBytes (kl + k2l) - toBytes kl) 0) = .ok nk ∧
      nk.length = toBytes (kl + k2l) ∧
      ∀ p < 8 * nk.length, bitAt nk p =
        if p < kl then bitAt k.bytes p else decide (p < kl + 8 * n) && bitAt k2.bytes (p - kl) := by
    intro n
    induction n with
    | zero =>
      intro _
      refine ⟨_, rfl, by simp; omega, fun p _ => ?_⟩
      rw [bitAt_take_append_replicate]
      by_cases hp : p < kl
      · simp [hp, show p < 8 * toBytes kl by omega]
      · simp [hp, hkpad p (by omega)]
    | succ n ih =>
      intro hn
      obtain ⟨nk, hfold, hlen, hbits⟩ := ih (by omega)
      obtain ⟨nk', hstep, hlen', hbits'⟩ :=
        mergeStep_spec k.bytes k2.bytes hk2len (by omega) hlen hbits
      refine ⟨nk', ?_, by omega, hbits'⟩
      rw [List.range_succ, List.foldlM_append, hfold, Except.ok_bind]
      simpa using hstep
  obtain ⟨nk, hfold, hlen, hbits⟩ := hloop k2.bytes.length le_rfl
  have hm : ∀ i, bitAt nk i = if i < kl then bitAt k.bytes i else bitAt k2.bytes (i - kl) := by
    intro i
    by_cases hi : i < 8 * nk.length
    · rw [hbits i hi]
      by_cases hik : i < kl
      · simp [hik]
      · by_cases hin : i < kl + 8 * k2.bytes.length
        · simp [hik, hin]
        · simp [hik, hin, bitAt_of_length_le (show 8 * k2.bytes.length ≤ i - kl by omega)]
    · rw [bitAt_of_length_le (by omega), if_neg (by omega), hk2pad _ (by omega)]
  refine ⟨ofBytes nk, ?_, ⟨hlen, fun i hi => ?_⟩, hm⟩
  · have hg1 : ¬ toBytes kl > k.bytes.length := by omega
    have hg2 : ¬ toBytes k2l > k2.bytes.length := by omega
    have hg3 : ¬ maxDepth - kl < k2l := by omega
    simp only [merge, hg1, hg2, hg3, if_false, hfold]
    rfl
  · rw [bytes_ofBytes, hm, if_neg (by omega), hk2pad _ (by omega)]


/-! ## Labels as bit lists -/

theorem IsLabel.le_length_bits {k : Key} {len : ℕ} (hk : k.IsLabel len) : len ≤ k.bits.length := by
  rw [length_bits, hk.1, toBytes_eq]
  omega

@[simp] theorem length_take_bits_of_isLabel {k : Key} {len : ℕ} (hk : k.IsLabel len) :
    (k.bits.take len).length = len := by
  rw [List.length_take]
  exact min_eq_left hk.le_length_bits

/-- The prefix of a split holds the first `sp` bits. -/
theorem take_bits_splitPrefix (k : Key) {sp : ℕ} (h : sp ≤ k.bits.length) :
    (ofBytes (splitPrefix k.bytes sp)).bits.take sp = k.bits.take sp := by
  rw [length_bits] at h
  have hlen : sp ≤ 8 * toBytes sp := by
    rw [toBytes_eq]
    omega
  apply List.ext_getElem (by simp; omega)
  intro i hi _
  simp only [List.getElem_take, bits, getElem_bitString, bytes_ofBytes, bitAt_splitPrefix]
  simp [show i < sp by simp at hi; omega]

/-- The suffix of a split of `kl` bits at `sp` holds bits `sp` to `kl`. -/
theorem take_bits_splitSuffix (k : Key) {sp kl : ℕ} (h : kl ≤ k.bits.length) :
    (ofBytes (splitSuffix k.bytes sp kl)).bits.take (kl - sp) = (k.bits.take kl).drop sp := by
  rw [length_bits] at h
  have hlen : kl - sp ≤ 8 * toBytes (kl - sp) := by
    rw [toBytes_eq]
    omega
  apply List.ext_getElem (by simp; omega)
  intro i hi _
  simp only [List.getElem_take, List.getElem_drop, bits, getElem_bitString, bytes_ofBytes,
    bitAt_splitSuffix]
  simp only [List.length_take] at hi
  simp [show i < 8 * toBytes (kl - sp) by rw [toBytes_eq]; omega]

/-- Bit `i` of the suffix of a whole key split at `sp` is the key's bit `sp + i`. -/
theorem getElem?_bits_splitSuffix (k : Key) {sp i : ℕ} (hi : i < k.bits.length - sp) :
    (ofBytes (splitSuffix k.bytes sp k.bits.length)).bits[i]? = k.bits[sp + i]? := by
  rw [← List.getElem?_take_of_lt hi, take_bits_splitSuffix k le_rfl, List.take_length,
    List.getElem?_drop]

theorem isLabel_splitPrefix (k : List UInt8) (sp : ℕ) : (ofBytes (splitPrefix k sp)).IsLabel sp :=
  ⟨length_splitPrefix k sp, fun i hi => by simp [bitAt_splitPrefix, show ¬ i < sp by omega]⟩

/-- The suffix of a split is a label when the bits of the split key past `kl` are zero, as
the bits of a whole key and of a label are. -/
theorem isLabel_splitSuffix {k : List UInt8} {kl : ℕ} (sp : ℕ)
    (hpad : ∀ i, kl ≤ i → bitAt k i = false) : (ofBytes (splitSuffix k sp kl)).IsLabel (kl - sp) :=
  ⟨length_splitSuffix k sp kl, fun i hi => by simp [bitAt_splitSuffix, hpad (sp + i) (by omega)]⟩

theorem bitAt_eq_false_of_bits_length_le {k : Key} {i : ℕ} (h : k.bits.length ≤ i) :
    bitAt k.bytes i = false :=
  bitAt_of_length_le (by simpa using h)

/-- A merge of two labels holds the bits of the first, then the bits of the second. -/
theorem take_bits_merge {k k2 m : Key} {kl k2l : ℕ} (hk : k.IsLabel kl) (hk2 : k2.IsLabel k2l)
    (hm : m.IsLabel (kl + k2l))
    (hbits : ∀ i, bitAt m.bytes i = if i < kl then bitAt k.bytes i else bitAt k2.bytes (i - kl)) :
    m.bits.take (kl + k2l) = k.bits.take kl ++ k2.bits.take k2l := by
  have h1 := hk.le_length_bits
  have h2 := hk2.le_length_bits
  have h3 := hm.le_length_bits
  rw [length_bits] at h1 h2 h3
  apply List.ext_getElem (by simp; omega)
  intro i hi _
  simp only [List.length_take, length_bits] at hi
  rw [List.getElem_take, List.getElem_append]
  split
  · rename_i hik
    simp only [List.length_take, length_bits] at hik
    simp [bits, hbits, show i < kl by omega]
  · rename_i hik
    simp only [List.length_take, length_bits] at hik
    simp [bits, hbits, show ¬ i < kl by omega, show min kl (8 * k.bytes.length) = kl by omega]

/-- A merge of two well-formed labels that fit in `MaxDepth` bits is a label holding the
first label's bits and then the second's. -/
theorem merge_spec {k k2 m : Key} {kl k2l : ℕ} (hk : k.IsLabel kl) (hk2 : k2.IsLabel k2l)
    (hmax : kl + k2l ≤ maxDepth) (h : k.merge kl k2 k2l = .ok m) :
    m.IsLabel (kl + k2l) ∧ m.bits.take (kl + k2l) = k.bits.take kl ++ k2.bits.take k2l := by
  obtain ⟨m', hm', hlabel, hbits⟩ := merge_eq_ok hk hk2 hmax
  rw [hm'] at h
  cases h
  exact ⟨hlabel, take_bits_merge hk hk2 hlabel hbits⟩

/-! ## Splits and merges of labels -/

/-- `GetBit` panics exactly at the bit just past the key: there `ToBytes` of the bit is
the key's length, so the check passes, and the byte read is past the end. -/
theorem getBit_eq_panic_iff {k : Key} {bit : ℕ} :
    k.getBit bit = .error .panic ↔ bit = 8 * k.bytes.length := by
  have hb := toBytes_eq bit
  rw [getBit]
  split
  · simp only [Except.error.injEq, reduceCtorEq, false_iff]
    omega
  · split
    · rename_i b hsome
      have := (List.getElem?_eq_some_iff.mp hsome).1
      simp only [reduceCtorEq, false_iff]
      omega
    · rename_i hnone
      have := List.getElem?_eq_none_iff.mp hnone
      simp only [true_iff]
      omega

/-- `SetBit` panics exactly where `GetBit` does. -/
theorem setBit_eq_panic_iff {k : Key} {bit : ℕ} {val : Bool} :
    k.setBit bit val = .error .panic ↔ bit = 8 * k.bytes.length := by
  have hb := toBytes_eq bit
  rw [setBit]
  split
  · simp only [Except.error.injEq, reduceCtorEq, false_iff]
    omega
  · split
    · simp only [reduceCtorEq, false_iff]
      omega
    · simp only [true_iff]
      omega

/-- `AppendBit` panics exactly when the key has more bytes than the bits it is given
need. -/
theorem appendBit_eq_panic_iff {k : Key} {keyLen : ℕ} {val : Bool} :
    k.appendBit keyLen val = .error .panic ↔ keyLen ≠ maxDepth ∧ toBytes (keyLen + 1) < k.bytes.length := by
  rw [appendBit]
  split
  · rename_i h
    simp [h]
  · rename_i h
    split
    · rename_i hlen
      simp only [true_iff]
      exact ⟨h, hlen⟩
    · rename_i hlen
      simp only [reduceCtorEq, false_iff, not_and]
      intro _
      exact hlen

/-- The key helpers index out of range: `GetBit` and `SetBit` at the bit just past every
key, `Merge` when the second key has more bytes than its bit length needs, and
`AppendBit` when the key has more bytes than its bit length needs. -/
theorem keyHelpers_index_out_of_range :
    (∀ (k : Key) (bit : ℕ), k.getBit bit = .error .panic ↔ bit = 8 * k.bytes.length) ∧
    (∀ (k : Key) (bit : ℕ) (val : Bool), k.setBit bit val = .error .panic ↔ bit = 8 * k.bytes.length) ∧
    (ofBytes [0]).merge 1 (ofBytes [0, 0]) 0 = .error .panic ∧
    (ofBytes [0, 0]).appendBit 0 true = .error .panic :=
  ⟨fun _ _ => getBit_eq_panic_iff, fun _ _ _ => setBit_eq_panic_iff, rfl,
    appendBit_eq_panic_iff.mpr ⟨by decide, by decide⟩⟩

end Key

end Mkvs

end OasisCore
