import Mathlib.Data.List.TakeWhile
import Mathlib.Tactic.IntervalCases

/-!
# Byte strings as bit strings

A byte string read as a string of bits, the most significant bit of each byte
first, the way bit-addressed tries and radix trees address their keys. `bitAt k i`
is bit `i` of `k`, false past its end, and `bitString k` lists its `8 * k.length`
bits; a byte string is determined by its bits (`bitString_injective`).

The byte operations that move bits around are stated bit by bit: `or`, `and`,
`xor`, and the shifts `shl` and `shr`, which follow Go's semantics for a byte
(a shift by 8 or more gives zero, where `UInt8`'s own shifts take the amount
modulo 8). Building a byte string byte by byte, copying a prefix, and or-ing
into one byte each have their `bitAt` lemma.

`prefixLength` counts the leading positions where two lists agree. On byte
strings it is the bytewise scan of a common-prefix computation, on bit strings
the common prefix itself; `prefixLength_bitString` says how the scan and a
count of leading zeros of the first differing byte give the second.
-/

namespace OasisCore

namespace Bits

/-! ## Bits of a byte -/

/-- Bit `j` of a byte, bit 0 the most significant; false from bit 8 on. -/
def byteBit (b : UInt8) (j : ℕ) : Bool :=
  b.toBitVec.getMsbD j

theorem byteBit_of_le {b : UInt8} {j : ℕ} (h : 8 ≤ j) : byteBit b j = false := by
  simp [byteBit, BitVec.getMsbD, show ¬ j < 8 by omega]

@[simp] theorem byteBit_zero (j : ℕ) : byteBit 0 j = false := by
  simp [byteBit]

theorem byteBit_one (j : ℕ) : byteBit 1 j = decide (j = 7) := by
  by_cases hj : j < 8
  · interval_cases j <;> rfl
  · rw [byteBit_of_le (Nat.le_of_not_lt hj)]
    simp only [false_eq_decide_iff]
    omega

theorem byteBit_ff (j : ℕ) : byteBit 0xff j = decide (j < 8) := by
  by_cases hj : j < 8
  · interval_cases j <;> rfl
  · rw [byteBit_of_le (Nat.le_of_not_lt hj)]
    simp [hj]

@[simp] theorem byteBit_or (a b : UInt8) (j : ℕ) :
    byteBit (a ||| b) j = (byteBit a j || byteBit b j) := by
  simp [byteBit]

@[simp] theorem byteBit_and (a b : UInt8) (j : ℕ) :
    byteBit (a &&& b) j = (byteBit a j && byteBit b j) := by
  simp [byteBit]

@[simp] theorem byteBit_xor (a b : UInt8) (j : ℕ) :
    byteBit (a ^^^ b) j = (byteBit a j ^^ byteBit b j) := by
  simp [byteBit]

/-- A byte is determined by its eight bits. -/
theorem byte_ext {a b : UInt8} (h : ∀ j < 8, byteBit a j = byteBit b j) : a = b :=
  UInt8.toBitVec_inj.mp (BitVec.eq_of_getMsbD_eq h)

theorem eq_zero_iff_byteBit {x : UInt8} : x = 0 ↔ ∀ j < 8, byteBit x j = false := by
  constructor
  · rintro rfl j _
    exact byteBit_zero j
  · intro h
    exact byte_ext fun j hj => by rw [h j hj, byteBit_zero]

/-! ## Shifts with Go's semantics -/

/-- A byte shifted left by `s`, zero once `s` reaches 8 (Go's `b << s`). -/
def shl (b : UInt8) (s : ℕ) : UInt8 :=
  if s < 8 then b <<< s.toUInt8 else 0

/-- A byte shifted right by `s`, zero once `s` reaches 8 (Go's `b >> s`). -/
def shr (b : UInt8) (s : ℕ) : UInt8 :=
  if s < 8 then b >>> s.toUInt8 else 0

theorem toNat_toBitVec_toUInt8_mod {s : ℕ} (hs : s < 8) : (s.toUInt8.toBitVec % 8).toNat = s := by
  simp [BitVec.toNat_umod, Nat.toUInt8]
  omega

@[simp] theorem byteBit_shl (b : UInt8) (s j : ℕ) : byteBit (shl b s) j = byteBit b (j + s) := by
  unfold shl
  split
  · rename_i hs
    rw [byteBit, UInt8.toBitVec_shiftLeft, BitVec.shiftLeft_eq', toNat_toBitVec_toUInt8_mod hs,
      BitVec.getMsbD_shiftLeft]
    rfl
  · rw [byteBit_of_le (show 8 ≤ j + s by omega)]
    simp [byteBit]

@[simp] theorem byteBit_shr (b : UInt8) (s j : ℕ) :
    byteBit (shr b s) j = (decide (j < 8) && decide (s ≤ j) && byteBit b (j - s)) := by
  unfold shr
  split
  · rename_i hs
    rw [byteBit, UInt8.toBitVec_shiftRight, BitVec.ushiftRight_eq', toNat_toBitVec_toUInt8_mod hs,
      BitVec.getMsbD_ushiftRight]
    by_cases hsj : s ≤ j
    · simp [hsj, byteBit, Nat.not_lt.mpr hsj]
    · simp [hsj, Nat.lt_of_not_le hsj]
  · by_cases hj : j < 8
    · simp [byteBit, hj, show ¬ s ≤ j by omega]
    · simp [byteBit, hj]

/-- Testing one bit with a one-bit mask, `b & (1 << (7 - j)) != 0`, reads bit `j`. -/
theorem and_shl_one_ne_zero (b : UInt8) {j : ℕ} (hj : j < 8) :
    ((b &&& shl 1 (7 - j)) != 0) = byteBit b j := by
  have hbits : ∀ i < 8, byteBit (b &&& shl 1 (7 - j)) i = (byteBit b i && decide (i = j)) := by
    intro i hi
    rw [byteBit_and, byteBit_shl, byteBit_one]
    congr 1
    exact decide_eq_decide.mpr (by omega)
  cases hb : byteBit b j
  · simp only [bne_eq_false_iff_eq]
    apply eq_zero_iff_byteBit.mpr
    intro i hi
    rw [hbits i hi]
    by_cases hij : i = j
    · simp [hij, hb]
    · simp [hij]
  · simp only [bne_iff_ne, ne_eq]
    intro h0
    have := eq_zero_iff_byteBit.mp h0 j hj
    rw [hbits j hj, hb] at this
    simp at this

/-! ## Bits of a byte string -/

/-- Bit `i` of a byte string, false past its end. -/
def bitAt (k : List UInt8) (i : ℕ) : Bool :=
  byteBit (k.getD (i / 8) 0) (i % 8)

theorem bitAt_of_length_le {k : List UInt8} {i : ℕ} (h : 8 * k.length ≤ i) : bitAt k i = false := by
  have : k.length ≤ i / 8 := by omega
  simp [bitAt, List.getElem?_eq_none this]

theorem bitAt_cons (b : UInt8) (k : List UInt8) (i : ℕ) :
    bitAt (b :: k) i = if i < 8 then byteBit b i else bitAt k (i - 8) := by
  split
  · rename_i hi
    simp [bitAt, Nat.div_eq_of_lt hi, Nat.mod_eq_of_lt hi]
  · rename_i hi
    have hdiv : i / 8 = (i - 8) / 8 + 1 := by omega
    have hmod : i % 8 = (i - 8) % 8 := by omega
    simp [bitAt, hdiv, hmod]

/-- A byte of a byte string, read through its bits. -/
theorem byteBit_getD (k : List UInt8) (m j : ℕ) (hj : j < 8) :
    byteBit (k.getD m 0) j = bitAt k (8 * m + j) := by
  have hdiv : (8 * m + j) / 8 = m := by omega
  have hmod : (8 * m + j) % 8 = j := by omega
  rw [bitAt, hdiv, hmod]

/-- The first `n` bytes of a byte string padded with zero bytes, as `make` and `copy` build
it. -/
theorem bitAt_take_append_replicate (k : List UInt8) (n m i : ℕ) :
    bitAt (k.take n ++ List.replicate m 0) i = (decide (i < 8 * n) && bitAt k i) := by
  by_cases hi : i < 8 * n
  · have hn : i / 8 < n := by omega
    by_cases hk : i / 8 < k.length
    · have hlt : i / 8 < (k.take n).length := by simp; omega
      simp [bitAt, hi, List.getElem?_append_left hlt, List.getElem?_take_of_lt hn]
    · rw [bitAt_of_length_le (k := k) (by omega)]
      have hge : (k.take n).length ≤ i / 8 := by simp; omega
      simp [bitAt, List.getElem?_append_right hge, List.getElem?_replicate]
      split <;> simp
  · have hge : (k.take n).length ≤ i / 8 := by simp; omega
    simp [bitAt, hi, List.getElem?_append_right hge, List.getElem?_replicate]
    split <;> simp

/-- A byte string built byte by byte from its indices. -/
theorem bitAt_map_range (f : ℕ → UInt8) (n i : ℕ) :
    bitAt ((List.range n).map f) i = (decide (i / 8 < n) && byteBit (f (i / 8)) (i % 8)) := by
  by_cases hi : i / 8 < n
  · simp [bitAt, hi]
  · simp [bitAt, hi]

/-- Rewriting byte `m` of a byte string, which does nothing past its end. -/
theorem bitAt_modify (k : List UInt8) (m : ℕ) (f : UInt8 → UInt8) (i : ℕ) :
    bitAt (k.modify m f) i =
      if i / 8 = m ∧ m < k.length then byteBit (f (k.getD m 0)) (i % 8) else bitAt k i := by
  by_cases him : i / 8 = m
  · subst him
    by_cases hk : i / 8 < k.length
    · simp [bitAt, hk]
    · simp [bitAt, hk]
  · simp [bitAt, him, List.getElem?_modify_ne _ _ (Ne.symm him)]

/-- Or-ing a byte into byte `m` of a byte string. -/
theorem bitAt_modify_or (k : List UInt8) (m : ℕ) (b : UInt8) (i : ℕ) :
    bitAt (k.modify m (· ||| b)) i =
      (bitAt k i || (decide (i / 8 = m) && decide (m < k.length) && byteBit b (i % 8))) := by
  rw [bitAt_modify]
  by_cases h : i / 8 = m ∧ m < k.length
  · obtain ⟨rfl, hk⟩ := h
    simp [bitAt, hk]
  · rw [if_neg h]
    by_cases him : i / 8 = m
    · simp [him, show ¬ m < k.length from fun hk => h ⟨him, hk⟩]
    · simp [him]

/-- The bits of one byte, most significant first. -/
def byteBits (b : UInt8) : List Bool :=
  (List.range 8).map (byteBit b)

/-- The bits of a byte string. -/
def bitString (k : List UInt8) : List Bool :=
  k.flatMap byteBits

@[simp] theorem bitString_nil : bitString [] = [] := rfl

@[simp] theorem bitString_cons (b : UInt8) (k : List UInt8) :
    bitString (b :: k) = byteBits b ++ bitString k := rfl

@[simp] theorem length_byteBits (b : UInt8) : (byteBits b).length = 8 := by
  simp [byteBits]

@[simp] theorem length_bitString (k : List UInt8) : (bitString k).length = 8 * k.length := by
  induction k with
  | nil => rfl
  | cons b k ih =>
    simp only [bitString_cons, List.length_append, length_byteBits, ih, List.length_cons]
    omega

@[simp] theorem getElem_bitString {k : List UInt8} {i : ℕ} (h : i < (bitString k).length) :
    (bitString k)[i] = bitAt k i := by
  induction k generalizing i with
  | nil => simp at h
  | cons b k ih =>
    simp only [bitString_cons, List.getElem_append, length_byteBits, bitAt_cons]
    split
    · simp [byteBits]
    · simp [ih]

theorem getElem?_bitString (k : List UInt8) (i : ℕ) :
    (bitString k)[i]? = if i < 8 * k.length then some (bitAt k i) else none := by
  split
  · rename_i hi
    rw [List.getElem?_eq_getElem (by simpa using hi), getElem_bitString]
  · rename_i hi
    exact List.getElem?_eq_none (by simp; omega)

/-- Two byte strings of one length with the same bits are equal. -/
theorem ext_bitAt {k k' : List UInt8} (hlen : k.length = k'.length)
    (h : ∀ i, bitAt k i = bitAt k' i) : k = k' := by
  apply List.ext_getElem hlen
  intro m hm hm'
  apply byte_ext
  intro j hj
  have := h (8 * m + j)
  rw [← byteBit_getD _ _ _ hj, ← byteBit_getD _ _ _ hj] at this
  simpa [List.getElem?_eq_getElem hm, List.getElem?_eq_getElem hm'] using this

theorem bitString_injective {k k' : List UInt8} (h : bitString k = bitString k') : k = k' := by
  have hlen : k.length = k'.length := by
    have := congrArg List.length h
    simp only [length_bitString] at this
    omega
  apply ext_bitAt hlen
  intro i
  by_cases hi : i < 8 * k.length
  · have := congrArg (·[i]?) h
    simp only [getElem?_bitString, hi, if_true, ← hlen] at this
    simpa using this
  · rw [bitAt_of_length_le (by omega), bitAt_of_length_le (by omega)]

theorem byteBits_injective {a b : UInt8} (h : byteBits a = byteBits b) : a = b := by
  have : bitString [a] = bitString [b] := by simp [h]
  simpa using bitString_injective this

/-! ## Common prefixes -/

/-- A list that extends `l₁` agrees with it on `l₁`'s positions. -/
theorem getElem?_of_isPrefix {α : Type} {l₁ l₂ : List α} (h : l₁ <+: l₂) {i : ℕ}
    (hi : i < l₁.length) : l₂[i]? = l₁[i]? := by
  rw [List.prefix_iff_getElem?.mp h i hi, List.getElem?_eq_getElem hi]

variable {α : Type} [DecidableEq α]

/-- The number of leading positions where two lists agree. -/
def prefixLength (l₁ l₂ : List α) : ℕ :=
  ((l₁.zip l₂).takeWhile fun p => decide (p.1 = p.2)).length

@[simp] theorem prefixLength_nil_left (l : List α) : prefixLength [] l = 0 := rfl

@[simp] theorem prefixLength_nil_right (l : List α) : prefixLength l [] = 0 := by
  simp [prefixLength]

@[simp] theorem prefixLength_cons_cons (a b : α) (l₁ l₂ : List α) :
    prefixLength (a :: l₁) (b :: l₂) = if a = b then prefixLength l₁ l₂ + 1 else 0 := by
  by_cases h : a = b <;> simp [prefixLength, h]

/-- `prefixLength` is the longest length on which both lists have the same prefix. -/
theorem le_prefixLength_iff {l₁ l₂ : List α} {n : ℕ} :
    n ≤ prefixLength l₁ l₂ ↔ n ≤ l₁.length ∧ n ≤ l₂.length ∧ l₁.take n = l₂.take n := by
  induction l₁ generalizing l₂ n with
  | nil => simp +contextual
  | cons a l₁ ih =>
    cases l₂ with
    | nil => simp +contextual
    | cons b l₂ =>
      cases n with
      | zero => simp
      | succ n =>
        by_cases hab : a = b
        · subst hab
          simp [ih]
        · simp [hab]

theorem prefixLength_le_left (l₁ l₂ : List α) : prefixLength l₁ l₂ ≤ l₁.length :=
  (List.takeWhile_sublist _).length_le.trans (by rw [List.length_zip]; exact min_le_left _ _)

theorem prefixLength_le_right (l₁ l₂ : List α) : prefixLength l₁ l₂ ≤ l₂.length :=
  (List.takeWhile_sublist _).length_le.trans (by rw [List.length_zip]; exact min_le_right _ _)

theorem take_prefixLength (l₁ l₂ : List α) :
    l₁.take (prefixLength l₁ l₂) = l₂.take (prefixLength l₁ l₂) :=
  (le_prefixLength_iff.mp le_rfl).2.2

/-- Past the common prefix, inside both lists, the lists differ. -/
theorem getElem_ne_of_prefixLength {l₁ l₂ : List α} (h₁ : prefixLength l₁ l₂ < l₁.length)
    (h₂ : prefixLength l₁ l₂ < l₂.length) :
    l₁[prefixLength l₁ l₂] ≠ l₂[prefixLength l₁ l₂] := by
  intro heq
  have hsucc : prefixLength l₁ l₂ + 1 ≤ prefixLength l₁ l₂ := by
    rw [le_prefixLength_iff]
    refine ⟨h₁, h₂, ?_⟩
    rw [List.take_succ_eq_append_getElem h₁, List.take_succ_eq_append_getElem h₂,
      take_prefixLength, heq]
  omega

theorem prefixLength_eq_length_iff {l₁ l₂ : List α} :
    prefixLength l₁ l₂ = l₁.length ↔ l₁ <+: l₂ := by
  constructor
  · intro h
    have htake := take_prefixLength l₁ l₂
    rw [h, List.take_length] at htake
    rw [htake]
    exact List.take_prefix _ _
  · intro h
    apply le_antisymm (prefixLength_le_left _ _)
    rw [le_prefixLength_iff]
    refine ⟨le_rfl, h.length_le, ?_⟩
    rw [List.take_length, List.prefix_iff_eq_take.mp h]
    simp

/-- The common prefix of two lists is a common prefix of the lists taken the other way round. -/
theorem prefixLength_le_swap (l₁ l₂ : List α) : prefixLength l₁ l₂ ≤ prefixLength l₂ l₁ := by
  rw [le_prefixLength_iff]
  exact ⟨prefixLength_le_right _ _, prefixLength_le_left _ _, (take_prefixLength _ _).symm⟩

theorem prefixLength_comm (l₁ l₂ : List α) : prefixLength l₁ l₂ = prefixLength l₂ l₁ :=
  le_antisymm (prefixLength_le_swap _ _) (prefixLength_le_swap _ _)

theorem prefixLength_append_self (a l₁ l₂ : List α) :
    prefixLength (a ++ l₁) (a ++ l₂) = a.length + prefixLength l₁ l₂ := by
  induction a with
  | nil => simp
  | cons x a ih =>
    simp only [List.cons_append, prefixLength_cons_cons, if_true, ih, List.length_cons]
    omega

theorem prefixLength_append_of_ne {a b : List α} (l₁ l₂ : List α) (hlen : a.length = b.length)
    (hne : a ≠ b) : prefixLength (a ++ l₁) (b ++ l₂) = prefixLength a b := by
  induction a generalizing b with
  | nil => cases b <;> simp_all
  | cons x a ih =>
    cases b with
    | nil => simp at hlen
    | cons y b =>
      by_cases hxy : x = y
      · subst hxy
        simp only [List.cons_append, prefixLength_cons_cons, if_true]
        rw [ih (by simpa using hlen) (by simpa using hne)]
      · simp [hxy]

/-- A common prefix of two truncated lists is cut by both truncations. -/
theorem prefixLength_take (l₁ l₂ : List α) (m n : ℕ) :
    prefixLength (l₁.take m) (l₂.take n) = min (prefixLength l₁ l₂) (min m n) := by
  induction l₁ generalizing l₂ m n with
  | nil => simp
  | cons a l₁ ih =>
    cases l₂ with
    | nil => simp
    | cons b l₂ =>
      cases m with
      | zero => simp
      | succ m =>
        cases n with
        | zero => simp
        | succ n =>
          by_cases hab : a = b
          · simp [hab, ih]
          · simp [hab]

theorem prefixLength_map_map {β : Type} (f g : β → α) (l : List β) :
    prefixLength (l.map f) (l.map g) = (l.takeWhile fun x => decide (f x = g x)).length := by
  induction l with
  | nil => rfl
  | cons x l ih =>
    by_cases h : f x = g x
    · simp only [List.map_cons, prefixLength_cons_cons, h, if_true, ih, List.takeWhile_cons,
        decide_true, List.length_cons]
    · simp [h]

/-! ## The bytewise common-prefix scan -/

/-- The number of leading zero bits of a byte (Go's `bits.LeadingZeros8`). -/
def leadingZeros8 (x : UInt8) : ℕ :=
  ((List.range 8).takeWhile fun j => !byteBit x j).length

/-- The leading zeros of `a ^ b` are the bits on which `a` and `b` agree before they first
differ. -/
theorem leadingZeros8_xor (a b : UInt8) :
    leadingZeros8 (a ^^^ b) = prefixLength (byteBits a) (byteBits b) := by
  rw [byteBits, byteBits, prefixLength_map_map, leadingZeros8]
  congr 2
  funext j
  cases ha : byteBit a j <;> cases hb : byteBit b j <;> simp [ha, hb]

/-- The common bit prefix of two byte strings: the bits of the common byte prefix, and the
leading zeros of the xor of the first bytes that differ, if both strings go on. -/
theorem prefixLength_bitString (k k₂ : List UInt8) :
    prefixLength (bitString k) (bitString k₂) =
      8 * prefixLength k k₂ +
        if prefixLength k k₂ ≠ k.length ∧ prefixLength k k₂ ≠ k₂.length then
          leadingZeros8 (k.getD (prefixLength k k₂) 0 ^^^ k₂.getD (prefixLength k k₂) 0)
        else 0 := by
  induction k generalizing k₂ with
  | nil => simp
  | cons a k ih =>
    cases k₂ with
    | nil => simp
    | cons b k₂ =>
      by_cases hab : a = b
      · subst hab
        simp only [bitString_cons, prefixLength_append_self, length_byteBits, ih,
          prefixLength_cons_cons, if_true, List.length_cons, ne_eq, Nat.add_right_cancel_iff,
          List.getD_cons_succ]
        omega
      · have hbits : byteBits a ≠ byteBits b := fun h => hab (byteBits_injective h)
        simp [prefixLength_append_of_ne _ _ (by simp) hbits, hab, leadingZeros8_xor]

end Bits

end OasisCore
