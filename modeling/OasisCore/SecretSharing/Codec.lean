import Mathlib.Algebra.Field.ZMod
import OasisCore.Misc.Bytes
import OasisCore.Misc.List
import OasisCore.SecretSharing.Vss

/-!
# Byte encodings of polynomials and verification matrices

`to_bytes` and `from_bytes` of `Polynomial` (`poly/univariate.rs`), of
`BivariatePolynomial` (`poly/bivariate.rs`) and of `VerificationMatrix`
(`vss/matrix.rs`): the coefficients or the elements one after the other, row by row,
after a header of two bytes for the bivariate polynomial and the matrix, which hold the
degrees as `u8`.

A field element is written by `PrimeField::to_repr` and read by `from_repr`, a group
element by the methods of `GroupEncoding`. `FieldRepr` and `GroupRepr` hold those
methods with the laws the traits state: a representation has a fixed size, the
`coefficient_byte_size` computed from `NUM_BITS` for a field, and reading what was
written gives the element back. The copy of a chunk into a representation therefore
always fits.

`BivariatePolynomial::with_coefficients` panics on rows of different lengths; `from_bytes`
never gives it such rows. Rust computes `rows - 1` of a matrix in `usize`, 64 bits here,
which wraps in release builds.
-/

namespace OasisCore

namespace SecretSharing

open Bytes

/-- The methods of `PrimeField` that encode an element, with their laws. -/
structure FieldRepr (F : Type) where
  numBits : ℕ
  toRepr : F → List UInt8
  fromRepr : List UInt8 → Option F
  numBits_pos : 0 < numBits
  length_toRepr : ∀ x, (toRepr x).length = (numBits + 7) / 8
  fromRepr_toRepr : ∀ x, fromRepr (toRepr x) = some x

/-- The methods of `GroupEncoding`, with their laws; `size` is the length of `G::Repr`. -/
structure GroupRepr (G : Type) where
  size : ℕ
  toBytes : G → List UInt8
  fromBytes : List UInt8 → Option G
  size_pos : 0 < size
  length_toBytes : ∀ g, (toBytes g).length = size
  fromBytes_toBytes : ∀ g, fromBytes (toBytes g) = some g

variable {F G : Type} (enc : FieldRepr F) (genc : GroupRepr G)

namespace FieldRepr

/-- `coefficient_byte_size` (`univariate.rs:150-153`, `bivariate.rs:172-175`); the
saturating add of `u32` never saturates for a field of fewer than `2^32 - 8` bits. -/
def coefficientByteSize : ℕ :=
  (enc.numBits + 7) / 8

theorem coefficientByteSize_pos : 0 < enc.coefficientByteSize := by
  have := enc.numBits_pos
  rw [coefficientByteSize]
  omega

end FieldRepr

variable [Field F]

/-- The loop of `from_bytes` over the chunks of coefficients: each `from_repr`, zero for
one that fails, and whether one failed. -/
def decodeCoefficients (cs : List (List UInt8)) : List F × Bool :=
  (cs.map fun c => (enc.fromRepr c).getD 0, cs.any fun c => (enc.fromRepr c).isNone)

namespace Polynomial

/-- `Polynomial::to_bytes` (`univariate.rs:101-110`). -/
def toBytes (p : Polynomial F) : List UInt8 :=
  (p.a.map enc.toRepr).flatten

/-- `Polynomial::from_bytes` (`univariate.rs:112-148`). -/
def fromBytes (bytes : List UInt8) : Option (Polynomial F) :=
  let coefficientSize := enc.coefficientByteSize
  if bytes = [] ∨ bytes.length % coefficientSize ≠ 0 then none
  else
    let (a, failed) := decodeCoefficients enc (chunks coefficientSize bytes)
    if failed then none else some (withCoefficients a)

end Polynomial

namespace BivariatePolynomial

/-- `BivariatePolynomial::to_bytes` (`bivariate.rs:113-124`). -/
def toBytes (B : BivariatePolynomial F) : List UInt8 :=
  UInt8.ofNat B.degX :: UInt8.ofNat B.degY :: (B.b.map fun bi => (bi.map enc.toRepr).flatten).flatten

/-- `BivariatePolynomial::byte_size` (`bivariate.rs:177-180`). -/
def byteSize (degX degY : ℕ) : ℕ :=
  2 + (degX + 1) * (degY + 1) * enc.coefficientByteSize

/-- `BivariatePolynomial::from_bytes` (`bivariate.rs:126-170`). -/
def fromBytes (bytes : List UInt8) : Except String (Option (BivariatePolynomial F)) :=
  match bytes with
  | degX :: degY :: body =>
    if bytes.length ≠ byteSize enc degX.toNat degY.toNat then pure none
    else
      let rows := (chunks (enc.coefficientByteSize * (degY.toNat + 1)) body).map fun row =>
        decodeCoefficients enc (chunks enc.coefficientByteSize row)
      do
        let bp ← withCoefficients (rows.map (·.1))
        pure (if rows.any (·.2) then none else some bp)
  | _ => pure none

end BivariatePolynomial

namespace VerificationMatrix

/-- `VerificationMatrix::to_bytes` (`matrix.rs:211-225`). -/
def toBytes (M : VerificationMatrix G) : List UInt8 :=
  (M.rows.toUInt64 - 1).toUInt8 :: (M.cols.toUInt64 - 1).toUInt8 ::
    (M.m.map fun mi => (mi.map genc.toBytes).flatten).flatten

/-- `VerificationMatrix::byte_size` (`matrix.rs:276-279`). -/
def byteSize (rows cols : ℕ) : ℕ :=
  2 + rows * cols * genc.size

/-- `VerificationMatrix::from_bytes` (`matrix.rs:227-268`): the first element that does
not decode ends it. The last test carries the shape that the length test implies into
the structure; it never fails (`shape_of_length`). -/
def fromBytes (bytes : List UInt8) : Option (VerificationMatrix G) :=
  match bytes with
  | degX :: degY :: body =>
    let rows := degX.toNat + 1
    let cols := degY.toNat + 1
    if bytes.length ≠ byteSize genc rows cols then none
    else do
      let m ← (chunks (genc.size * cols) body).mapM fun row => (chunks genc.size row).mapM genc.fromBytes
      if h : m.length = rows ∧ ∀ mi ∈ m, mi.length = cols then some ⟨rows, cols, m, h.1, h.2⟩
      else none
  | _ => none

end VerificationMatrix

/-! ## Round trips -/

omit [Field F] in
theorem length_flatten_toRepr (a : List F) :
    (a.map enc.toRepr).flatten.length = enc.coefficientByteSize * a.length := by
  rw [length_flatten_of_length fun c hc => ?_, List.length_map]
  obtain ⟨x, -, rfl⟩ := List.mem_map.mp hc
  exact enc.length_toRepr x

omit [Field F] in
theorem chunks_flatten_toRepr (a : List F) :
    chunks enc.coefficientByteSize (a.map enc.toRepr).flatten = a.map enc.toRepr := by
  refine chunks_flatten enc.coefficientByteSize_pos fun c hc => ?_
  obtain ⟨x, -, rfl⟩ := List.mem_map.mp hc
  exact enc.length_toRepr x

theorem decodeCoefficients_map_toRepr (a : List F) :
    decodeCoefficients enc (a.map enc.toRepr) = (a, false) := by
  simp [decodeCoefficients, Function.comp_def, enc.fromRepr_toRepr]

theorem Polynomial.fromBytes_toBytes (p : Polynomial F) : Polynomial.fromBytes enc (p.toBytes enc) = some p := by
  have hlen := length_flatten_toRepr enc p.a
  have hne : p.toBytes enc ≠ [] := by
    rw [← List.length_pos_iff, Polynomial.toBytes, hlen]
    exact Nat.mul_pos enc.coefficientByteSize_pos p.size_pos
  have hmod : (p.toBytes enc).length % enc.coefficientByteSize = 0 := by
    rw [Polynomial.toBytes, hlen]
    exact Nat.mul_mod_right _ _
  rw [Polynomial.fromBytes, if_neg (by simp [hne, hmod]), Polynomial.toBytes, chunks_flatten_toRepr,
    decodeCoefficients_map_toRepr]
  exact congrArg some (Polynomial.ext_a (Polynomial.withCoefficients_a p.a_ne_nil))

theorem Polynomial.fromBytes_eq_none {bytes : List UInt8}
    (h : bytes = [] ∨ bytes.length % enc.coefficientByteSize ≠ 0) : Polynomial.fromBytes enc bytes = none := by
  rw [Polynomial.fromBytes, if_pos h]

namespace BivariatePolynomial

theorem withCoefficients_b (B : BivariatePolynomial F) : withCoefficients B.b = .ok B := by
  have hlen := B.length_b
  match hb : B.b, hlen with
  | b0 :: rest, hlen =>
    have hrows : ∀ bi ∈ b0 :: rest, bi.length = b0.length ∧ bi ≠ [] := by
      intro bi hbi
      rw [← hb] at hbi
      have h0 := B.length_bi b0 (hb ▸ List.mem_cons_self)
      refine ⟨by rw [B.length_bi bi hbi, h0], ?_⟩
      rw [← List.length_pos_iff, B.length_bi bi hbi]
      omega
    rw [withCoefficients, dif_pos hrows]
    refine congrArg Except.ok (ext ?_ ?_ hb.symm)
    · show rest.length = B.degX
      simp only [List.length_cons] at hlen
      exact Nat.succ_injective hlen
    · show b0.length - 1 = B.degY
      rw [B.length_bi b0 (hb ▸ List.mem_cons_self)]
      rfl

omit [Field F] in
theorem length_row_bytes {bi : List F} {n : ℕ} (h : bi.length = n) :
    ((bi.map enc.toRepr).flatten).length = enc.coefficientByteSize * n := by
  rw [length_flatten_toRepr, h]

theorem fromBytes_toBytes {B : BivariatePolynomial F} (hx : B.degX ≤ 255) (hy : B.degY ≤ 255) :
    fromBytes enc (B.toBytes enc) = .ok (some B) := by
  have hcs := enc.coefficientByteSize_pos
  have hdx : (UInt8.ofNat B.degX).toNat = B.degX := by rw [UInt8.toNat_ofNat']; omega
  have hdy : (UInt8.ofNat B.degY).toNat = B.degY := by rw [UInt8.toNat_ofNat']; omega
  have hrowlen : ∀ c ∈ B.b.map fun bi => (bi.map enc.toRepr).flatten,
      c.length = enc.coefficientByteSize * (B.degY + 1) := by
    intro c hc
    obtain ⟨bi, hbi, rfl⟩ := List.mem_map.mp hc
    exact length_row_bytes enc (B.length_bi bi hbi)
  have hbody := length_flatten_of_length hrowlen
  rw [List.length_map, B.length_b] at hbody
  have hsize : (B.toBytes enc).length = byteSize enc B.degX B.degY := by
    rw [toBytes, List.length_cons, List.length_cons, hbody, byteSize]
    ring
  have hrows : ((chunks (enc.coefficientByteSize * (B.degY + 1))
      (B.b.map fun bi => (bi.map enc.toRepr).flatten).flatten).map fun row =>
        decodeCoefficients enc (chunks enc.coefficientByteSize row)) = B.b.map fun bi => (bi, false) := by
    rw [chunks_flatten (Nat.mul_pos hcs (Nat.succ_pos _)) hrowlen, List.map_map]
    refine List.map_congr_left fun bi _ => ?_
    show decodeCoefficients enc (chunks _ (bi.map enc.toRepr).flatten) = (bi, false)
    rw [chunks_flatten_toRepr, decodeCoefficients_map_toRepr]
  have hlen : ¬ (B.toBytes enc).length ≠ byteSize enc (UInt8.ofNat B.degX).toNat (UInt8.ofNat B.degY).toNat := by
    rw [hdx, hdy, hsize]
    exact not_not.mpr rfl
  rw [toBytes] at hlen ⊢
  have hfst : (B.b.map fun bi => (bi, false)).map (·.1) = B.b := by
    rw [List.map_map]
    exact List.map_id' _
  rw [fromBytes, if_neg hlen, hdy, hrows]
  simp only [hfst, withCoefficients_b]
  simp

theorem fromBytes_eq_none {bytes : List UInt8}
    (h : bytes.length < 2 ∨ bytes.length ≠ byteSize enc (bytes.getD 0 0).toNat (bytes.getD 1 0).toNat) :
    fromBytes enc bytes = .ok none := by
  match bytes, h with
  | [], _ => rfl
  | [_], _ => rfl
  | degX :: degY :: body, h =>
    have hne : (degX :: degY :: body).length ≠ byteSize enc degX.toNat degY.toNat := by
      rcases h with h | h
      · exact absurd h (by simp)
      · exact h
    rw [fromBytes, if_pos hne]
    rfl

end BivariatePolynomial

namespace VerificationMatrix

omit [Field F] in
theorem ext_m {M M' : VerificationMatrix G} (hr : M.rows = M'.rows) (hc : M.cols = M'.cols)
    (hm : M.m = M'.m) : M = M' := by
  cases M
  cases M'
  simp only at hr hc hm
  subst hr hc hm
  rfl

omit [Field F] in
theorem rows_header {n : ℕ} (h1 : 1 ≤ n) (h2 : n ≤ 256) : (n.toUInt64 - 1).toUInt8.toNat + 1 = n := by
  have h : (n.toUInt64 - 1).toNat = n - 1 := by
    rw [UInt64.toNat_sub_of_le]
    · simp
      omega
    · rw [UInt64.le_iff_toNat_le]
      simp
      omega
  rw [UInt64.toNat_toUInt8, h]
  omega

omit [Field F] in
theorem mapM_fromBytes_toBytes (mi : List G) :
    (chunks genc.size (mi.map genc.toBytes).flatten).mapM genc.fromBytes = some mi := by
  rw [chunks_flatten genc.size_pos fun c hc => ?_, List.mapM_map,
    mapM_eq_pure_map (f := genc.fromBytes ∘ genc.toBytes) (g := id) fun g _ => genc.fromBytes_toBytes g,
    List.map_id]
  · rfl
  · obtain ⟨g, -, rfl⟩ := List.mem_map.mp hc
    exact genc.length_toBytes g

omit [Field F] in
/-- The last test of `from_bytes` never fails: once the length matches the header, the
rows and elements that decode have the shape the header gives. -/
theorem shape_of_length {degX degY : UInt8} {body : List UInt8}
    (hlen : (degX :: degY :: body).length = byteSize genc (degX.toNat + 1) (degY.toNat + 1))
    {m : List (List G)}
    (hm : (chunks (genc.size * (degY.toNat + 1)) body).mapM
      (fun row => (chunks genc.size row).mapM genc.fromBytes) = some m) :
    m.length = degX.toNat + 1 ∧ ∀ mi ∈ m, mi.length = degY.toNat + 1 := by
  have hbody : body.length = genc.size * (degY.toNat + 1) * (degX.toNat + 1) := by
    rw [List.length_cons, List.length_cons, byteSize] at hlen
    rw [Nat.mul_comm genc.size, Nat.mul_comm _ (degX.toNat + 1), ← Nat.mul_assoc]
    omega
  have hrows := forall₂_of_mapM_eq_some hm
  refine ⟨?_, fun mi hmi => ?_⟩
  · rw [← hrows.length_eq, length_chunks (Nat.mul_pos genc.size_pos (Nat.succ_pos _)) hbody]
  · obtain ⟨row, hrow, hr⟩ := exists_of_forall₂_of_mem hrows hmi
    have hrowlen := length_of_mem_chunks hbody hrow
    rw [← (forall₂_of_mapM_eq_some hr).length_eq, length_chunks genc.size_pos hrowlen]

omit [Field F] in
/-- `from_bytes` of a header and a body of the length the header gives, whose elements
decode. -/
theorem fromBytes_of_length {degX degY : UInt8} {body : List UInt8}
    (hlen : (degX :: degY :: body).length = byteSize genc (degX.toNat + 1) (degY.toNat + 1))
    {m : List (List G)}
    (hm : (chunks (genc.size * (degY.toNat + 1)) body).mapM
      (fun row => (chunks genc.size row).mapM genc.fromBytes) = some m) :
    fromBytes genc (degX :: degY :: body) =
      some ⟨_, _, m, (shape_of_length genc hlen hm).1, (shape_of_length genc hlen hm).2⟩ := by
  rw [fromBytes, if_neg (not_not.mpr hlen)]
  simp only [hm, Option.bind_eq_bind, Option.bind_some]
  rw [dif_pos (shape_of_length genc hlen hm)]

omit [Field F] in
theorem fromBytes_toBytes {M : VerificationMatrix G} (hr1 : 1 ≤ M.rows) (hr : M.rows ≤ 256)
    (hc1 : 1 ≤ M.cols) (hc : M.cols ≤ 256) : fromBytes genc (M.toBytes genc) = some M := by
  have hrowlen : ∀ c ∈ M.m.map fun mi => (mi.map genc.toBytes).flatten, c.length = genc.size * M.cols := by
    intro c hc
    obtain ⟨mi, hmi, rfl⟩ := List.mem_map.mp hc
    rw [length_flatten_of_length fun d hd => ?_, List.length_map, M.length_mi mi hmi]
    obtain ⟨g, -, rfl⟩ := List.mem_map.mp hd
    exact genc.length_toBytes g
  have hbody := length_flatten_of_length hrowlen
  rw [List.length_map, M.length_m] at hbody
  have hsize : (M.toBytes genc).length = byteSize genc M.rows M.cols := by
    rw [toBytes, List.length_cons, List.length_cons, hbody, byteSize]
    ring
  have hr' := rows_header hr1 hr
  have hc' := rows_header hc1 hc
  have hm : (chunks (genc.size * ((M.cols.toUInt64 - 1).toUInt8.toNat + 1))
      (M.m.map fun mi => (mi.map genc.toBytes).flatten).flatten).mapM
      (fun row => (chunks genc.size row).mapM genc.fromBytes) = some M.m := by
    rw [hc', chunks_flatten (Nat.mul_pos genc.size_pos hc1) hrowlen, List.mapM_map,
      mapM_eq_pure_map (f := (fun row => (chunks genc.size row).mapM genc.fromBytes) ∘
        fun mi : List G => (mi.map genc.toBytes).flatten) (g := id) fun mi _ => mapM_fromBytes_toBytes genc mi,
      List.map_id]
    rfl
  rw [toBytes, fromBytes_of_length genc (by rw [hr', hc', ← hsize]; rfl) hm]
  exact congrArg some (ext_m hr' hc' rfl)

omit [Field F] in
theorem fromBytes_eq_none {bytes : List UInt8}
    (h : bytes.length < 2 ∨ bytes.length ≠ byteSize genc ((bytes.getD 0 0).toNat + 1) ((bytes.getD 1 0).toNat + 1)) :
    fromBytes genc bytes = none := by
  match bytes, h with
  | [], _ => rfl
  | [_], _ => rfl
  | degX :: degY :: body, h =>
    have hne : (degX :: degY :: body).length ≠ byteSize genc (degX.toNat + 1) (degY.toNat + 1) := by
      rcases h with h | h
      · exact absurd h (by simp)
      · exact h
    rw [fromBytes, if_pos hne]

/-- A matrix with no rows and no columns; `m` is consistent with both. -/
def emptyMatrix : VerificationMatrix G :=
  ⟨0, 0, [], rfl, by simp⟩

omit [Field F] in
/-- `to_bytes` writes the header of the empty matrix as `255, 255`, since `0 - 1` wraps,
and `from_bytes` then expects `256 · 256` elements. -/
theorem fromBytes_toBytes_emptyMatrix :
    (emptyMatrix : VerificationMatrix G).rows ≤ 256 ∧ (emptyMatrix : VerificationMatrix G).cols ≤ 256 ∧
      fromBytes genc (emptyMatrix.toBytes genc) = none := by
  have hbytes : (emptyMatrix : VerificationMatrix G).toBytes genc = [255, 255] := by
    simp only [toBytes, emptyMatrix, List.map_nil, List.flatten_nil]
    decide
  refine ⟨Nat.zero_le _, Nat.zero_le _, ?_⟩
  rw [hbytes]
  apply fromBytes_eq_none
  right
  have := genc.size_pos
  show 2 ≠ 2 + (255 + 1) * (255 + 1) * genc.size
  omega

end VerificationMatrix

theorem secretSharing_codecs_roundTrip :
    (∀ p : Polynomial F, Polynomial.fromBytes enc (p.toBytes enc) = some p) ∧
    (∀ B : BivariatePolynomial F, B.degX ≤ 255 → B.degY ≤ 255 →
      BivariatePolynomial.fromBytes enc (B.toBytes enc) = .ok (some B)) ∧
    (∀ M : VerificationMatrix G, 1 ≤ M.rows → M.rows ≤ 256 → 1 ≤ M.cols → M.cols ≤ 256 →
      VerificationMatrix.fromBytes genc (M.toBytes genc) = some M) ∧
    (∀ bytes : List UInt8, bytes = [] ∨ bytes.length % enc.coefficientByteSize ≠ 0 →
      Polynomial.fromBytes enc bytes = none) ∧
    (∀ bytes : List UInt8, bytes.length < 2 ∨
        bytes.length ≠ BivariatePolynomial.byteSize enc (bytes.getD 0 0).toNat (bytes.getD 1 0).toNat →
      BivariatePolynomial.fromBytes enc bytes = .ok none) ∧
    (∀ bytes : List UInt8, bytes.length < 2 ∨
        bytes.length ≠ VerificationMatrix.byteSize genc ((bytes.getD 0 0).toNat + 1) ((bytes.getD 1 0).toNat + 1) →
      VerificationMatrix.fromBytes genc bytes = none) :=
  ⟨Polynomial.fromBytes_toBytes enc, fun _ hx hy => BivariatePolynomial.fromBytes_toBytes enc hx hy,
    fun _ hr1 hr hc1 hc => VerificationMatrix.fromBytes_toBytes genc hr1 hr hc1 hc,
    fun _ h => Polynomial.fromBytes_eq_none enc h, fun _ h => BivariatePolynomial.fromBytes_eq_none enc h,
    fun _ h => VerificationMatrix.fromBytes_eq_none genc h⟩

/-- The elements of `ZMod 3` in one byte each. -/
def ternaryRepr : FieldRepr (ZMod 3) where
  numBits := 2
  toRepr x := [UInt8.ofNat x.val]
  fromRepr
    | [b] => if b.toNat < 3 then some (b.toNat : ZMod 3) else none
    | _ => none
  numBits_pos := by decide
  length_toRepr _ := rfl
  fromRepr_toRepr := by decide

/-- The additive group of `ZMod 3` in one byte per element. -/
def ternaryGroupRepr : GroupRepr (ZMod 3) where
  size := 1
  toBytes := ternaryRepr.toRepr
  fromBytes := ternaryRepr.fromRepr
  size_pos := by decide
  length_toBytes _ := rfl
  fromBytes_toBytes := ternaryRepr.fromRepr_toRepr

/-- `B(x, y) = 1 + 2x` over `ZMod 3`. -/
def ternaryBivariate : BivariatePolynomial (ZMod 3) where
  degX := 1
  degY := 0
  b := [[1], [2]]
  length_b := rfl
  length_bi := by decide

/-- The matrix `[[2]]` over `ZMod 3`. -/
def ternaryMatrix : VerificationMatrix (ZMod 3) :=
  ⟨1, 1, [[2]], rfl, by decide⟩

theorem secretSharing_codecs_roundTrip_ternary :
    BivariatePolynomial.fromBytes ternaryRepr (ternaryBivariate.toBytes ternaryRepr) =
        .ok (some ternaryBivariate) ∧
      VerificationMatrix.fromBytes ternaryGroupRepr (ternaryMatrix.toBytes ternaryGroupRepr) =
        some ternaryMatrix ∧
      Polynomial.fromBytes ternaryRepr [] = none ∧
      BivariatePolynomial.fromBytes ternaryRepr [1, 1, 0] = .ok none ∧
      VerificationMatrix.fromBytes ternaryGroupRepr [0, 0] = none := by
  obtain ⟨-, hB, hM, hp, hB', hM'⟩ := secretSharing_codecs_roundTrip ternaryRepr ternaryGroupRepr
  exact ⟨hB _ (by decide) (by decide), hM _ (by decide) (by decide) (by decide) (by decide),
    hp _ (Or.inl rfl), hB' _ (Or.inr (by decide)), hM' _ (Or.inr (by decide))⟩

theorem emptyMatrix_roundTrip_fails :
    (VerificationMatrix.emptyMatrix : VerificationMatrix (ZMod 3)).rows ≤ 256 ∧
      (VerificationMatrix.emptyMatrix : VerificationMatrix (ZMod 3)).cols ≤ 256 ∧
      VerificationMatrix.fromBytes ternaryGroupRepr (VerificationMatrix.emptyMatrix.toBytes ternaryGroupRepr) ≠
        some VerificationMatrix.emptyMatrix := by
  obtain ⟨hr, hc, hnone⟩ := VerificationMatrix.fromBytes_toBytes_emptyMatrix ternaryGroupRepr
  exact ⟨hr, hc, by rw [hnone]; exact Option.some_ne_none _ ∘ Eq.symm⟩

end SecretSharing

end OasisCore
