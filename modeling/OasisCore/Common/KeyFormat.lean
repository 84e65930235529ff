import OasisCore.Misc.Bytes
import OasisCore.Misc.Except
import OasisCore.Misc.List

/-!
# Key formats

`keyformat.KeyFormat` (`go/common/keyformat/key_format.go`), which builds the keys of
the node and state databases: a prefix byte, then the elements of a layout, each of a
fixed size but for at most one byte string, whose size is what the key has left.
Integers are written big-endian, so that the keys of one format sort as their values.

A layout and the values are Go values of dynamic type. Here they are `Value M`, one
constructor for each type the code supports, where `M` is the type of the
`encoding.BinaryMarshaler` elements and `Marshaler M` holds its two methods. A pointer
to a value is encoded as the value itself, and a `Decode` target is the `Kind` of the
pointer. A panic of the code is an `Except` error, `Panic`, with one constructor for
each of its messages.

Left out: `CustomFormat` elements, which no key format of the repository uses;
`Namespace`, which only registers prefixes; a `MarshalBinary` that fails. Slicing past
the end of a Go slice panics only past its capacity; the model takes the capacity to be
the length. When a later element fails to decode, `Decode` has already written the
earlier ones; the model returns `none` and keeps no partial result.
-/

namespace OasisCore

namespace KeyFormat

/-- The panics of `key_format.go`. -/
inductive Panic where
  /-- "key format: number of values greater than layout" -/
  | tooManyValues
  /-- "key format: incompatible element %d (size: %d expected: %d)", `none` printed as -1. -/
  | incompatibleElement (index : ℕ) (size expected : Option ℕ)
  /-- "key format: unexpected marshalled size %d for element %d" -/
  | unexpectedMarshalledSize (size index : ℕ)
  /-- "key format: there can be only one variable-sized element" -/
  | onlyOneVariableSized
  /-- "key format: malformed input" -/
  | malformedInput
  /-- A runtime panic: a failed type assertion `v.([]byte)`. -/
  | typeAssertion
  /-- A runtime panic: an index or a slice out of range. -/
  | outOfRange
  deriving DecidableEq, Repr

/-- The methods of an `encoding.BinaryMarshaler` element type: `UnmarshalBinary` gives
`none` where it returns an error. -/
structure Marshaler (M : Type) where
  marshalBinary : M → List UInt8
  unmarshalBinary : List UInt8 → Option M

/-- A layout element or a value of a key. -/
inductive Value (M : Type) where
  | uint8 (v : UInt8)
  | uint16 (v : UInt16)
  | uint32 (v : UInt32)
  | uint64 (v : UInt64)
  | int64 (v : Int64)
  | marshaler (v : M)
  | bytes (v : List UInt8)
  deriving DecidableEq, Repr

/-- The type of a `Decode` target. -/
inductive Kind where
  | uint8
  | uint16
  | uint32
  | uint64
  | int64
  | marshaler
  | bytes
  deriving DecidableEq, Repr, Ord

/-- `elementMeta` (`key_format.go:22-25`); the size -1 of the one variable-sized
element is `none`. -/
structure ElementMeta where
  size : Option ℕ
  deriving DecidableEq, Repr

end KeyFormat

open KeyFormat

/-- `KeyFormat` (`key_format.go:69-77`). -/
structure KeyFormat where
  prefixByte : UInt8
  metas : List ElementMeta
  size : ℕ
  deriving DecidableEq, Repr

namespace KeyFormat

open Bytes

variable {M : Type} (mar : Marshaler M)

namespace Value

/-- The kind of a value. -/
def kind : Value M → Kind
  | uint8 _ => .uint8
  | uint16 _ => .uint16
  | uint32 _ => .uint32
  | uint64 _ => .uint64
  | int64 _ => .int64
  | marshaler _ => .marshaler
  | bytes _ => .bytes

end Value

/-- `KeyFormat.getElementMeta` (`key_format.go:297-330`): the size of a layout element,
that of the marshalled value for a `BinaryMarshaler`. -/
def getElementMeta : Value M → ElementMeta
  | .uint8 _ => ⟨some 1⟩
  | .uint16 _ => ⟨some 2⟩
  | .uint32 _ => ⟨some 4⟩
  | .uint64 _ => ⟨some 8⟩
  | .int64 _ => ⟨some 8⟩
  | .marshaler t => ⟨some (mar.marshalBinary t).length⟩
  | .bytes _ => ⟨none⟩

/-- One round of the loop of `New`: at most one variable-sized element, and the sizes of
the others summed. -/
def newStep (acc : Bool × ℕ) (em : ElementMeta) : Except Panic (Bool × ℕ) :=
  match em.size with
  | none => if acc.1 then throw .onlyOneVariableSized else pure (true, acc.2)
  | some s => pure (acc.1, acc.2 + s)

/-- `keyformat.New` (`key_format.go:79-101`). -/
def new (prefixByte : UInt8) (layout : List (Value M)) : Except Panic KeyFormat := do
  let (_, size) ← (layout.map (getElementMeta mar)).foldlM newStep (false, 0)
  pure ⟨prefixByte, layout.map (getElementMeta mar), size⟩

/-- `KeyFormat.Size` (`key_format.go:103-106`). -/
def sizeOf (k : KeyFormat) : ℕ :=
  1 + k.size

/-- `elementMeta.checkSize` (`key_format.go:27-35`). -/
def checkSize (em : ElementMeta) (index : ℕ) (size : Option ℕ) : Except Panic Unit :=
  if em.size ≠ size then throw (.incompatibleElement index size em.size) else pure ()

/-- The length of element `v` in the first loop of `Encode` (`key_format.go:122-132`):
the element's size, or the length of the byte string `v` must then be. -/
def elemLen (em : ElementMeta) (v : Value M) : Except Panic ℕ :=
  match em.size, v with
  | some s, _ => pure s
  | none, .bytes t => pure t.length
  | none, _ => throw .typeAssertion

/-- The bytes the type switch of `Encode` writes for element `i` into its buffer of
`n` zero bytes (`key_format.go:142-204`). -/
def encodeElement (i : ℕ) (em : ElementMeta) (n : ℕ) : Value M → Except Panic (List UInt8)
  | .uint8 t => do checkSize em i (some 1); pure [t]
  | .uint16 t => do checkSize em i (some 2); pure (beBytes 2 t.toNat)
  | .uint32 t => do checkSize em i (some 4); pure (beBytes 4 t.toNat)
  | .uint64 t => do checkSize em i (some 8); pure (beBytes 8 t.toNat)
  | .int64 t => do checkSize em i (some 8); pure (beBytes 8 t.toUInt64.toNat)
  | .marshaler t =>
    let data := mar.marshalBinary t
    if some data.length ≠ em.size then throw (.unexpectedMarshalledSize data.length i)
    else pure (copyInto n data)
  | .bytes t => pure (copyInto n t)

/-- `KeyFormat.Encode` (`key_format.go:108-208`): the sizes of all elements first, then
their bytes after the prefix. -/
def encode (k : KeyFormat) (values : List (Value M)) : Except Panic (List UInt8) := do
  if values.length > k.metas.length then throw .tooManyValues
  let _ ← (values.zip k.metas).mapM fun (v, em) => elemLen em v
  let bufs ← ((values.zip k.metas).zipIdx).mapM fun ((v, em), i) => do
    let n ← elemLen em v
    encodeElement mar i em n v
  pure (k.prefixByte :: bufs.flatten)

/-- The type switch of `Decode` for element `i` (`key_format.go:247-291`); `none` is a
failed `UnmarshalBinary`, after which `Decode` returns false. -/
def decodeElement (i : ℕ) (em : ElementMeta) (buf : List UInt8) :
    Kind → Except Panic (Option (Value M))
  | .uint8 => do
    checkSize em i (some 1)
    match buf with
    | b :: _ => pure (some (.uint8 b))
    | [] => throw .outOfRange
  | .uint16 => do checkSize em i (some 2); pure (some (.uint16 (UInt16.ofNat (beValue buf))))
  | .uint32 => do checkSize em i (some 4); pure (some (.uint32 (UInt32.ofNat (beValue buf))))
  | .uint64 => do checkSize em i (some 8); pure (some (.uint64 (UInt64.ofNat (beValue buf))))
  | .int64 => do
    checkSize em i (some 8)
    pure (some (.int64 (UInt64.ofNat (beValue buf)).toInt64))
  | .marshaler => pure ((mar.unmarshalBinary buf).map .marshaler)
  | .bytes => do checkSize em i none; pure (some (.bytes buf))

/-- The loop of `Decode` (`key_format.go:236-292`) from byte `offset` and element `i`. -/
def decodeElements (k : KeyFormat) (data : List UInt8) :
    ℕ → ℕ → List (Kind × ElementMeta) → Except Panic (Option (List (Value M)))
  | _, _, [] => pure (some [])
  | offset, i, (t, em) :: rest => do
    let elemLen := em.size.getD (data.length - k.sizeOf)
    if data.length < offset + elemLen then throw .outOfRange
    match ← decodeElement mar i em ((data.drop offset).take elemLen) t with
    | none => pure none
    | some v =>
      match ← decodeElements k data (offset + elemLen) (i + 1) rest with
      | none => pure none
      | some vs => pure (some (v :: vs))

/-- `KeyFormat.Decode` (`key_format.go:210-295`): `none` where it returns false, and the
values it writes otherwise. -/
def decode (k : KeyFormat) (data : List UInt8) (targets : List Kind) :
    Except Panic (Option (List (Value M))) :=
  match data with
  | [] => throw .outOfRange
  | b :: _ =>
    if b ≠ k.prefixByte then pure none
    else if targets.length > k.metas.length then throw .tooManyValues
    else if data.length < k.sizeOf then throw .malformedInput
    else decodeElements mar k data 1 0 (targets.zip k.metas)

/-! ## Keys of fixed-size layouts -/

namespace Value

/-- The bytes of a value in a slot of its own size. -/
def encoded : Value M → List UInt8
  | uint8 t => [t]
  | uint16 t => beBytes 2 t.toNat
  | uint32 t => beBytes 4 t.toNat
  | uint64 t => beBytes 8 t.toNat
  | int64 t => beBytes 8 t.toUInt64.toNat
  | marshaler t => mar.marshalBinary t
  | bytes t => t

/-- The order that the keys of one format are meant to follow: integers by their value,
marshalled elements and byte strings by their bytes, values of different kinds by kind. -/
def cmp : Value M → Value M → Ordering
  | uint8 a, uint8 b => compare a.toNat b.toNat
  | uint16 a, uint16 b => compare a.toNat b.toNat
  | uint32 a, uint32 b => compare a.toNat b.toNat
  | uint64 a, uint64 b => compare a.toNat b.toNat
  | int64 a, int64 b => compare a.toInt b.toInt
  | marshaler a, marshaler b => compare (mar.marshalBinary a) (mar.marshalBinary b)
  | bytes a, bytes b => compare a b
  | a, b => compare a.kind b.kind

/-- A value for the layout element `item`: of its kind and of its size. -/
def Fits (item v : Value M) : Prop :=
  v.kind = item.kind ∧ getElementMeta mar v = getElementMeta mar item

/-- Not a negative `int64`. -/
def NonNeg : Value M → Prop
  | int64 t => 0 ≤ t
  | _ => True

end Value

open Value

theorem size_getElementMeta {v : Value M} (hv : v.kind ≠ .bytes) :
    (getElementMeta mar v).size = some (v.encoded mar).length := by
  cases v <;> simp_all [getElementMeta, encoded, kind]

theorem elemLen_getElementMeta (v : Value M) :
    elemLen (getElementMeta mar v) v = .ok (v.encoded mar).length := by
  cases v <;> simp [elemLen, getElementMeta, encoded] <;> rfl

theorem encodeElement_getElementMeta (i : ℕ) (v : Value M) :
    encodeElement mar i (getElementMeta mar v) (v.encoded mar).length v = .ok (v.encoded mar) := by
  cases v <;> simp [encodeElement, getElementMeta, checkSize, encoded, copyInto_of_length] <;> rfl

theorem decodeElement_encoded (i : ℕ) (v : Value M)
    (hv : ∀ t, v = .marshaler t → mar.unmarshalBinary (mar.marshalBinary t) = some t) :
    decodeElement mar i (getElementMeta mar v) (v.encoded mar) v.kind = .ok (some v) := by
  cases v <;> simp [decodeElement, getElementMeta, checkSize, encoded, kind, beValue_beBytes,
    hv] <;> rfl

theorem foldlM_newStep {layout : List (Value M)} (hfixed : ∀ item ∈ layout, item.kind ≠ .bytes)
    (b : Bool) (s : ℕ) :
    (layout.map (getElementMeta mar)).foldlM newStep (b, s) =
      .ok (b, s + (layout.map fun v => (v.encoded mar).length).sum) := by
  induction layout generalizing s with
  | nil => rfl
  | cons v layout ih =>
    have hv := size_getElementMeta mar (hfixed v List.mem_cons_self)
    rw [List.map_cons, List.foldlM_cons, newStep, hv]
    simp only [Except.ok_bind, pure, Except.pure]
    rw [ih fun item h => hfixed item (List.mem_cons_of_mem v h)]
    simp [Nat.add_assoc]

/-- A layout of fixed-size elements makes a key format whose size is the sum of theirs. -/
theorem new_eq_ok (prefixByte : UInt8) {layout : List (Value M)}
    (hfixed : ∀ item ∈ layout, item.kind ≠ .bytes) :
    new mar prefixByte layout = .ok ⟨prefixByte, layout.map (getElementMeta mar),
      (layout.map fun v => (v.encoded mar).length).sum⟩ := by
  rw [new, foldlM_newStep mar hfixed, Except.ok_bind, Nat.zero_add]
  rfl

omit mar in
theorem zip_map_append {α β : Type} (f : α → β) (l : List α) (rest : List β) :
    l.zip (l.map f ++ rest) = l.map fun a => (a, f a) := by
  induction l with
  | nil => rfl
  | cons a l ih => simp [ih]

/-- Values whose element metadata lead the format's encode to the prefix byte followed by
their bytes. -/
theorem encode_eq_ok (k : KeyFormat) {values : List (Value M)} (rest : List ElementMeta)
    (hk : k.metas = values.map (getElementMeta mar) ++ rest) :
    k.encode mar values = .ok (k.prefixByte :: (values.map (encoded mar)).flatten) := by
  have hzip := zip_map_append (getElementMeta mar) values rest
  have hlen : ¬ values.length > k.metas.length := by rw [hk]; simp
  have hsizes : (values.zip k.metas).mapM (fun (v, em) => elemLen em v) =
      pure ((values.zip k.metas).map fun vm => (vm.1.encoded mar).length) := by
    apply mapM_eq_pure_map
    rintro ⟨v, em⟩ hmem
    rw [hk, hzip, List.mem_map] at hmem
    obtain ⟨w, -, hw⟩ := hmem
    cases hw
    exact elemLen_getElementMeta mar _
  have hbufs : ((values.zip k.metas).zipIdx).mapM (fun ((v, em), i) => do
      let n ← elemLen em v
      encodeElement mar i em n v) =
      pure (((values.zip k.metas).zipIdx).map fun x => x.1.1.encoded mar) := by
    apply mapM_eq_pure_map
    rintro ⟨⟨v, em⟩, i⟩ hmem
    have hvm := List.fst_mem_of_mem_zipIdx hmem
    rw [hk, hzip, List.mem_map] at hvm
    obtain ⟨w, -, hw⟩ := hvm
    cases hw
    simp only [elemLen_getElementMeta, Except.ok_bind]
    exact encodeElement_getElementMeta mar i _
  have hmap : ((values.zip k.metas).zipIdx).map (fun x => x.1.1.encoded mar) =
      values.map (encoded mar) := by
    rw [show (fun x : (Value M × ElementMeta) × ℕ => x.1.1.encoded mar) =
        (fun vm => vm.1.encoded mar) ∘ Prod.fst from rfl, ← List.map_map, List.zipIdx_map_fst,
      hk, hzip, List.map_map]
    rfl
  rw [encode, if_neg hlen, hsizes, hbufs, hmap]
  rfl


/-- The decode loop reads back values of fixed size from their bytes. -/
theorem decodeElements_encoded (k : KeyFormat) (data rest : List UInt8) :
    ∀ (vs : List (Value M)) (offset i : ℕ), offset ≤ data.length → (∀ v ∈ vs, v.kind ≠ .bytes) →
      (∀ t, .marshaler t ∈ vs → mar.unmarshalBinary (mar.marshalBinary t) = some t) →
      data.drop offset = (vs.map (encoded mar)).flatten ++ rest →
      k.decodeElements mar data offset i (vs.map fun v => (v.kind, getElementMeta mar v)) =
        .ok (some vs)
  | [], _, _, _, _, _, _ => rfl
  | v :: vs, offset, i, hoff, hfixed, hround, hdata => by
    have hsize := size_getElementMeta mar (hfixed v List.mem_cons_self)
    have hdrop : data.drop offset = v.encoded mar ++ ((vs.map (encoded mar)).flatten ++ rest) := by
      rw [hdata, List.map_cons, List.flatten_cons, List.append_assoc]
    have hlen : offset + (v.encoded mar).length ≤ data.length := by
      have := congrArg List.length hdrop
      simp only [List.length_drop, List.length_append] at this
      omega
    have hbuf : (data.drop offset).take (v.encoded mar).length = v.encoded mar := by
      rw [hdrop, List.take_left]
    have hnext : data.drop (offset + (v.encoded mar).length) = (vs.map (encoded mar)).flatten ++ rest := by
      rw [← List.drop_drop, hdrop, List.drop_left]
    have hv := decodeElement_encoded mar i v fun t ht => hround t (ht ▸ List.mem_cons_self)
    have ih := decodeElements_encoded k data rest vs (offset + (v.encoded mar).length) (i + 1) hlen
      (fun w hw => hfixed w (List.mem_cons_of_mem v hw))
      (fun t ht => hround t (List.mem_cons_of_mem v ht)) hnext
    rw [List.map_cons, decodeElements, hsize, Option.getD_some, if_neg (by omega), hbuf, hv,
      Except.ok_bind]
    simp only
    rw [ih, Except.ok_bind]
    rfl

/-- A key of values of fixed size decodes to them. -/
theorem decode_encode (k : KeyFormat) {values : List (Value M)}
    (hk : k.metas = values.map (getElementMeta mar))
    (hsize : k.size = (values.map fun v => (v.encoded mar).length).sum)
    (hfixed : ∀ v ∈ values, v.kind ≠ .bytes)
    (hround : ∀ t, .marshaler t ∈ values → mar.unmarshalBinary (mar.marshalBinary t) = some t) :
    k.decode mar (k.prefixByte :: (values.map (encoded mar)).flatten) (values.map kind) =
      .ok (some values) := by
  have hlen : ((values.map (encoded mar)).flatten).length = k.size := by
    rw [hsize, List.length_flatten, List.map_map]
    rfl
  have htargets : ¬ (values.map kind).length > k.metas.length := by rw [hk]; simp
  have hdata : ¬ (k.prefixByte :: (values.map (encoded mar)).flatten).length < k.sizeOf := by
    rw [List.length_cons, hlen, sizeOf]
    omega
  rw [decode, if_neg (not_not.mpr rfl), if_neg htargets, if_neg hdata, hk, List.zip_map']
  exact decodeElements_encoded mar k _ [] values 1 0 (by simp) hfixed hround (by simp)

/-- Two values of one kind, neither a negative `int64`, compare by their bytes as `cmp`
orders them. -/
theorem compareLex_encoded {x y : Value M} (hk : x.kind = y.kind) (hx : x.NonNeg) (hy : y.NonNeg) :
    List.compareLex compare (x.encoded mar) (y.encoded mar) = x.cmp mar y := by
  cases x <;> cases y <;> simp only [kind, reduceCtorEq] at hk
  case uint8 a b =>
    rw [encoded, encoded, List.compareLex_cons_cons, List.compareLex_nil_nil, Ordering.then_eq,
      compare_byte, Value.cmp]
  case uint16 a b =>
    rw [encoded, encoded, compareLex_beBytes, Nat.mod_eq_of_lt (show a.toNat < 256 ^ 2 from a.toNat_lt),
      Nat.mod_eq_of_lt (show b.toNat < 256 ^ 2 from b.toNat_lt), Value.cmp]
  case uint32 a b =>
    rw [encoded, encoded, compareLex_beBytes, Nat.mod_eq_of_lt (show a.toNat < 256 ^ 4 from a.toNat_lt),
      Nat.mod_eq_of_lt (show b.toNat < 256 ^ 4 from b.toNat_lt), Value.cmp]
  case uint64 a b =>
    rw [encoded, encoded, compareLex_beBytes, Nat.mod_eq_of_lt (show a.toNat < 256 ^ 8 from a.toNat_lt),
      Nat.mod_eq_of_lt (show b.toNat < 256 ^ 8 from b.toNat_lt), Value.cmp]
  case int64 a b =>
    -- a non-negative int64 is its two's complement bits
    have ha : a.toUInt64.toNat = a.toNatClampNeg := Int64.toNat_toBitVec_of_le hx
    have hb : b.toUInt64.toNat = b.toNatClampNeg := Int64.toNat_toBitVec_of_le hy
    rw [encoded, encoded, compareLex_beBytes,
      Nat.mod_eq_of_lt (show a.toUInt64.toNat < 256 ^ 8 from a.toUInt64.toNat_lt),
      Nat.mod_eq_of_lt (show b.toUInt64.toNat < 256 ^ 8 from b.toUInt64.toNat_lt), Value.cmp, ha, hb,
      Int64.toInt_eq_toNatClampNeg hx, Int64.toInt_eq_toNatClampNeg hy, compare_natCast]
  case marshaler a b => rfl
  case bytes a b => rfl

theorem map_getElementMeta_of_fits {layout values : List (Value M)}
    (h : List.Forall₂ (Fits mar) layout values) :
    values.map (getElementMeta mar) = layout.map (getElementMeta mar) := by
  induction h with
  | nil => rfl
  | cons hab _ ih => rw [List.map_cons, List.map_cons, hab.2, ih]

theorem fixed_of_fits {layout values : List (Value M)} (h : List.Forall₂ (Fits mar) layout values)
    (hfixed : ∀ item ∈ layout, item.kind ≠ .bytes) : ∀ v ∈ values, v.kind ≠ .bytes := by
  induction h with
  | nil => simp
  | cons hab _ ih =>
    intro v hv
    rcases List.mem_cons.mp hv with rfl | hv
    · rw [hab.1]
      exact hfixed _ List.mem_cons_self
    · exact ih (fun item h => hfixed item (List.mem_cons_of_mem _ h)) v hv

/-- Two values for one slot of a layout: of one kind and one size. -/
def SameSlot (x y : Value M) : Prop :=
  x.kind = y.kind ∧ getElementMeta mar x = getElementMeta mar y

theorem sameSlot_of_fits {layout a b : List (Value M)} (ha : List.Forall₂ (Fits mar) layout a)
    (hb : List.Forall₂ (Fits mar) layout b) : List.Forall₂ (SameSlot mar) a b := by
  induction ha generalizing b with
  | nil =>
    cases hb
    exact .nil
  | cons hx _ ih =>
    cases hb with
    | cons hy hb => exact .cons ⟨hx.1.trans hy.1.symm, hx.2.trans hy.2.symm⟩ (ih hb)

theorem length_encoded_of_sameSlot {x y : Value M} (h : SameSlot mar x y) (hx : x.kind ≠ .bytes) :
    (x.encoded mar).length = (y.encoded mar).length := by
  have hy : y.kind ≠ .bytes := h.1 ▸ hx
  have := (size_getElementMeta mar hx).symm.trans (h.2 ▸ size_getElementMeta mar hy)
  exact Option.some.inj this

/-- Keys of values of fixed size, none a negative `int64`, compare value by value. -/
theorem compareLex_flatten_encoded {a b : List (Value M)} (h : List.Forall₂ (SameSlot mar) a b)
    (hfixed : ∀ v ∈ a, v.kind ≠ .bytes) (hna : ∀ v ∈ a, v.NonNeg) (hnb : ∀ v ∈ b, v.NonNeg) :
    List.compareLex compare (a.map (encoded mar)).flatten (b.map (encoded mar)).flatten =
      List.compareLex (Value.cmp mar) a b := by
  induction h with
  | nil => rfl
  | @cons x y a b hxy _ ih =>
    rw [List.map_cons, List.map_cons, List.flatten_cons, List.flatten_cons,
      compareLex_append_of_length_eq _ _ (length_encoded_of_sameSlot mar hxy (hfixed x List.mem_cons_self)),
      compareLex_encoded mar hxy.1 (hna x List.mem_cons_self) (hnb y List.mem_cons_self),
      ih (fun v hv => hfixed v (List.mem_cons_of_mem x hv)) (fun v hv => hna v (List.mem_cons_of_mem x hv))
        (fun v hv => hnb v (List.mem_cons_of_mem y hv)),
      List.compareLex_cons_cons]

theorem map_length_encoded_of_fits {layout values : List (Value M)}
    (h : List.Forall₂ (Fits mar) layout values) (hfixed : ∀ item ∈ layout, item.kind ≠ .bytes) :
    (values.map fun v => (v.encoded mar).length) = layout.map fun v => (v.encoded mar).length := by
  induction h with
  | nil => rfl
  | @cons item v layout values hv _ ih =>
    have hsize := (size_getElementMeta mar (hv.1 ▸ hfixed item List.mem_cons_self)).symm.trans
      (hv.2 ▸ size_getElementMeta mar (hfixed item List.mem_cons_self))
    rw [List.map_cons, List.map_cons, Option.some.inj hsize,
      ih fun w hw => hfixed w (List.mem_cons_of_mem item hw)]

/-- The keys of a format of fixed-size elements: each tuple of the layout is encoded,
and decodes back to it when its marshalled elements do; keys compare as their tuples do,
the `int64`s among them not negative; and the key of the first `n` values of a tuple is
a prefix of the key of the whole tuple. -/
theorem keyFormat_encode_decode_order (prefixByte : UInt8) {layout : List (Value M)}
    (hfixed : ∀ item ∈ layout, item.kind ≠ .bytes) :
    ∃ k, new mar prefixByte layout = .ok k ∧
      (∀ a, List.Forall₂ (Fits mar) layout a →
        (∀ t, .marshaler t ∈ a → mar.unmarshalBinary (mar.marshalBinary t) = some t) →
        ∃ data, k.encode mar a = .ok data ∧ k.decode mar data (a.map kind) = .ok (some a)) ∧
      (∀ a b, List.Forall₂ (Fits mar) layout a → List.Forall₂ (Fits mar) layout b →
        (∀ v ∈ a, v.NonNeg) → (∀ v ∈ b, v.NonNeg) →
        ∃ ea eb, k.encode mar a = .ok ea ∧ k.encode mar b = .ok eb ∧
          compare ea eb = List.compareLex (Value.cmp mar) a b) ∧
      (∀ a n, List.Forall₂ (Fits mar) layout a →
        ∃ e e', k.encode mar (a.take n) = .ok e ∧ k.encode mar a = .ok e' ∧ e <+: e') := by
  refine ⟨_, new_eq_ok mar prefixByte hfixed, ?_, ?_, ?_⟩
  · intro a ha hround
    have hk := map_getElementMeta_of_fits mar ha
    refine ⟨_, encode_eq_ok mar _ [] (by rw [List.append_nil, hk]), ?_⟩
    exact decode_encode mar _ hk.symm (map_length_encoded_of_fits mar ha hfixed ▸ rfl)
      (fixed_of_fits mar ha hfixed) hround
  · intro a b ha hb hna hnb
    refine ⟨_, _, encode_eq_ok mar _ []
      (by rw [List.append_nil, map_getElementMeta_of_fits mar ha]),
      encode_eq_ok mar _ [] (by rw [List.append_nil, map_getElementMeta_of_fits mar hb]), ?_⟩
    rw [List.compare_eq_compareLex, List.compareLex_cons_cons, compare_byte,
      Nat.compare_eq_eq.mpr rfl, Ordering.eq_then]
    exact compareLex_flatten_encoded mar (sameSlot_of_fits mar ha hb) (fixed_of_fits mar ha hfixed)
      hna hnb
  · intro a n ha
    have hsplit : layout.map (getElementMeta mar) =
        (a.take n).map (getElementMeta mar) ++ (a.drop n).map (getElementMeta mar) := by
      rw [← List.map_append, List.take_append_drop, map_getElementMeta_of_fits mar ha]
    refine ⟨_, _, encode_eq_ok mar _ _ hsplit,
      encode_eq_ok mar _ [] (by rw [List.append_nil, map_getElementMeta_of_fits mar ha]), ?_⟩
    rw [List.cons_prefix_cons]
    refine ⟨rfl, ?_⟩
    rw [List.map_take]
    exact (List.take_prefix n _).flatten

/-- A marshaler of one-byte values. -/
def byteMarshaler : Marshaler UInt8 :=
  ⟨fun b => [b], fun l => match l with
    | [b] => some b
    | _ => none⟩

theorem keyFormat_encode_decode_order_roundTrip :
    ∃ k, new byteMarshaler 5 [.uint64 0, .marshaler 0] = .ok k ∧
      ∃ data, k.encode byteMarshaler [.uint64 7, .marshaler 3] = .ok data ∧
        k.decode byteMarshaler data [.uint64, .marshaler] = .ok (some [.uint64 7, .marshaler 3]) := by
  obtain ⟨k, hk, hround, -, -⟩ :=
    @keyFormat_encode_decode_order UInt8 byteMarshaler 5 [.uint64 0, .marshaler 0] (by decide)
  refine ⟨k, hk, hround _ (.cons ⟨rfl, rfl⟩ (.cons ⟨rfl, rfl⟩ .nil)) ?_⟩
  intro t ht
  simp only [List.mem_cons, Value.marshaler.injEq, reduceCtorEq, List.not_mem_nil, or_false,
    false_or] at ht
  subst ht
  rfl

end KeyFormat

end OasisCore
