import Mathlib.Data.List.Forall2
import Mathlib.Tactic.Ring

/-!
# Byte strings

Fixed-width unsigned integers written as byte strings, the most significant byte
first (`beBytes`) or last (`leBytes`), and the lexicographic order of byte strings,
`List.compareLex` on bytes: for big-endian strings of one width it is the order of the
numbers they hold (`compareLex_beBytes`), and two strings that start with blocks of one
length compare block first (`compareLex_append_of_length_eq`).

`copyInto` is the buffer that a copy of a string into `n` fresh zero bytes leaves, and
`chunks` cuts a list into pieces of `n` elements, as Rust's `chunks` does.
-/

namespace OasisCore

namespace Bytes

/-- The `w` bytes of `n`, the most significant first; the bits of `n` past `8 * w` are
dropped. -/
def beBytes : ℕ → ℕ → List UInt8
  | 0, _ => []
  | w + 1, n => UInt8.ofNat (n / 256 ^ w) :: beBytes w n

/-- The number a byte string holds, its first byte the most significant. -/
def beValue : List UInt8 → ℕ
  | [] => 0
  | b :: l => b.toNat * 256 ^ l.length + beValue l

/-- The `w` bytes of `n`, the least significant first. -/
def leBytes (w n : ℕ) : List UInt8 :=
  (beBytes w n).reverse

/-- The number a byte string holds, its first byte the least significant. -/
def leValue (l : List UInt8) : ℕ :=
  beValue l.reverse

/-- `n` zero bytes with `src` copied over their front, as far as it reaches. -/
def copyInto (n : ℕ) (src : List UInt8) : List UInt8 :=
  src.take n ++ List.replicate (n - src.length) 0

/-- Rust's `chunks(n)`: the pieces of `n` elements of `l` in order, the last one shorter;
Rust refuses `n = 0`. -/
def chunks {α : Type} (n : ℕ) (l : List α) : List (List α) :=
  (List.range ((l.length + n - 1) / n)).map fun i => (l.drop (i * n)).take n

/-! ## Comparisons of numbers -/

theorem compare_byte (a b : UInt8) : compare a b = compare a.toNat b.toNat := by
  show compareOfLessAndEq a b = compareOfLessAndEq a.toNat b.toNat
  simp only [compareOfLessAndEq, UInt8.lt_iff_toNat_lt, UInt8.toNat_inj]

theorem compare_eq_of_iff {a b c d : ℕ} (hlt : a < b ↔ c < d) (heq : a = b ↔ c = d) :
    compare a b = compare c d := by
  rcases lt_trichotomy a b with h | h | h
  · rw [Nat.compare_eq_lt.mpr h, Nat.compare_eq_lt.mpr (hlt.mp h)]
  · rw [Nat.compare_eq_eq.mpr h, Nat.compare_eq_eq.mpr (heq.mp h)]
  · have hcd : d < c := by
      rcases lt_trichotomy c d with h' | h' | h'
      · exact absurd (hlt.mpr h') (by omega)
      · exact absurd (heq.mpr h') (by omega)
      · exact h'
    rw [Nat.compare_eq_gt.mpr h, Nat.compare_eq_gt.mpr hcd]

theorem compare_natCast (n m : ℕ) : compare (n : ℤ) (m : ℤ) = compare n m := by
  rcases lt_trichotomy n m with h | rfl | h
  · rw [Nat.compare_eq_lt.mpr h, compare_lt_iff_lt]
    exact_mod_cast h
  · rw [Nat.compare_eq_eq.mpr rfl, compare_eq_iff_eq]
  · rw [Nat.compare_eq_gt.mpr h, compare_gt_iff_gt]
    exact_mod_cast h

/-- A number written as `r + B * q` with a digit `r < B` compares by `q` first, then by
`r`. -/
theorem compare_add_mul {B q q' r r' : ℕ} (hr : r < B) (hr' : r' < B) :
    compare (r + B * q) (r' + B * q') = (compare q q').then (compare r r') := by
  rcases lt_trichotomy q q' with h | rfl | h
  · have hlt : r + B * q < r' + B * q' := by
      calc r + B * q < B * (q + 1) := by rw [Nat.mul_succ]; omega
        _ ≤ B * q' := Nat.mul_le_mul_left B h
        _ ≤ r' + B * q' := Nat.le_add_left _ _
    rw [Nat.compare_eq_lt.mpr h, Nat.compare_eq_lt.mpr hlt]
    rfl
  · rw [Nat.compare_eq_eq.mpr rfl, Ordering.eq_then]
    exact compare_eq_of_iff (by omega) (by omega)
  · have hgt : r' + B * q' < r + B * q := by
      calc r' + B * q' < B * (q' + 1) := by rw [Nat.mul_succ]; omega
        _ ≤ B * q := Nat.mul_le_mul_left B h
        _ ≤ r + B * q := Nat.le_add_left _ _
    rw [Nat.compare_eq_gt.mpr h, Nat.compare_eq_gt.mpr hgt]
    rfl

/-! ## Big-endian strings -/

@[simp] theorem length_beBytes (w n : ℕ) : (beBytes w n).length = w := by
  induction w with
  | zero => rfl
  | succ w ih => simp [beBytes, ih]

theorem toNat_ofNat_div (n w : ℕ) : (UInt8.ofNat (n / 256 ^ w)).toNat = n / 256 ^ w % 256 := by
  simp

theorem beValue_beBytes (w n : ℕ) : beValue (beBytes w n) = n % 256 ^ w := by
  induction w with
  | zero => simp [beBytes, beValue, Nat.mod_one]
  | succ w ih =>
    rw [beBytes, beValue, length_beBytes, ih, toNat_ofNat_div, pow_succ, Nat.mod_mul]
    ring

/-- Big-endian strings of one width compare as the numbers they hold. -/
theorem compareLex_beBytes (w n m : ℕ) :
    List.compareLex compare (beBytes w n) (beBytes w m) = compare (n % 256 ^ w) (m % 256 ^ w) := by
  induction w with
  | zero => simp [beBytes, List.compareLex_nil_nil, Nat.mod_one]
  | succ w ih =>
    have hpos : 0 < 256 ^ w := Nat.pow_pos (by decide)
    rw [beBytes, beBytes, List.compareLex_cons_cons, compare_byte, toNat_ofNat_div,
      toNat_ofNat_div, ih, pow_succ, Nat.mod_mul, Nat.mod_mul,
      compare_add_mul (Nat.mod_lt _ hpos) (Nat.mod_lt _ hpos)]

/-! ## Little-endian strings -/

@[simp] theorem length_leBytes (w n : ℕ) : (leBytes w n).length = w := by
  simp [leBytes]

theorem leValue_leBytes (w n : ℕ) : leValue (leBytes w n) = n % 256 ^ w := by
  rw [leValue, leBytes, List.reverse_reverse, beValue_beBytes]

/-! ## Copies -/

@[simp] theorem length_copyInto (n : ℕ) (src : List UInt8) : (copyInto n src).length = n := by
  simp only [copyInto, List.length_append, List.length_take, List.length_replicate]
  omega

theorem copyInto_of_length {n : ℕ} {src : List UInt8} (h : src.length = n) : copyInto n src = src := by
  subst h
  simp [copyInto]

/-! ## Chunks -/

section Chunks

variable {α : Type} {n : ℕ}

theorem length_flatten_of_length {L : List (List α)} (h : ∀ c ∈ L, c.length = n) :
    L.flatten.length = n * L.length := by
  induction L with
  | nil => simp
  | cons c L ih =>
    rw [List.flatten_cons, List.length_append, h c List.mem_cons_self,
      ih fun d hd => h d (List.mem_cons_of_mem c hd), List.length_cons, Nat.mul_succ]
    omega

theorem drop_flatten_of_length {L : List (List α)} (h : ∀ c ∈ L, c.length = n) (i : ℕ) :
    L.flatten.drop (i * n) = (L.drop i).flatten := by
  induction L generalizing i with
  | nil => simp
  | cons c L ih =>
    cases i with
    | zero => simp
    | succ i =>
      -- the first piece is used up
      have hc : c.drop (n + i * n) = [] := by
        rw [List.drop_eq_nil_iff, h c List.mem_cons_self]
        omega
      rw [List.flatten_cons, Nat.succ_mul, Nat.add_comm, List.drop_append, h c List.mem_cons_self, hc,
        List.nil_append, Nat.add_sub_cancel_left, ih fun d hd => h d (List.mem_cons_of_mem c hd),
        List.drop_succ_cons]

/-- Pieces of `n` elements, joined and cut again, are the same pieces. -/
theorem chunks_flatten {L : List (List α)} (hn : 0 < n) (h : ∀ c ∈ L, c.length = n) :
    chunks n L.flatten = L := by
  have hcount : (L.flatten.length + n - 1) / n = L.length := by
    rw [length_flatten_of_length h, show n * L.length + n - 1 = n * L.length + (n - 1) by omega,
      Nat.mul_add_div hn, Nat.div_eq_of_lt (by omega), Nat.add_zero]
  have hlen : (chunks n L.flatten).length = L.length := by
    simp only [chunks, List.length_map, List.length_range, hcount]
  apply List.ext_getElem hlen
  intro i hi hi'
  simp only [chunks, List.getElem_map, List.getElem_range]
  rw [drop_flatten_of_length h, List.drop_eq_getElem_cons hi', List.flatten_cons,
    List.take_left' (h _ (List.getElem_mem hi'))]

theorem length_chunks {l : List α} {m : ℕ} (hn : 0 < n) (hl : l.length = n * m) :
    (chunks n l).length = m := by
  simp only [chunks, List.length_map, List.length_range]
  rw [hl, show n * m + n - 1 = n * m + (n - 1) by omega, Nat.mul_add_div hn, Nat.div_eq_of_lt (by omega),
    Nat.add_zero]

theorem length_of_mem_chunks {l : List α} {m : ℕ} (hl : l.length = n * m) {c : List α}
    (hc : c ∈ chunks n l) : c.length = n := by
  simp only [chunks, List.mem_map] at hc
  obtain ⟨i, hi, rfl⟩ := hc
  rw [List.mem_range] at hi
  rw [List.length_take, List.length_drop, hl]
  -- every piece before the end is whole
  have hi' : i < m := by
    rcases Nat.eq_zero_or_pos n with rfl | hn
    · simp at hi
    · rw [hl, show n * m + n - 1 = n * m + (n - 1) by omega, Nat.mul_add_div hn,
        Nat.div_eq_of_lt (by omega), Nat.add_zero] at hi
      exact hi
  have : (i + 1) * n ≤ m * n := Nat.mul_le_mul_right n hi'
  rw [Nat.succ_mul, Nat.mul_comm m n] at this
  omega

end Chunks

/-! ## Strings made of blocks -/

section Lex

variable {α : Type} {cmp : α → α → Ordering}

theorem compareLex_append_of_length_eq {l₁ l₁' : List α} (l₂ l₂' : List α)
    (h : l₁.length = l₁'.length) :
    List.compareLex cmp (l₁ ++ l₂) (l₁' ++ l₂') =
      (List.compareLex cmp l₁ l₁').then (List.compareLex cmp l₂ l₂') := by
  induction l₁ generalizing l₁' with
  | nil =>
    rw [List.length_nil, eq_comm, List.length_eq_zero_iff] at h
    subst h
    rw [List.nil_append, List.nil_append, List.compareLex_nil_nil, Ordering.eq_then]
  | cons a l₁ ih =>
    cases l₁' with
    | nil => simp at h
    | cons b l₁' =>
      rw [List.cons_append, List.cons_append, List.compareLex_cons_cons, List.compareLex_cons_cons,
        ih (by simpa using h), Ordering.then_assoc]

end Lex

end Bytes

end OasisCore
