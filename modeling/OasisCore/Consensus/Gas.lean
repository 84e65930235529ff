import OasisCore.Misc.FinMap

/-!
# Gas accounting

A transaction's gas is metered by a gas accountant (`go/consensus/cometbft/api/gas.go`).
The basic one counts the gas used against a limit, each operation costing its entry in a
table of costs times a multiplier, and an operation without an entry being free.

`UseGas` guards the sum against `uint64` overflow but not the product, which it computes
in `uint64` first. Where the product does not wrap, the accountant accepts exactly the
operations that fit under its limit (`useGas_eq_ok_iff_of_no_wrap`) and never goes past
the limit; a product that wraps is charged modulo `2^64`
(`useGas_wrapped_product_accepted`). A failed call returns before the gas used is
written, so the model returns the accountant only on success.
-/

namespace OasisCore

namespace Consensus

/-- `transaction.Gas` (`go/consensus/api/transaction/gas.go`). -/
abbrev Gas := UInt64

/-- The errors of `UseGas`; a negative multiplier makes Go panic. -/
inductive GasError where
  | gasOverflow
  | outOfGas
  | panic
  deriving DecidableEq, Repr

/-- `basicGasAccountant` (`gas.go:35-38`). -/
structure BasicGasAccountant where
  maxUsedGas : Gas
  usedGas : Gas
  deriving DecidableEq, Repr

/-- `NewGasAccountant` (`gas.go:72-77`). -/
def newGasAccountant (maxUsedGas : Gas) : BasicGasAccountant :=
  ⟨maxUsedGas, 0⟩

namespace BasicGasAccountant

variable {Op : Type} [DecidableEq Op]

/-- `basicGasAccountant.UseGas` (`gas.go:40-62`). The multiplier is a Go `int`; its
conversion to `Gas` keeps a non-negative value, and the product is taken in `uint64`. -/
def useGas (ga : BasicGasAccountant) (multiplier : ℤ) (op : Op) (costs : FinMap Op Gas) :
    Except GasError BasicGasAccountant :=
  if multiplier < 0 then .error .panic
  else
    match costs.lookup op with
    | none => .ok ga
    | some amount =>
      let amount := amount * multiplier.toNat.toUInt64
      if 0xffffffffffffffff - ga.usedGas < amount then .error .gasOverflow
      else if ga.usedGas + amount > ga.maxUsedGas then .error .outOfGas
      else .ok { ga with usedGas := ga.usedGas + amount }

/-- The gas used stays within the limit. -/
def Within (ga : BasicGasAccountant) : Prop :=
  ga.usedGas.toNat ≤ ga.maxUsedGas.toNat

theorem within_newGasAccountant (maxUsedGas : Gas) : (newGasAccountant maxUsedGas).Within := by
  simp [Within, newGasAccountant]

/-- The overflow check of `UseGas` holds exactly when the sum does not wrap. -/
theorem overflow_check_iff (used amount : Gas) :
    0xffffffffffffffff - used < amount ↔ 2 ^ 64 ≤ used.toNat + amount.toNat := by
  have hused := used.toNat_lt
  rw [UInt64.lt_iff_toNat_lt, UInt64.toNat_sub_of_le _ _ (UInt64.le_iff_toNat_le.mpr
    (by simp; omega))]
  simp
  omega

/-- What `UseGas` accepts: a free operation, or one whose cost, the product taken in
`uint64`, fits under the limit. -/
theorem useGas_eq_ok {ga ga' : BasicGasAccountant} {multiplier : ℤ} {op : Op}
    {costs : FinMap Op Gas} :
    ga.useGas multiplier op costs = .ok ga' ↔ 0 ≤ multiplier ∧
      ((costs.lookup op = none ∧ ga' = ga) ∨
        ∃ c, costs.lookup op = some c ∧
          ga.usedGas.toNat + (c * multiplier.toNat.toUInt64).toNat ≤ ga.maxUsedGas.toNat ∧
          ga' = { ga with usedGas := ga.usedGas + c * multiplier.toNat.toUInt64 }) := by
  unfold useGas
  by_cases hneg : multiplier < 0
  · simp only [hneg, if_true, reduceCtorEq, false_iff, not_and]
    omega
  rw [if_neg hneg]
  have hm : 0 ≤ multiplier := by omega
  cases hop : costs.lookup op with
  | none => simp [hm, eq_comm]
  | some c =>
    simp only [hm, true_and, reduceCtorEq, false_and, false_or, Option.some.injEq,
      exists_eq_left']
    generalize c * multiplier.toNat.toUInt64 = amount
    have hmax := ga.maxUsedGas.toNat_lt
    by_cases hover : 0xffffffffffffffff - ga.usedGas < amount
    · rw [if_pos hover]
      rw [overflow_check_iff] at hover
      simp only [reduceCtorEq, false_iff, not_and]
      intro hle
      omega
    rw [if_neg hover]
    rw [overflow_check_iff] at hover
    have hsum : (ga.usedGas + amount).toNat = ga.usedGas.toNat + amount.toNat := by
      rw [UInt64.toNat_add]
      omega
    by_cases hout : ga.usedGas + amount > ga.maxUsedGas
    · rw [if_pos hout]
      rw [gt_iff_lt, UInt64.lt_iff_toNat_lt, hsum] at hout
      simp only [reduceCtorEq, false_iff, not_and]
      intro hle
      omega
    · rw [if_neg hout]
      rw [gt_iff_lt, UInt64.lt_iff_toNat_lt, hsum] at hout
      rw [Except.ok.injEq]
      constructor
      · rintro rfl
        exact ⟨by omega, rfl⟩
      · rintro ⟨-, rfl⟩
        rfl

/-- `UseGas` never takes the gas used past the limit. -/
theorem Within.useGas {ga ga' : BasicGasAccountant} {multiplier : ℤ} {op : Op}
    {costs : FinMap Op Gas} (hga : ga.Within) (h : ga.useGas multiplier op costs = .ok ga') :
    ga'.Within := by
  obtain ⟨-, ⟨-, rfl⟩ | ⟨c, -, hle, rfl⟩⟩ := useGas_eq_ok.mp h
  · exact hga
  · unfold Within
    have hmax := ga.maxUsedGas.toNat_lt
    rw [UInt64.toNat_add]
    dsimp only
    omega

/-- Where the product does not wrap, `UseGas` accepts exactly the operations whose cost,
in unbounded integers, fits under the limit. -/
theorem useGas_eq_ok_iff_of_no_wrap {ga : BasicGasAccountant} {multiplier : ℤ} {op : Op}
    {costs : FinMap Op Gas} {c : Gas} (hm : 0 ≤ multiplier) (hc : costs.lookup op = some c)
    (hwrap : c.toNat * multiplier.toNat < 2 ^ 64) :
    (∃ ga', ga.useGas multiplier op costs = .ok ga') ↔
      ga.usedGas.toNat + c.toNat * multiplier.toNat ≤ ga.maxUsedGas.toNat := by
  have hprod : (c * multiplier.toNat.toUInt64).toNat = c.toNat * multiplier.toNat := by
    rw [UInt64.toNat_mul, Nat.toUInt64_eq, UInt64.toNat_ofNat']
    rcases Nat.eq_zero_or_pos c.toNat with h0 | hpos
    · simp [h0]
    · have hm64 : multiplier.toNat < 2 ^ 64 :=
        lt_of_le_of_lt (Nat.le_mul_of_pos_left _ hpos) hwrap
      rw [Nat.mod_eq_of_lt hm64, Nat.mod_eq_of_lt hwrap]
  constructor
  · rintro ⟨ga', h⟩
    obtain ⟨-, ⟨hnone, -⟩ | ⟨c', hc', hle, -⟩⟩ := useGas_eq_ok.mp h
    · rw [hc] at hnone
      cases hnone
    · rw [hc] at hc'
      cases hc'
      rwa [hprod] at hle
  · intro hle
    exact ⟨_, useGas_eq_ok.mpr ⟨hm, .inr ⟨c, hc, by rwa [hprod], rfl⟩⟩⟩

/-- A fresh accountant with a limit of 10 accepts an operation that costs `2^63` at a
multiplier of 2, which exceeds the limit in unbounded integers: the product wraps to 0
and nothing is charged. -/
theorem useGas_wrapped_product_accepted :
    (newGasAccountant 10).useGas 2 "transfer" (FinMap.empty.set "transfer" 0x8000000000000000) =
        .ok (newGasAccountant 10) ∧
      (newGasAccountant 10).maxUsedGas.toNat <
        (newGasAccountant 10).usedGas.toNat + (0x8000000000000000 : Gas).toNat * (2 : ℤ).toNat :=
  ⟨rfl, by decide⟩

end BasicGasAccountant

end Consensus

end OasisCore
