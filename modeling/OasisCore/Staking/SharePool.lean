import Mathlib.Data.Nat.Notation
import OasisCore.Misc.Except

/-!
# Quantities and share pools

`go/common/quantity/quantity.go` and the `SharePool` of `go/staking/api/api.go:602-720`.

A `Quantity` is an arbitrary precision unsigned integer, so it is `ℕ` here; its
operations that can fail (`Sub`, `Quo`, `Move`) return `Except`. A Go operation
that mutates several quantities through pointers returns their new values as a
tuple, in the order of the Go parameters.

A share pool is an escrow balance owned jointly by delegators, whose parts are
tracked as shares. `Deposit` mints shares at the pool's exchange rate with floor
rounding, `Withdraw` burns shares for their floor value. The lemmas give one exact
characterisation of a successful deposit and withdrawal, and the fact that keeps
a pool sound: a pool without shares holds no stake (`SharePool.Consistent`).
-/

namespace OasisCore

/-- The sentinel errors of `quantity.go:10-20`. -/
inductive QuantityError where
  | invalidQuantity
  | insufficientBalance
  | invalidAccount
  deriving DecidableEq, Repr

namespace Quantity

/-- `Quantity.Sub` (`quantity.go:122-135`): subtracts exactly `n`, failing on
underflow. -/
def sub (q n : ℕ) : Except QuantityError ℕ :=
  if q < n then .error .insufficientBalance else .ok (q - n)

/-- `Quantity.SubUpTo` (`quantity.go:137-155`): subtracts up to `n`; the amount
subtracted and the new value. -/
def subUpTo (q n : ℕ) : ℕ × ℕ :=
  let amount := if q < n then q else n
  (amount, q - amount)

/-- `Quantity.Quo` (`quantity.go:168-176`): integer division, failing on a zero
divisor. -/
def quo (q n : ℕ) : Except QuantityError ℕ :=
  if n = 0 then .error .invalidQuantity else .ok (q / n)

/-- `quantity.Move` (`quantity.go:218-232`): moves exactly `n` from `src` to `dst`;
the new `dst` and `src`. -/
def move (dst src n : ℕ) : Except QuantityError (ℕ × ℕ) := do
  let src' ← sub src n
  pure (dst + n, src')

/-- `quantity.MoveUpTo` (`quantity.go:234-246`): moves up to `n` from `src` to `dst`;
the new `dst`, the new `src` and the amount moved. -/
def moveUpTo (dst src n : ℕ) : ℕ × ℕ × ℕ :=
  ((dst + (subUpTo src n).1), (subUpTo src n).2, (subUpTo src n).1)

theorem sub_eq_ok {q n r : ℕ} : sub q n = .ok r ↔ n ≤ q ∧ r = q - n := by
  unfold sub
  by_cases h : q < n
  · simp only [h, if_true, reduceCtorEq, false_iff, not_and]
    omega
  · simp only [h, if_false, Except.ok.injEq]
    omega

theorem quo_eq_ok {q n r : ℕ} : quo q n = .ok r ↔ n ≠ 0 ∧ r = q / n := by
  unfold quo
  by_cases h : n = 0
  · simp [h]
  · simp [h, eq_comm]

theorem move_eq_ok {dst src n d s : ℕ} :
    move dst src n = .ok (d, s) ↔ n ≤ src ∧ d = dst + n ∧ s = src - n := by
  simp only [move, Except.bind_eq_ok, sub_eq_ok, Except.pure_eq_ok, Prod.mk.injEq]
  constructor
  · rintro ⟨r, ⟨hn, rfl⟩, rfl, rfl⟩
    exact ⟨hn, rfl, rfl⟩
  · rintro ⟨hn, rfl, rfl⟩
    exact ⟨src - n, ⟨hn, rfl⟩, rfl, rfl⟩

theorem move_eq_error {dst src n : ℕ} {e : QuantityError} :
    move dst src n = .error e → src < n := by
  unfold move sub
  by_cases h : src < n
  · intro _
    exact h
  · simp [h, bind, Except.bind, pure, Except.pure]

/-- What `MoveUpTo` moves is what `src` can give. -/
theorem moveUpTo_amount (dst src n : ℕ) : (moveUpTo dst src n).2.2 = min src n := by
  simp only [moveUpTo, subUpTo]
  split <;> omega

/-- `MoveUpTo` conserves the sum of its two operands. -/
theorem moveUpTo_conserves (dst src n : ℕ) :
    (moveUpTo dst src n).1 + (moveUpTo dst src n).2.1 = dst + src := by
  simp only [moveUpTo, subUpTo]
  split <;> omega

theorem moveUpTo_dst (dst src n : ℕ) :
    (moveUpTo dst src n).1 = dst + (moveUpTo dst src n).2.2 := rfl

theorem moveUpTo_src (dst src n : ℕ) :
    (moveUpTo dst src n).2.1 = src - (moveUpTo dst src n).2.2 := rfl

end Quantity

namespace Staking

/-- The sentinel errors of the staking API (`go/staking/api/api.go:27-72`). A Go
error that wraps one of them with `fmt.Errorf("...: %w", err)` is modelled by the
error it wraps; `quantity` carries an unwrapped error of the quantity package. -/
inductive StakingError where
  | invalidArgument
  | invalidSignature
  | insufficientBalance
  | insufficientStake
  | forbidden
  | invalidThreshold
  | tooManyAllowances
  | underMinDelegationAmount
  | underMinTransferAmount
  | balanceTooLow
  | allowanceGreaterThanSupply
  | quantity (e : QuantityError)
  deriving DecidableEq, Repr

/-- `SharePool` (`api.go:602-607`). -/
structure SharePool where
  balance : ℕ
  totalShares : ℕ
  deriving DecidableEq, Repr

namespace SharePool

/-- `SharePool.sharesForStake` (`api.go:626-652`): shares minted for `amount` base
units; one to one in a pool without shares, impossible in a pool with shares but no
balance. -/
def sharesForStake (p : SharePool) (amount : ℕ) : Except StakingError ℕ :=
  if p.totalShares = 0 then .ok amount
  else if p.balance = 0 then .error .invalidArgument
  else .ok (amount * p.totalShares / p.balance)

/-- `SharePool.Deposit` (`api.go:654-681`): moves `amount` from `stakeSrc` into the
pool and credits the minted shares to `shareDst`. The new pool, `shareDst`,
`stakeSrc`, and the number of minted shares. -/
def deposit (p : SharePool) (shareDst stakeSrc amount : ℕ) :
    Except StakingError (SharePool × ℕ × ℕ × ℕ) := do
  let shares ← p.sharesForStake amount
  let (balance, src) ← (Quantity.move p.balance stakeSrc amount).mapError .quantity
  pure (⟨balance, p.totalShares + shares⟩, shareDst + shares, src, shares)

/-- `SharePool.StakeForShares` (`api.go:683-703`): the floor value of `amount`
shares. Its Go error results come from `Quo` by `TotalShares`, which the guard
makes non-zero, so the model is total. -/
def stakeForShares (p : SharePool) (amount : ℕ) : ℕ :=
  if amount = 0 ∨ p.balance = 0 ∨ p.totalShares = 0 then 0
  else amount * p.balance / p.totalShares

/-- `SharePool.Withdraw` (`api.go:705-720`): burns `shareAmount` shares taken from
`shareSrc` and moves their value to `stakeDst`. The new pool, `stakeDst` and
`shareSrc`. -/
def withdraw (p : SharePool) (stakeDst shareSrc shareAmount : ℕ) :
    Except StakingError (SharePool × ℕ × ℕ) := do
  let baseUnits := p.stakeForShares shareAmount
  let src ← (Quantity.sub shareSrc shareAmount).mapError .quantity
  let total ← (Quantity.sub p.totalShares shareAmount).mapError .quantity
  let (dst, balance) ← (Quantity.move stakeDst p.balance baseUnits).mapError .quantity
  pure (⟨balance, total⟩, dst, src)

/-- A pool without shares holds no stake. Every successful deposit and withdrawal
keeps this; it is what makes "no delegations, no balance" an invariant. -/
def Consistent (p : SharePool) : Prop := p.totalShares = 0 → p.balance = 0

instance (p : SharePool) : Decidable p.Consistent :=
  inferInstanceAs (Decidable (p.totalShares = 0 → p.balance = 0))

theorem sharesForStake_eq_ok {p : SharePool} {amount shares : ℕ} :
    p.sharesForStake amount = .ok shares ↔
      (p.totalShares = 0 ∧ shares = amount) ∨
      (p.totalShares ≠ 0 ∧ p.balance ≠ 0 ∧ shares = amount * p.totalShares / p.balance) := by
  unfold sharesForStake
  by_cases ht : p.totalShares = 0
  · simp [ht, eq_comm]
  · by_cases hb : p.balance = 0 <;> simp [ht, hb, eq_comm]

/-- Shares can be minted into a pool without shares or with a balance. -/
theorem sharesForStake_exists {p : SharePool} (hp : p.totalShares = 0 ∨ p.balance ≠ 0)
    (amount : ℕ) : ∃ shares, p.sharesForStake amount = .ok shares := by
  rcases hp with hp | hp
  · exact ⟨amount, sharesForStake_eq_ok.mpr (.inl ⟨hp, rfl⟩)⟩
  · by_cases ht : p.totalShares = 0
    · exact ⟨amount, sharesForStake_eq_ok.mpr (.inl ⟨ht, rfl⟩)⟩
    · exact ⟨_, sharesForStake_eq_ok.mpr (.inr ⟨ht, hp, rfl⟩)⟩

/-- A successful deposit, exactly. -/
theorem deposit_eq_ok {p p' : SharePool} {shareDst stakeSrc amount dst src shares : ℕ} :
    p.deposit shareDst stakeSrc amount = .ok (p', dst, src, shares) ↔
      p.sharesForStake amount = .ok shares ∧ amount ≤ stakeSrc ∧
      p' = ⟨p.balance + amount, p.totalShares + shares⟩ ∧
      dst = shareDst + shares ∧ src = stakeSrc - amount := by
  simp only [deposit, Except.bind_eq_ok, Except.mapError_eq_ok, Except.pure_eq_ok, Prod.exists]
  constructor
  · rintro ⟨sh, hsh, b, s, hmove, heq⟩
    obtain ⟨hle, rfl, rfl⟩ := Quantity.move_eq_ok.mp hmove
    simp only [Prod.mk.injEq] at heq
    obtain ⟨rfl, rfl, rfl, rfl⟩ := heq
    exact ⟨hsh, hle, rfl, rfl, rfl⟩
  · rintro ⟨hsh, hle, rfl, rfl, rfl⟩
    exact ⟨shares, hsh, _, _, Quantity.move_eq_ok.mpr ⟨hle, rfl, rfl⟩, rfl⟩

theorem stakeForShares_le_balance (p : SharePool) {amount : ℕ} (h : amount ≤ p.totalShares) :
    p.stakeForShares amount ≤ p.balance := by
  unfold stakeForShares
  split
  · exact Nat.zero_le _
  · rename_i hz
    have hT : 0 < p.totalShares := by omega
    calc amount * p.balance / p.totalShares
        ≤ p.totalShares * p.balance / p.totalShares :=
          Nat.div_le_div_right (Nat.mul_le_mul_right _ h)
      _ = p.balance := by rw [Nat.mul_comm, Nat.mul_div_cancel _ hT]

/-- Burning all shares of a consistent pool pays out its whole balance. -/
theorem stakeForShares_totalShares {p : SharePool} (hp : p.Consistent) :
    p.stakeForShares p.totalShares = p.balance := by
  unfold stakeForShares
  by_cases ht : p.totalShares = 0
  · simp [ht, hp ht]
  · by_cases hb : p.balance = 0
    · simp [hb]
    · simp only [ht, hb, or_self, if_false]
      rw [Nat.mul_comm, Nat.mul_div_cancel _ (Nat.pos_of_ne_zero ht)]

@[simp] theorem stakeForShares_zero (p : SharePool) : p.stakeForShares 0 = 0 := by
  simp [stakeForShares]

/-- Valuing two amounts of shares apart rounds down at least as much as valuing
them together. -/
theorem stakeForShares_add_le (p : SharePool) (a b : ℕ) :
    p.stakeForShares a + p.stakeForShares b ≤ p.stakeForShares (a + b) := by
  by_cases ha : a = 0
  · simp [ha]
  by_cases hb : b = 0
  · simp [hb]
  unfold stakeForShares
  by_cases hpool : p.balance = 0 ∨ p.totalShares = 0
  · simp [hpool]
  have hab : ¬ (a + b = 0 ∨ p.balance = 0 ∨ p.totalShares = 0) := by omega
  rw [if_neg (by omega), if_neg (by omega), if_neg hab, Nat.add_mul]
  exact Nat.div_add_div_le_add_div

/-- A successful withdrawal, exactly. -/
theorem withdraw_eq_ok {p p' : SharePool} {stakeDst shareSrc shareAmount dst src : ℕ} :
    p.withdraw stakeDst shareSrc shareAmount = .ok (p', dst, src) ↔
      shareAmount ≤ shareSrc ∧ shareAmount ≤ p.totalShares ∧
      p' = ⟨p.balance - p.stakeForShares shareAmount, p.totalShares - shareAmount⟩ ∧
      dst = stakeDst + p.stakeForShares shareAmount ∧ src = shareSrc - shareAmount := by
  simp only [withdraw, Except.bind_eq_ok, Except.mapError_eq_ok, Except.pure_eq_ok, Prod.exists,
    Quantity.sub_eq_ok]
  constructor
  · rintro ⟨s, ⟨hs, rfl⟩, t, ⟨ht, rfl⟩, d, b, hmove, heq⟩
    obtain ⟨_, rfl, rfl⟩ := Quantity.move_eq_ok.mp hmove
    simp only [Prod.mk.injEq] at heq
    obtain ⟨rfl, rfl, rfl⟩ := heq
    exact ⟨hs, ht, rfl, rfl, rfl⟩
  · rintro ⟨hs, ht, rfl, rfl, rfl⟩
    have hle := p.stakeForShares_le_balance ht
    exact ⟨_, ⟨hs, rfl⟩, _, ⟨ht, rfl⟩, _, _, Quantity.move_eq_ok.mpr ⟨hle, rfl, rfl⟩, rfl⟩

/-- A deposit keeps a pool consistent: into an empty pool shares are minted one to
one. -/
theorem Consistent.deposit {p p' : SharePool} {shareDst stakeSrc amount dst src shares : ℕ}
    (hp : p.Consistent) (h : p.deposit shareDst stakeSrc amount = .ok (p', dst, src, shares)) :
    p'.Consistent := by
  obtain ⟨hsh, -, rfl, -, -⟩ := deposit_eq_ok.mp h
  intro ht
  rcases sharesForStake_eq_ok.mp hsh with ⟨h0, rfl⟩ | ⟨h0, -, -⟩
  · simp only at ht ⊢
    have := hp h0
    omega
  · simp only at ht
    omega

/-- A withdrawal keeps a pool consistent: burning the last shares pays out the
whole balance. -/
theorem Consistent.withdraw {p p' : SharePool} {stakeDst shareSrc shareAmount dst src : ℕ}
    (hp : p.Consistent) (h : p.withdraw stakeDst shareSrc shareAmount = .ok (p', dst, src)) :
    p'.Consistent := by
  obtain ⟨-, hle, rfl, -, -⟩ := withdraw_eq_ok.mp h
  intro ht
  simp only at ht ⊢
  have hall : shareAmount = p.totalShares := by omega
  rw [hall, stakeForShares_totalShares hp]
  omega

/-- Taking stake out of a pool without touching its shares keeps it consistent. -/
theorem Consistent.of_balance_le {p : SharePool} (hp : p.Consistent) (b : ℕ)
    (hb : b ≤ p.balance) : (⟨b, p.totalShares⟩ : SharePool).Consistent := by
  intro ht
  have := hp ht
  simp only at this ⊢
  omega

/-! ## The exchange rate

The rate of a pool is `Balance / TotalShares`; `p.balance * p'.totalShares ≤
p'.balance * p.totalShares` says, without dividing, that `p'` pays at least as much per
share as `p`. Both operations round against the one who calls them, so neither lowers
the rate. -/

/-- The shares minted for `amount` are worth at most `amount` at the old rate. -/
theorem sharesForStake_mul_le {p : SharePool} {amount shares : ℕ}
    (h : p.sharesForStake amount = .ok shares) (hp : p.Consistent) :
    p.balance * shares ≤ amount * p.totalShares := by
  rcases sharesForStake_eq_ok.mp h with ⟨h0, rfl⟩ | ⟨-, -, rfl⟩
  · rw [hp h0]
    simp
  · exact Nat.mul_div_le _ _

/-- The stake paid for `amount` shares is worth at most those shares at the rate. -/
theorem stakeForShares_mul_le (p : SharePool) (amount : ℕ) :
    p.stakeForShares amount * p.totalShares ≤ amount * p.balance := by
  unfold stakeForShares
  split
  · simp
  · exact Nat.div_mul_le_self _ _

theorem deposit_rate {p p' : SharePool} {shareDst stakeSrc amount dst src shares : ℕ}
    (hp : p.Consistent) (h : p.deposit shareDst stakeSrc amount = .ok (p', dst, src, shares)) :
    p.balance * p'.totalShares ≤ p'.balance * p.totalShares := by
  obtain ⟨hsh, -, rfl, -, -⟩ := deposit_eq_ok.mp h
  have hle := sharesForStake_mul_le hsh hp
  simp only [Nat.mul_add, Nat.add_mul]
  omega

theorem withdraw_rate {p p' : SharePool} {stakeDst shareSrc shareAmount dst src : ℕ}
    (h : p.withdraw stakeDst shareSrc shareAmount = .ok (p', dst, src)) :
    p.balance * p'.totalShares ≤ p'.balance * p.totalShares := by
  obtain ⟨-, hle, rfl, -, -⟩ := withdraw_eq_ok.mp h
  have hpaid := p.stakeForShares_mul_le shareAmount
  have hshares : p.balance * shareAmount ≤ p.balance * p.totalShares := Nat.mul_le_mul_left _ hle
  simp only [Nat.mul_sub, Nat.sub_mul]
  rw [Nat.mul_comm shareAmount] at hpaid
  omega

/-- At a rate at least as high, the same shares are worth at least as much, as long as
the new pool has that many shares. -/
theorem stakeForShares_le_of_rate {p p' : SharePool} (hrate : p.balance * p'.totalShares ≤
    p'.balance * p.totalShares) {x : ℕ} (hx : x ≤ p'.totalShares) :
    p.stakeForShares x ≤ p'.stakeForShares x := by
  unfold stakeForShares
  by_cases hz : x = 0 ∨ p.balance = 0 ∨ p.totalShares = 0
  · rw [if_pos hz]
    exact Nat.zero_le _
  rw [if_neg hz]
  have hT' : 0 < p'.totalShares := by omega
  have hB' : p'.balance ≠ 0 := by
    rintro hB'
    rw [hB', Nat.zero_mul] at hrate
    have := Nat.eq_zero_of_le_zero hrate
    simp only [Nat.mul_eq_zero] at this
    omega
  rw [if_neg (by omega), Nat.le_div_iff_mul_le hT']
  calc x * p.balance / p.totalShares * p'.totalShares
      = p'.totalShares * (x * p.balance / p.totalShares) := Nat.mul_comm _ _
    _ ≤ p'.totalShares * (x * p.balance) / p.totalShares := Nat.mul_div_le_mul_div_assoc _ _ _
    _ ≤ x * p'.balance * p.totalShares / p.totalShares := by
        apply Nat.div_le_div_right
        rw [Nat.mul_comm, Nat.mul_assoc, Nat.mul_assoc]
        exact Nat.mul_le_mul_left _ hrate
    _ = x * p'.balance := Nat.mul_div_cancel _ (by omega)

/-- The shares a deposit of `amount` mints are worth at most `amount` in the pool the
deposit leaves. -/
theorem stakeForShares_deposit_le {p p' : SharePool} {shareDst stakeSrc amount dst src shares : ℕ}
    (hp : p.Consistent) (h : p.deposit shareDst stakeSrc amount = .ok (p', dst, src, shares)) :
    p'.stakeForShares shares ≤ amount := by
  obtain ⟨hsh, -, rfl, -, -⟩ := deposit_eq_ok.mp h
  have hle := sharesForStake_mul_le hsh hp
  unfold stakeForShares
  split
  · exact Nat.zero_le _
  · apply Nat.div_le_of_le_mul
    simp only [Nat.mul_add, Nat.add_mul]
    rw [Nat.mul_comm shares p.balance, Nat.mul_comm p.totalShares amount]
    omega

/-- The share pool's exchange rate never falls: a successful deposit and a successful
withdrawal from a consistent pool conserve value, do not lower the rate, so leave every
other holder's shares worth at least as much, and the shares a deposit mints pay back at
most the deposit. -/
theorem exchangeRate_never_falls {p : SharePool} (hp : p.Consistent) :
    (∀ {shareDst stakeSrc amount p' dst src shares},
      p.deposit shareDst stakeSrc amount = .ok (p', dst, src, shares) →
        p'.balance + src = p.balance + stakeSrc ∧
        p.balance * p'.totalShares ≤ p'.balance * p.totalShares ∧
        (∀ x ≤ p'.totalShares, p.stakeForShares x ≤ p'.stakeForShares x) ∧
        ∀ {stakeDst shareSrc p'' dst' src'},
          p'.withdraw stakeDst shareSrc shares = .ok (p'', dst', src') → dst' ≤ stakeDst + amount) ∧
    (∀ {stakeDst shareSrc shareAmount p' dst src},
      p.withdraw stakeDst shareSrc shareAmount = .ok (p', dst, src) →
        p'.balance + dst = p.balance + stakeDst ∧
        p.balance * p'.totalShares ≤ p'.balance * p.totalShares ∧
        ∀ x ≤ p'.totalShares, p.stakeForShares x ≤ p'.stakeForShares x) := by
  constructor
  · intro shareDst stakeSrc amount p' dst src shares h
    have hrate := deposit_rate hp h
    refine ⟨?_, hrate, fun x hx => stakeForShares_le_of_rate hrate hx, ?_⟩
    · obtain ⟨-, hle, rfl, -, rfl⟩ := deposit_eq_ok.mp h
      simp only
      omega
    · intro stakeDst shareSrc p'' dst' src' hw
      obtain ⟨-, -, -, rfl, -⟩ := withdraw_eq_ok.mp hw
      have := stakeForShares_deposit_le hp h
      omega
  · intro stakeDst shareSrc shareAmount p' dst src h
    have hrate := withdraw_rate h
    refine ⟨?_, hrate, fun x hx => stakeForShares_le_of_rate hrate hx⟩
    obtain ⟨-, hle, rfl, rfl, -⟩ := withdraw_eq_ok.mp h
    have := p.stakeForShares_le_balance hle
    simp only
    omega

/-- A deposit of 30 into a pool of 100 in 50 shares mints 15 shares, and the rate is
kept. -/
theorem exchangeRate_deposit_thirty :
    (⟨100, 50⟩ : SharePool).deposit 0 40 30 = .ok (⟨130, 65⟩, 15, 10, 15) ∧
      (100 * 65 ≤ 130 * 50) := by
  have hdeposit : (⟨100, 50⟩ : SharePool).deposit 0 40 30 = .ok (⟨130, 65⟩, 15, 10, 15) := rfl
  exact ⟨hdeposit, ((exchangeRate_never_falls (p := ⟨100, 50⟩) (by decide)).1 hdeposit).2.1⟩

end SharePool

end Staking

end OasisCore
