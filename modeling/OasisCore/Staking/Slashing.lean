import OasisCore.Staking.Rewards

/-!
# Slashing

`SlashEscrow` (`go/consensus/cometbft/apps/staking/state/state.go:789-855`) takes a penalty
from the escrow of an account into the common pool. The active and the debonding pool each
give their part of the penalty by their balance (`slashPool`, `state.go:768-787`), or all
they hold if that is less. The shares stay, so every (debonding) delegation to the account
loses in proportion.

`SlashEscrow` never fails. It takes at most the penalty and at most the escrow, and all of
the escrow when the penalty is at least that. All of it goes into the common pool. Only the
two pools of the account change (`slashEscrow_spec`).

Quantities are natural numbers. So the Go multiplications and additions, which fail only
on negative operands, never fail here, and neither does `MoveUpTo`. The events are not
modelled.
-/

namespace OasisCore

namespace Staking

/-- The errors of `slashPool`. -/
inductive SlashPoolError where
  /-- "cometbft/staking: slashAmount.Quo: %w". -/
  | slashAmountQuo (e : QuantityError)
  deriving DecidableEq, Repr

/-- The errors of `SlashEscrow`. -/
inductive SlashEscrowError where
  /-- "cometbft/staking: failed slashing active escrow: %w". -/
  | activeEscrow (e : SlashPoolError)
  /-- "cometbft/staking: failed slashing debonding escrow: %w". -/
  | debondingEscrow (e : SlashPoolError)
  /-- "cometbft/staking: failed moving stake to common pool: %w". -/
  | commonPool (e : QuantityError)
  deriving DecidableEq, Repr

/-- `slashPool` (`state.go:768-787`): moves up to `amount * p.Balance / total` from the
pool's balance to `dst`; nothing when `total` is zero. The new `dst` and pool. -/
def slashPool (dst : ℕ) (p : SharePool) (amount total : ℕ) :
    Except SlashPoolError (ℕ × SharePool) :=
  if total = 0 then pure (dst, p)
  else do
    let slashAmount ← (Quantity.quo (p.balance * amount) total).mapError .slashAmountQuo
    let (dst, balance, _) := Quantity.moveUpTo dst p.balance slashAmount
    pure (dst, { p with balance })

/-- What `slashPool` takes from `p`: its part of the penalty, or all it holds if that is
less. A zero `total` takes nothing, as `x / 0 = 0`. -/
def slashedFrom (p : SharePool) (amount total : ℕ) : ℕ :=
  min p.balance (p.balance * amount / total)

theorem slashPool_eq (dst : ℕ) (p : SharePool) (amount total : ℕ) :
    slashPool dst p amount total = .ok (dst + slashedFrom p amount total,
      { p with balance := p.balance - slashedFrom p amount total }) := by
  unfold slashPool slashedFrom
  by_cases htotal : total = 0
  · subst htotal
    simp only [if_pos, Nat.div_zero, Nat.min_zero, Nat.add_zero, Nat.sub_zero]
    rfl
  · rw [if_neg htotal, Quantity.quo, if_neg htotal, Except.mapError_ok, Except.ok_bind,
      StakingState.moveUpTo_eq]
    rfl

theorem slashedFrom_le_balance (p : SharePool) (amount total : ℕ) :
    slashedFrom p amount total ≤ p.balance :=
  Nat.min_le_left _ _

/-- The parts of the penalty the two pools give add up to at most the penalty: the floors
of `amount * a / (a + d)` and `amount * d / (a + d)` add up to at most `amount`. -/
theorem slashedFrom_add_le (p q : SharePool) (amount : ℕ) :
    slashedFrom p amount (p.balance + q.balance) + slashedFrom q amount (p.balance + q.balance) ≤
      amount := by
  by_cases htotal : p.balance + q.balance = 0
  · simp [slashedFrom, htotal]
  have hfloor : p.balance * amount / (p.balance + q.balance) +
      q.balance * amount / (p.balance + q.balance) ≤
        (p.balance * amount + q.balance * amount) / (p.balance + q.balance) :=
    Nat.div_add_div_le_add_div
  rw [← Nat.add_mul, Nat.mul_div_cancel_left _ (Nat.pos_of_ne_zero htotal)] at hfloor
  have hp : slashedFrom p amount (p.balance + q.balance) ≤
      p.balance * amount / (p.balance + q.balance) := Nat.min_le_right _ _
  have hq : slashedFrom q amount (p.balance + q.balance) ≤
      q.balance * amount / (p.balance + q.balance) := Nat.min_le_right _ _
  omega

/-- A penalty of at least `total` takes all a pool holds. -/
theorem slashedFrom_of_le {p : SharePool} {amount total : ℕ} (hle : total ≤ amount)
    (hbalance : p.balance ≤ total) : slashedFrom p amount total = p.balance := by
  unfold slashedFrom
  by_cases htotal : total = 0
  · simp [htotal] at hbalance
    simp [hbalance]
  apply Nat.min_eq_left
  rw [Nat.le_div_iff_mul_le (Nat.pos_of_ne_zero htotal)]
  exact Nat.mul_le_mul_left _ hle

namespace StakingState

variable {Addr : Type} [DecidableEq Addr]

/-- `SlashEscrow` (`state.go:789-855`): slashes `amount` from the active and debonding
escrow of `fromAddr`, split by their balances, into the common pool. The state and the
amount slashed. -/
def slashEscrow (s : StakingState Addr) (fromAddr : Addr) (amount : ℕ) :
    Except SlashEscrowError (StakingState Addr × ℕ) := do
  let fromAccount := s.accounts.get fromAddr
  let total := fromAccount.escrow.active.balance + fromAccount.escrow.debonding.balance
  let (activeSlashed, active) ←
    (slashPool 0 fromAccount.escrow.active amount total).mapError .activeEscrow
  let (debondingSlashed, debonding) ←
    (slashPool 0 fromAccount.escrow.debonding amount total).mapError .debondingEscrow
  let totalSlashed := activeSlashed + debondingSlashed
  -- Nothing was slashed.
  if totalSlashed = 0 then pure (s, totalSlashed)
  else do
    let (commonPool, _) ←
      (Quantity.move s.commonPool totalSlashed totalSlashed).mapError .commonPool
    pure ({ s.setAccount fromAddr { fromAccount with
      escrow := { fromAccount.escrow with active, debonding } } with commonPool }, totalSlashed)

/-- `SlashEscrow` succeeds: each pool of the account gives what `slashedFrom` says, and
that goes into the common pool; nothing else changes. -/
theorem slashEscrow_eq_ok (s : StakingState Addr) (fromAddr : Addr) (amount : ℕ) :
    ∃ s', s.slashEscrow fromAddr amount = .ok (s',
        slashedFrom (s.accounts.get fromAddr).escrow.active amount
          ((s.accounts.get fromAddr).escrow.active.balance +
            (s.accounts.get fromAddr).escrow.debonding.balance) +
        slashedFrom (s.accounts.get fromAddr).escrow.debonding amount
          ((s.accounts.get fromAddr).escrow.active.balance +
            (s.accounts.get fromAddr).escrow.debonding.balance)) ∧
      (∀ addr, s'.accounts.get addr = if addr = fromAddr then
        { s.accounts.get fromAddr with escrow := { (s.accounts.get fromAddr).escrow with
          active := { (s.accounts.get fromAddr).escrow.active with
            balance := (s.accounts.get fromAddr).escrow.active.balance -
              slashedFrom (s.accounts.get fromAddr).escrow.active amount
                ((s.accounts.get fromAddr).escrow.active.balance +
                  (s.accounts.get fromAddr).escrow.debonding.balance) }
          debonding := { (s.accounts.get fromAddr).escrow.debonding with
            balance := (s.accounts.get fromAddr).escrow.debonding.balance -
              slashedFrom (s.accounts.get fromAddr).escrow.debonding amount
                ((s.accounts.get fromAddr).escrow.active.balance +
                  (s.accounts.get fromAddr).escrow.debonding.balance) } } }
        else s.accounts.get addr) ∧
      s'.commonPool = s.commonPool +
        (slashedFrom (s.accounts.get fromAddr).escrow.active amount
          ((s.accounts.get fromAddr).escrow.active.balance +
            (s.accounts.get fromAddr).escrow.debonding.balance) +
        slashedFrom (s.accounts.get fromAddr).escrow.debonding amount
          ((s.accounts.get fromAddr).escrow.active.balance +
            (s.accounts.get fromAddr).escrow.debonding.balance)) ∧
      s'.accountBalances + s'.commonPool = s.accountBalances + s.commonPool ∧
      s' = { s with accounts := s'.accounts, commonPool := s'.commonPool } := by
  set a := s.accounts.get fromAddr with ha
  set x := slashedFrom a.escrow.active amount (a.escrow.active.balance + a.escrow.debonding.balance)
  set y := slashedFrom a.escrow.debonding amount
    (a.escrow.active.balance + a.escrow.debonding.balance)
  have hx : x ≤ a.escrow.active.balance := slashedFrom_le_balance _ _ _
  have hy : y ≤ a.escrow.debonding.balance := slashedFrom_le_balance _ _ _
  -- The account with what its pools gave taken out.
  set a' : Account Addr := { a with escrow := { a.escrow with
    active := { a.escrow.active with balance := a.escrow.active.balance - x }
    debonding := { a.escrow.debonding with balance := a.escrow.debonding.balance - y } } }
  have hslash : s.slashEscrow fromAddr amount = .ok (if x + y = 0 then s else
      { s.setAccount fromAddr a' with commonPool := s.commonPool + (x + y) }, x + y) := by
    unfold slashEscrow
    dsimp only
    rw [← ha, slashPool_eq, Except.mapError_ok, Except.ok_bind, slashPool_eq, Except.mapError_ok,
      Except.ok_bind]
    simp only [Nat.zero_add]
    split_ifs with hzero
    · rfl
    · rw [Quantity.move_eq_ok.mpr ⟨le_rfl, rfl, rfl⟩, Except.mapError_ok, Except.ok_bind]
      rfl
  refine ⟨_, hslash, ?_⟩
  by_cases hzero : x + y = 0
  · -- Nothing was slashed: the state is kept.
    have hx0 : x = 0 := by omega
    have hy0 : y = 0 := by omega
    rw [if_pos hzero]
    refine ⟨fun addr => ?_, by omega, rfl, rfl⟩
    split_ifs with haddr
    · rw [haddr]
      show a = a'
      simp only [a', hx0, hy0, Nat.sub_zero]
    · rfl
  · rw [if_neg hzero]
    have hset := accountBalances_setAccount s fromAddr a'
    rw [← ha] at hset
    have hactive : a'.escrow.active.balance = a.escrow.active.balance - x := rfl
    have hdebonding : a'.escrow.debonding.balance = a.escrow.debonding.balance - y := rfl
    have hgeneral : a'.general.balance = a.general.balance := rfl
    refine ⟨fun addr => by simp only [accounts_setAccount, FinMap.get_set], rfl, ?_, rfl⟩
    show (s.setAccount fromAddr a').accountBalances + (s.commonPool + (x + y)) = _
    omega

/-- `SlashEscrow` never fails. Each escrow pool of the account gives the penalty times its
balance over the whole escrow, or all it holds if that is less. So the account loses at most
the penalty, and all of its escrow when the penalty is at least that. What is slashed goes
into the common pool, which with the balances of the accounts keeps its total. Only the
balances of the two pools of the account change: their shares, its general account and
every other account stay. -/
theorem slashEscrow_spec (s : StakingState Addr) (fromAddr : Addr) (amount : ℕ) :
    ∃ s' activeSlashed debondingSlashed,
      s.slashEscrow fromAddr amount = .ok (s', activeSlashed + debondingSlashed) ∧
      activeSlashed = slashedFrom (s.accounts.get fromAddr).escrow.active amount
        ((s.accounts.get fromAddr).escrow.active.balance +
          (s.accounts.get fromAddr).escrow.debonding.balance) ∧
      debondingSlashed = slashedFrom (s.accounts.get fromAddr).escrow.debonding amount
        ((s.accounts.get fromAddr).escrow.active.balance +
          (s.accounts.get fromAddr).escrow.debonding.balance) ∧
      activeSlashed + debondingSlashed ≤ amount ∧
      ((s.accounts.get fromAddr).escrow.active.balance +
          (s.accounts.get fromAddr).escrow.debonding.balance ≤ amount →
        activeSlashed + debondingSlashed = (s.accounts.get fromAddr).escrow.active.balance +
          (s.accounts.get fromAddr).escrow.debonding.balance) ∧
      (∀ addr, s'.accounts.get addr = if addr = fromAddr then
        { s.accounts.get fromAddr with escrow := { (s.accounts.get fromAddr).escrow with
          active := { (s.accounts.get fromAddr).escrow.active with
            balance := (s.accounts.get fromAddr).escrow.active.balance - activeSlashed }
          debonding := { (s.accounts.get fromAddr).escrow.debonding with
            balance := (s.accounts.get fromAddr).escrow.debonding.balance - debondingSlashed } } }
        else s.accounts.get addr) ∧
      s'.commonPool = s.commonPool + (activeSlashed + debondingSlashed) ∧
      s'.accountBalances + s'.commonPool = s.accountBalances + s.commonPool ∧
      s' = { s with accounts := s'.accounts, commonPool := s'.commonPool } := by
  obtain ⟨s', hslash, hget, hcommon, hbalances, hrest⟩ := slashEscrow_eq_ok s fromAddr amount
  refine ⟨s', _, _, hslash, rfl, rfl, slashedFrom_add_le _ _ _, fun hle => ?_, hget, hcommon,
    hbalances, hrest⟩
  rw [slashedFrom_of_le hle (Nat.le_add_right _ _), slashedFrom_of_le hle (Nat.le_add_left _ _)]

end StakingState

end Staking

end OasisCore
