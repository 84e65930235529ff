import OasisCore.Misc.Except
import OasisCore.Staking.Genesis

/-!
# Staking rewards

The reward payouts of the staking state (`go/consensus/cometbft/apps/staking/state/state.go`).
`AddRewards` and `AddRewardSingleAttenuated` compute a reward from an account's active
escrow balance, the reward factor and the scale of the reward step in effect, and pay it
out of the common pool into the active escrow: the commission, at the rate of the
account's commission schedule or at the minimum rate before any step has started, is
deposited into the account's delegation to itself, and the rest raises the value of every
share. A reward the common pool cannot cover is skipped. `TransferFromCommon` moves up to
an amount from the common pool into the general balance, and escrows it the same way when
asked.

With commission rates at most `CommissionRateDenominator`, every payout succeeds and keeps
the accounts' balances plus the common pool (`addRewards_conserves`,
`addRewardSingleAttenuated_conserves`). The attenuated reward divides by the attenuation
denominator before it looks at the reward, so with a denominator of zero it fails
whenever a reward step is in effect (`addRewardSingleAttenuated_zero_denominator`);
`rewardBlockProposing` passes the number of votes of the previous commit there.
-/

namespace OasisCore

namespace Staking

/-- The errors of the reward payouts, by the step of `state.go` that returns them. -/
inductive RewardError where
  /-- "failed dividing by reward amount denominator: %w". -/
  | rewardAmountDenominator (e : QuantityError)
  /-- "failed dividing by attenuation denominator: %w". -/
  | attenuationDenominator (e : QuantityError)
  /-- "failed dividing by commission rate denominator: %w" of `computeCommission`. -/
  | commissionRateDenominator (e : QuantityError)
  /-- "failed subtracting commission: %w" of `computeCommission`. -/
  | subtractCommission (e : QuantityError)
  /-- "failed transferring to active escrow balance from common pool: %w". -/
  | transfer (e : QuantityError)
  /-- "depositing commission: %w", "failed depositing commission: %w" and "failed to
  deposit to escrow: %w" of the commission's deposit. -/
  | deposit (e : StakingError)
  deriving DecidableEq, Repr

namespace StakingState

variable {Addr : Type} [DecidableEq Addr]

/-- The rate `computeCommission` uses: the rate in effect, or the minimum commission rate
when no rate step has started. -/
def commissionRate (s : StakingState Addr) (rate : Option ℕ) : ℕ :=
  rate.getD s.parameters.commissionScheduleRules.minCommissionRate

/-- `computeCommission` (`state.go:917-944`): the commission of `total` and what
remains. -/
def computeCommission (s : StakingState Addr) (rate : Option ℕ) (total : ℕ) :
    Except RewardError (ℕ × ℕ) := do
  let com ← (Quantity.quo (total * s.commissionRate rate) commissionRateDenominator).mapError
    .commissionRateDenominator
  let remaining ← (Quantity.sub total com).mapError .subtractCommission
  pure (com, remaining)

/-- The reward step in effect at `time`: the first one that ends after it. -/
def activeRewardStep (s : StakingState Addr) (time : EpochTime) : Option RewardStep :=
  s.parameters.rewardSchedule.find? fun step => time < step.untilEpoch

/-- The escrow of a commission (`state.go:1274-1304`, `1400-1430`, `1023-1052`): a
nonzero commission `com` is deposited from `src` into the active pool `active` of `addr`,
and the minted shares go to the account's delegation to itself. The state with the
delegation stored, the pool, and what is left of `src`. -/
def depositCommission (s : StakingState Addr) (addr : Addr) (active : SharePool) (src com : ℕ) :
    Except RewardError (StakingState Addr × SharePool × ℕ) :=
  if com ≠ 0 then do
    let delegation := s.delegation addr addr
    let (active, shares, src, _) ← (active.deposit delegation.shares src com).mapError .deposit
    pure (s.setDelegation addr addr ⟨shares⟩, active, src)
  else pure (s, active, src)

/-- The payout of a reward `q` to `addr` in `AddRewards` (`state.go:1239-1310`) and
`AddRewardSingleAttenuated` (`state.go:1380-1436`), out of `commonPool`: nothing when
the reward is zero or more than the pool holds; otherwise what remains after commission
goes into the active escrow balance and the commission is deposited into the account's
delegation to itself. The state and the common pool. -/
def escrowReward (s : StakingState Addr) (commonPool : ℕ) (time : EpochTime) (addr : Addr)
    (q : ℕ) : Except RewardError (StakingState Addr × ℕ) :=
  if q = 0 then pure (s, commonPool)
  else if q > commonPool then pure (s, commonPool)
  else do
    let ent := s.accounts.get addr
    let (com, q) ← s.computeCommission (ent.escrow.commissionSchedule.currentRate time) q
    let (balance, commonPool) ← (if q ≠ 0 then
        (Quantity.move ent.escrow.active.balance commonPool q).mapError .transfer
      else pure (ent.escrow.active.balance, commonPool) : Except RewardError (ℕ × ℕ))
    let (s, active, commonPool) ←
      s.depositCommission addr { ent.escrow.active with balance } commonPool com
    pure (s.setAccount addr { ent with escrow := { ent.escrow with active } }, commonPool)

/-- One address of the loop of `AddRewards` (`state.go:1219-1313`): its reward is its
active escrow balance times the factor and the step's scale, over
`RewardAmountDenominator`, paid from the state and common pool the addresses before it
left. -/
def addRewardStep (time : EpochTime) (factor : ℕ) (activeStep : RewardStep)
    (acc : StakingState Addr × ℕ) (addr : Addr) : Except RewardError (StakingState Addr × ℕ) := do
  let q ← (Quantity.quo ((acc.1.accounts.get addr).escrow.active.balance * factor *
    activeStep.scale) rewardAmountDenominator).mapError .rewardAmountDenominator
  acc.1.escrowReward acc.2 time addr q

/-- `AddRewards` (`state.go:1192-1317`): the common pool is stored once all addresses are
paid. -/
def addRewards (s : StakingState Addr) (time : EpochTime) (factor : ℕ) (addresses : List Addr) :
    Except RewardError (StakingState Addr) :=
  match s.activeRewardStep time with
  | none => pure s
  | some activeStep => do
    let (s, commonPool) ←
      addresses.foldlM (addRewardStep time factor activeStep) (s, s.commonPool)
    pure { s with commonPool }

/-- `AddRewardSingleAttenuated` (`state.go:1319-1444`): the reward of `addRewards`, times
the attenuation numerator and then over the attenuation denominator. -/
def addRewardSingleAttenuated (s : StakingState Addr) (time : EpochTime) (factor : ℕ)
    (attenuationNumerator attenuationDenominator : ℕ) (address : Addr) :
    Except RewardError (StakingState Addr) :=
  match s.activeRewardStep time with
  | none => pure s
  | some activeStep => do
    let q ← (Quantity.quo ((s.accounts.get address).escrow.active.balance * factor *
      activeStep.scale * attenuationNumerator) rewardAmountDenominator).mapError
        .rewardAmountDenominator
    let q ← (Quantity.quo q attenuationDenominator).mapError .attenuationDenominator
    let (s', commonPool) ← s.escrowReward s.commonPool time address q
    pure { s' with commonPool }

/-- `rewardBlockProposing` (`proposing_rewards.go:36-73`) at `epoch`: the proposing
entity's reward, attenuated by the signing entities over the eligible validators. -/
def rewardBlockProposing (s : StakingState Addr) (epoch : EpochTime)
    (proposingEntity : Option Addr) (numEligibleValidators numSigningEntities : ℕ) :
    Except RewardError (StakingState Addr) :=
  match proposingEntity with
  | none => pure s
  | some proposerAddr =>
    if epoch = epochInvalid then pure s
    else s.addRewardSingleAttenuated epoch s.parameters.rewardFactorBlockProposed
      numSigningEntities numEligibleValidators proposerAddr

/-- The escrow of `TransferFromCommon` (`state.go:990-1054`) for the account `toAccount`,
whose general balance holds the `transferred` amount: into a pool with shares, the part
after commission goes into the active balance; the commission, everything for a pool
without shares, is deposited into the account's delegation to itself. -/
def escrowTransferred (s : StakingState Addr) (epoch : EpochTime) (toAddr : Addr)
    (toAccount : Account Addr) (transferred : ℕ) :
    Except RewardError (StakingState Addr × Account Addr) := do
  let (com, toAccount) ← (if toAccount.escrow.active.totalShares ≠ 0 then do
      let (com, transferred) ←
        s.computeCommission (toAccount.escrow.commissionSchedule.currentRate epoch) transferred
      let (balance, general) ←
        (Quantity.move toAccount.escrow.active.balance toAccount.general.balance
          transferred).mapError .transfer
      pure (com, { toAccount with
        general := { toAccount.general with balance := general }
        escrow := { toAccount.escrow with active := { toAccount.escrow.active with balance } } })
    else pure (transferred, toAccount) : Except RewardError (ℕ × Account Addr))
  let (s, active, general) ←
    s.depositCommission toAddr toAccount.escrow.active toAccount.general.balance com
  pure (s, { toAccount with
    general := { toAccount.general with balance := general }
    escrow := { toAccount.escrow with active } })

/-- `TransferFromCommon` (`state.go:946-1071`) at `epoch`: moves up to `amount` from the
common pool into the general balance of `toAddr`, escrowed when `escrow` is set; whether
anything moved. -/
def transferFromCommon (s : StakingState Addr) (epoch : EpochTime) (toAddr : Addr)
    (amount : ℕ) (escrow : Bool) : Except RewardError (StakingState Addr × Bool) := do
  let toAccount := s.accounts.get toAddr
  let (general, commonPool, transferred) :=
    Quantity.moveUpTo toAccount.general.balance s.commonPool amount
  if transferred = 0 then pure (s, false)
  else do
    let toAccount := { toAccount with general := { toAccount.general with balance := general } }
    let (s, toAccount) ← (if escrow then s.escrowTransferred epoch toAddr toAccount transferred
      else pure (s, toAccount) : Except RewardError (StakingState Addr × Account Addr))
    pure ({ s.setAccount toAddr toAccount with commonPool }, true)

/-! ## Commission -/

omit [DecidableEq Addr] in
/-- A commission at a rate of at most one is at most what it is taken of. -/
theorem commission_le (total : ℕ) {rate : ℕ} (hrate : rate ≤ commissionRateDenominator) :
    total * rate / commissionRateDenominator ≤ total := by
  apply Nat.div_le_of_le_mul
  calc total * rate ≤ total * commissionRateDenominator := Nat.mul_le_mul_left _ hrate
    _ = commissionRateDenominator * total := Nat.mul_comm _ _

omit [DecidableEq Addr] in
/-- At a rate of at most one, the commission is `⌊total * rate / 10^5⌋` and the rest of
`total` remains. -/
theorem computeCommission_eq_ok {s : StakingState Addr} {rate : Option ℕ} (total : ℕ)
    (hrate : s.commissionRate rate ≤ commissionRateDenominator) :
    s.computeCommission rate total =
      .ok (total * s.commissionRate rate / commissionRateDenominator,
        total - total * s.commissionRate rate / commissionRateDenominator) := by
  have hquo : Quantity.quo (total * s.commissionRate rate) commissionRateDenominator =
      .ok (total * s.commissionRate rate / commissionRateDenominator) :=
    if_neg (by decide)
  have hsub : Quantity.sub total (total * s.commissionRate rate / commissionRateDenominator) =
      .ok (total - total * s.commissionRate rate / commissionRateDenominator) :=
    Quantity.sub_eq_ok.mpr ⟨commission_le total hrate, rfl⟩
  unfold computeCommission
  rw [hquo, Except.mapError_ok, Except.ok_bind, hsub, Except.mapError_ok, Except.ok_bind]
  rfl

theorem setDelegation_eq (s : StakingState Addr) (delegator escrow : Addr) (d : Delegation) :
    s.setDelegation delegator escrow d =
      { s with delegations := (s.setDelegation delegator escrow d).delegations } := by
  unfold setDelegation
  split <;> rfl

/-- A commission that `src` covers is deposited into a pool without shares or with a
balance; only the delegations change. -/
theorem depositCommission_eq_ok (s : StakingState Addr) (addr : Addr) {active : SharePool}
    {src com : ℕ} (hcom : com ≤ src) (hpool : active.totalShares = 0 ∨ active.balance ≠ 0) :
    ∃ s' active', s.depositCommission addr active src com = .ok (s', active', src - com) ∧
      s' = { s with delegations := s'.delegations } ∧
      active'.balance = active.balance + com := by
  by_cases hzero : com = 0
  · subst hzero
    refine ⟨s, active, ?_, rfl, rfl⟩
    rw [depositCommission, if_neg (not_not.mpr rfl)]
    rfl
  · obtain ⟨shares, hshares⟩ := SharePool.sharesForStake_exists hpool com
    have hdeposit : active.deposit (s.delegation addr addr).shares src com =
        .ok (⟨active.balance + com, active.totalShares + shares⟩,
          (s.delegation addr addr).shares + shares, src - com, shares) :=
      SharePool.deposit_eq_ok.mpr ⟨hshares, hcom, rfl, rfl, rfl⟩
    refine ⟨s.setDelegation addr addr ⟨(s.delegation addr addr).shares + shares⟩,
      ⟨active.balance + com, active.totalShares + shares⟩, ?_, setDelegation_eq _ _ _ _, rfl⟩
    rw [depositCommission, if_pos hzero]
    dsimp only
    rw [hdeposit, Except.mapError_ok, Except.ok_bind]
    rfl

/-! ## Paying out of the common pool -/

/-- Storing an account changes the accounts' balances by the change of its own. -/
theorem accountBalances_setAccount (s : StakingState Addr) (addr : Addr) (a : Account Addr) :
    (s.setAccount addr a).accountBalances + ((s.accounts.get addr).general.balance +
      (s.accounts.get addr).escrow.active.balance +
        (s.accounts.get addr).escrow.debonding.balance) =
      s.accountBalances + (a.general.balance + a.escrow.active.balance +
        a.escrow.debonding.balance) := by
  unfold accountBalances
  rw [accounts_setAccount]
  exact FinMap.sum_set (fun _ a => a.general.balance + a.escrow.active.balance +
    a.escrow.debonding.balance) (fun _ => rfl) s.accounts addr a

/-- An account stored with `x` more in its active escrow balance and its general and
debonding balances kept adds `x` to the accounts' balances. -/
theorem accountBalances_setAccount_active (s : StakingState Addr) (addr : Addr)
    (a : Account Addr) {x : ℕ}
    (hgeneral : a.general.balance = (s.accounts.get addr).general.balance)
    (hdebonding : a.escrow.debonding.balance = (s.accounts.get addr).escrow.debonding.balance)
    (hactive : a.escrow.active.balance = (s.accounts.get addr).escrow.active.balance + x) :
    (s.setAccount addr a).accountBalances = s.accountBalances + x := by
  have hset := accountBalances_setAccount s addr a
  omega

/-- Rewards went from the common pool, `pool` before and `pool'` after, into active escrow
balances: the accounts' balances plus the pool are kept, so are the general and debonding
balances and the commission schedules, and only accounts and delegations change. -/
structure Escrowed (s s' : StakingState Addr) (pool pool' : ℕ) : Prop where
  rest : s' = { s with accounts := s'.accounts, delegations := s'.delegations }
  total : s'.accountBalances + pool' = s.accountBalances + pool
  pool_le : pool' ≤ pool
  general : ∀ a, (s'.accounts.get a).general = (s.accounts.get a).general
  debonding : ∀ a, (s'.accounts.get a).escrow.debonding = (s.accounts.get a).escrow.debonding
  schedule : ∀ a, (s'.accounts.get a).escrow.commissionSchedule =
    (s.accounts.get a).escrow.commissionSchedule

namespace Escrowed

variable {s t u : StakingState Addr} {p q r : ℕ}

omit [DecidableEq Addr] in
theorem refl (s : StakingState Addr) (p : ℕ) : Escrowed s s p p :=
  ⟨rfl, rfl, le_rfl, fun _ => rfl, fun _ => rfl, fun _ => rfl⟩

omit [DecidableEq Addr] in
theorem trans (h₁ : Escrowed s t p q) (h₂ : Escrowed t u q r) : Escrowed s u p r where
  rest := by
    calc u = { t with accounts := u.accounts, delegations := u.delegations } := h₂.rest
      _ = { s with accounts := u.accounts, delegations := u.delegations } := by rw [h₁.rest]
  total := by rw [h₂.total, ← h₁.total]
  pool_le := h₂.pool_le.trans h₁.pool_le
  general a := (h₂.general a).trans (h₁.general a)
  debonding a := (h₂.debonding a).trans (h₁.debonding a)
  schedule a := (h₂.schedule a).trans (h₁.schedule a)

omit [DecidableEq Addr] in
theorem commissionRate (h : Escrowed s t p q) (rate : Option ℕ) :
    t.commissionRate rate = s.commissionRate rate := by
  unfold StakingState.commissionRate
  rw [h.rest]

omit [DecidableEq Addr] in
theorem activeRewardStep (h : Escrowed s t p q) (time : EpochTime) :
    t.activeRewardStep time = s.activeRewardStep time := by
  unfold StakingState.activeRewardStep
  rw [h.rest]

end Escrowed

/-- A reward of an account whose rate is at most one, and that has an active balance
when the reward is not zero, is paid: what the common pool gives is the reward when the
pool covers it and nothing otherwise. -/
theorem escrowReward_escrowed (s : StakingState Addr) (pool : ℕ) (time : EpochTime)
    (addr : Addr) (q : ℕ)
    (hrate : s.commissionRate ((s.accounts.get addr).escrow.commissionSchedule.currentRate time) ≤
      commissionRateDenominator)
    (hbalance : (s.accounts.get addr).escrow.active.balance = 0 → q = 0) :
    ∃ s' pool', s.escrowReward pool time addr q = .ok (s', pool') ∧ Escrowed s s' pool pool' ∧
      pool' = if q = 0 ∨ pool < q then pool else pool - q := by
  by_cases hq : q = 0
  · refine ⟨s, pool, by rw [escrowReward, if_pos hq]; rfl, Escrowed.refl s pool, ?_⟩
    simp [hq]
  by_cases hpool : q > pool
  · refine ⟨s, pool, by rw [escrowReward, if_neg hq, if_pos hpool]; rfl, Escrowed.refl s pool, ?_⟩
    simp [hpool]
  -- The reward is paid: what remains into the active balance, then the commission.
  have hcom := commission_le q hrate
  rw [escrowReward, if_neg hq, if_neg hpool]
  dsimp only
  rw [computeCommission_eq_ok q hrate, Except.ok_bind]
  dsimp only
  generalize q * s.commissionRate ((s.accounts.get addr).escrow.commissionSchedule.currentRate
    time) / commissionRateDenominator = com at hcom ⊢
  have hmove : (if q - com ≠ 0 then
      (Quantity.move (s.accounts.get addr).escrow.active.balance pool (q - com)).mapError .transfer
      else pure ((s.accounts.get addr).escrow.active.balance, pool) :
        Except RewardError (ℕ × ℕ)) =
      .ok ((s.accounts.get addr).escrow.active.balance + (q - com), pool - (q - com)) := by
    split_ifs with hrem
    · rw [Quantity.move_eq_ok.mpr ⟨by omega, rfl, rfl⟩]
      rfl
    · rw [not_not.mp hrem]
      rfl
  obtain ⟨s₁, active, hdeposit, hs₁, hactive⟩ := @depositCommission_eq_ok Addr _ s addr
    ⟨(s.accounts.get addr).escrow.active.balance + (q - com),
      (s.accounts.get addr).escrow.active.totalShares⟩ (pool - (q - com)) com (by omega)
    (.inr fun h => hq (hbalance (Nat.eq_zero_of_add_eq_zero_right h)))
  replace hactive : active.balance = (s.accounts.get addr).escrow.active.balance + (q - com) + com :=
    hactive
  rw [hmove, Except.ok_bind]
  dsimp only
  rw [hdeposit, Except.ok_bind]
  dsimp only
  have haccounts : s₁.accounts = s.accounts := by rw [hs₁]
  have hget : ∀ a, (s₁.setAccount addr { s.accounts.get addr with
      escrow := { (s.accounts.get addr).escrow with active } }).accounts.get a =
        if a = addr then { s.accounts.get addr with
          escrow := { (s.accounts.get addr).escrow with active } } else s.accounts.get a := by
    intro a
    rw [accounts_setAccount, FinMap.get_set, haccounts]
  refine ⟨_, _, rfl, ⟨?_, ?_, by omega, fun a => ?_, fun a => ?_, fun a => ?_⟩, ?_⟩
  · rw [hs₁]
    rfl
  · have hbalances := accountBalances_setAccount_active s₁ addr { s.accounts.get addr with
      escrow := { (s.accounts.get addr).escrow with active } } (x := q - com + com)
      (by rw [haccounts]) (by rw [haccounts]) (by rw [haccounts]; show active.balance = _; omega)
    have hs₁balances : s₁.accountBalances = s.accountBalances := by
      unfold accountBalances
      rw [haccounts]
    rw [hbalances, hs₁balances]
    omega
  all_goals try (rw [hget]; split_ifs with ha)
  · subst ha
    rfl
  · rfl
  · subst ha
    rfl
  · rfl
  · subst ha
    rfl
  · rfl
  · rw [if_neg (by omega)]
    omega

/-- Every rate a payout to `addresses` at `time` may use is at most one. -/
def RatesAtMostOne (s : StakingState Addr) (time : EpochTime) (addresses : List Addr) : Prop :=
  ∀ a ∈ addresses, s.commissionRate ((s.accounts.get a).escrow.commissionSchedule.currentRate time) ≤
    commissionRateDenominator

/-- One address of `AddRewards` is paid out of the pool the addresses before it left. -/
theorem addRewardStep_escrowed {s t : StakingState Addr} {pool : ℕ} {time : EpochTime}
    {factor : ℕ} (activeStep : RewardStep) {a : Addr}
    (hrate : s.commissionRate ((s.accounts.get a).escrow.commissionSchedule.currentRate time) ≤
      commissionRateDenominator)
    (hinv : Escrowed s t s.commonPool pool) :
    ∃ acc, addRewardStep time factor activeStep (t, pool) a = .ok acc ∧
      Escrowed s acc.1 s.commonPool acc.2 := by
  have hquo : Quantity.quo ((t.accounts.get a).escrow.active.balance * factor *
      activeStep.scale) rewardAmountDenominator = .ok ((t.accounts.get a).escrow.active.balance *
        factor * activeStep.scale / rewardAmountDenominator) :=
    if_neg (by decide)
  obtain ⟨t', pool', hpay, hescrowed, -⟩ := escrowReward_escrowed t pool time a
    ((t.accounts.get a).escrow.active.balance * factor * activeStep.scale /
      rewardAmountDenominator)
    (by rw [hinv.commissionRate, hinv.schedule]; exact hrate)
    (fun h => by rw [h, Nat.zero_mul, Nat.zero_mul, Nat.zero_div])
  refine ⟨(t', pool'), ?_, hinv.trans hescrowed⟩
  rw [addRewardStep, hquo, Except.mapError_ok, Except.ok_bind]
  exact hpay

/-- With every rate at most one, `AddRewards` succeeds, and what the common pool gives
goes into the active escrow balances. -/
theorem addRewards_conserves {s : StakingState Addr} {time : EpochTime} {factor : ℕ}
    {addresses : List Addr} (hrates : s.RatesAtMostOne time addresses) :
    ∃ t pool, s.addRewards time factor addresses = .ok { t with commonPool := pool } ∧
      Escrowed s t s.commonPool pool := by
  unfold addRewards
  cases hstep : s.activeRewardStep time with
  | none => exact ⟨s, s.commonPool, rfl, Escrowed.refl s s.commonPool⟩
  | some activeStep =>
    -- The loop keeps that the addresses so far were paid out of the common pool.
    obtain ⟨⟨t, pool⟩, hloop, hescrowed⟩ := Except.foldlM_eq_ok_of_inv
      (f := addRewardStep time factor activeStep) addresses
      (fun _ (acc : StakingState Addr × ℕ) => Escrowed s acc.1 s.commonPool acc.2)
      (fun done a rest ⟨t, pool⟩ hl hinv =>
        addRewardStep_escrowed activeStep (hrates a (by rw [← hl]; simp)) hinv)
      (b := (s, s.commonPool)) (Escrowed.refl s s.commonPool)
    refine ⟨t, pool, ?_, hescrowed⟩
    dsimp only
    rw [hloop, Except.ok_bind]
    rfl

/-- With a positive attenuation denominator and a rate at most one,
`AddRewardSingleAttenuated` succeeds, and what the common pool gives goes into the active
escrow balance. -/
theorem addRewardSingleAttenuated_conserves {s : StakingState Addr} {time : EpochTime}
    {factor attenuationNumerator attenuationDenominator : ℕ} {address : Addr}
    (hden : 0 < attenuationDenominator) (hrate : s.RatesAtMostOne time [address]) :
    ∃ t pool, s.addRewardSingleAttenuated time factor attenuationNumerator
        attenuationDenominator address = .ok { t with commonPool := pool } ∧
      Escrowed s t s.commonPool pool := by
  unfold addRewardSingleAttenuated
  cases hstep : s.activeRewardStep time with
  | none => exact ⟨s, s.commonPool, rfl, Escrowed.refl s s.commonPool⟩
  | some activeStep =>
    -- Both divisions succeed; a zero balance gives a zero reward.
    have hquo : ∀ n, Quantity.quo n rewardAmountDenominator =
        .ok (n / rewardAmountDenominator) := fun n => if_neg (by decide)
    have hattenuate : ∀ n, Quantity.quo n attenuationDenominator =
        .ok (n / attenuationDenominator) := fun n => if_neg (Nat.pos_iff_ne_zero.mp hden)
    obtain ⟨t, pool, hpay, hescrowed, -⟩ := escrowReward_escrowed s s.commonPool time address
      ((s.accounts.get address).escrow.active.balance * factor * activeStep.scale *
        attenuationNumerator / rewardAmountDenominator / attenuationDenominator)
      (hrate address List.mem_cons_self)
      (fun h => by rw [h, Nat.zero_mul, Nat.zero_mul, Nat.zero_mul, Nat.zero_div, Nat.zero_div])
    refine ⟨t, pool, ?_, hescrowed⟩
    dsimp only
    rw [hquo, Except.mapError_ok, Except.ok_bind, hattenuate, Except.mapError_ok, Except.ok_bind,
      hpay, Except.ok_bind]
    rfl

/-- An escrow of `transferred` out of the general balance into a pool without shares or
with a balance, at a rate of at most one: the general balance gives `transferred`, the
active balance takes it, and of the state only the delegations change. -/
theorem escrowTransferred_eq_ok (s : StakingState Addr) (epoch : EpochTime) (toAddr : Addr)
    {toAccount : Account Addr} {transferred : ℕ}
    (hrate : s.commissionRate (toAccount.escrow.commissionSchedule.currentRate epoch) ≤
      commissionRateDenominator)
    (hcover : transferred ≤ toAccount.general.balance)
    (hpool : toAccount.escrow.active.totalShares = 0 ∨ toAccount.escrow.active.balance ≠ 0) :
    ∃ s' a', s.escrowTransferred epoch toAddr toAccount transferred = .ok (s', a') ∧
      s' = { s with delegations := s'.delegations } ∧
      a'.general = { toAccount.general with balance := toAccount.general.balance - transferred } ∧
      a'.escrow.active.balance = toAccount.escrow.active.balance + transferred ∧
      a'.escrow.debonding = toAccount.escrow.debonding ∧
      a'.escrow.commissionSchedule = toAccount.escrow.commissionSchedule := by
  unfold escrowTransferred
  by_cases hshares : toAccount.escrow.active.totalShares = 0
  · -- Into a pool without shares everything is commission.
    rw [if_neg (not_not.mpr hshares)]
    obtain ⟨s', active, hdeposit, hs', hactive⟩ :=
      depositCommission_eq_ok s toAddr hcover (.inl hshares)
    refine ⟨s', { toAccount with
      general := { toAccount.general with balance := toAccount.general.balance - transferred }
      escrow := { toAccount.escrow with active } }, ?_, hs', rfl, hactive, rfl, rfl⟩
    rw [pure_bind]
    dsimp only
    rw [hdeposit, Except.ok_bind]
    rfl
  · -- Into a pool with shares, what remains after commission goes in first.
    rw [if_pos hshares, computeCommission_eq_ok transferred hrate, Except.ok_bind]
    have hcom := commission_le transferred hrate
    generalize transferred * s.commissionRate (toAccount.escrow.commissionSchedule.currentRate
      epoch) / commissionRateDenominator = com at hcom ⊢
    have hmove : Quantity.move toAccount.escrow.active.balance toAccount.general.balance
        (transferred - com) = .ok (toAccount.escrow.active.balance + (transferred - com),
          toAccount.general.balance - (transferred - com)) :=
      Quantity.move_eq_ok.mpr ⟨by omega, rfl, rfl⟩
    obtain ⟨s', active, hdeposit, hs', hactive⟩ := @depositCommission_eq_ok Addr _ s toAddr
      ⟨toAccount.escrow.active.balance + (transferred - com), toAccount.escrow.active.totalShares⟩
      (toAccount.general.balance - (transferred - com)) com (by omega)
      (.inr fun h => hpool.resolve_left hshares (Nat.eq_zero_of_add_eq_zero_right h))
    replace hactive : active.balance =
        toAccount.escrow.active.balance + (transferred - com) + com := hactive
    refine ⟨s', { toAccount with
      general := { toAccount.general with balance := toAccount.general.balance - transferred }
      escrow := { toAccount.escrow with active } }, ?_, hs', rfl, by rw [hactive]; omega, rfl, rfl⟩
    dsimp only
    rw [hmove, Except.mapError_ok, Except.ok_bind, pure_bind]
    dsimp only
    rw [hdeposit, Except.ok_bind, show toAccount.general.balance - (transferred - com) - com =
      toAccount.general.balance - transferred by omega]
    rfl

/-- `MoveUpTo` moves what the source can give of the amount. -/
theorem moveUpTo_eq (dst src n : ℕ) :
    Quantity.moveUpTo dst src n = (dst + min src n, src - min src n, min src n) := by
  have hmin : (Quantity.subUpTo src n).1 = min src n := Quantity.moveUpTo_amount dst src n
  unfold Quantity.moveUpTo
  rw [show (Quantity.subUpTo src n).2 = src - (Quantity.subUpTo src n).1 from rfl, hmin]

/-- With a rate at most one and an active pool without shares or with a balance,
`TransferFromCommon` succeeds and takes what the common pool can give of `amount`; the
accounts' balances plus the common pool are kept. -/
theorem transferFromCommon_conserves {s : StakingState Addr} {epoch : EpochTime}
    {toAddr : Addr} {amount : ℕ} {escrow : Bool} (hrate : s.RatesAtMostOne epoch [toAddr])
    (hpool : (s.accounts.get toAddr).escrow.active.totalShares = 0 ∨
      (s.accounts.get toAddr).escrow.active.balance ≠ 0) :
    ∃ s' moved, s.transferFromCommon epoch toAddr amount escrow = .ok (s', moved) ∧
      s'.accountBalances + s'.commonPool = s.accountBalances + s.commonPool ∧
      s'.commonPool = s.commonPool - min s.commonPool amount ∧
      (moved = true ↔ min s.commonPool amount ≠ 0) := by
  unfold transferFromCommon
  dsimp only
  rw [moveUpTo_eq]
  dsimp only
  have hle : min s.commonPool amount ≤ s.commonPool := Nat.min_le_left _ _
  generalize min s.commonPool amount = moved at hle ⊢
  by_cases hzero : moved = 0
  · rw [if_pos hzero]
    exact ⟨s, false, rfl, rfl, by omega, by simp [hzero]⟩
  rw [if_neg hzero]
  -- The account once the transfer is in its general balance.
  obtain ⟨credited, hcredited⟩ : ∃ a : Account Addr, a = { s.accounts.get toAddr with
      general := { (s.accounts.get toAddr).general with
        balance := (s.accounts.get toAddr).general.balance + moved } } := ⟨_, rfl⟩
  rw [← hcredited]
  have hgeneral : credited.general.balance = (s.accounts.get toAddr).general.balance + moved := by
    rw [hcredited]
  have hescrow : credited.escrow = (s.accounts.get toAddr).escrow := by rw [hcredited]
  cases escrow with
  | false =>
    have hset := accountBalances_setAccount s toAddr credited
    rw [hescrow] at hset
    refine ⟨_, true, rfl, ?_, rfl, by simp [hzero]⟩
    show (s.setAccount toAddr credited).accountBalances + (s.commonPool - moved) = _
    omega
  | true =>
    obtain ⟨s', a', htransfer, hs', hgeneral', hactive, hdebonding, -⟩ :=
      @escrowTransferred_eq_ok Addr _ s epoch toAddr credited moved
        (by rw [hescrow]; exact hrate toAddr List.mem_cons_self)
        (by omega) (by rw [hescrow]; exact hpool)
    have haccounts : s'.accounts = s.accounts := by rw [hs']
    have hset := accountBalances_setAccount s' toAddr a'
    have hs'balances : s'.accountBalances = s.accountBalances := by
      unfold accountBalances
      rw [haccounts]
    rw [haccounts, hgeneral', hactive, hdebonding, hescrow] at hset
    dsimp only at hset
    refine ⟨{ s'.setAccount toAddr a' with commonPool := s.commonPool - moved }, true, ?_, ?_, rfl,
      by simp [hzero]⟩
    · dsimp only
      rw [if_pos rfl, htransfer, Except.ok_bind]
      rfl
    · show (s'.setAccount toAddr a').accountBalances + (s.commonPool - moved) = _
      omega

/-- An escrowed transfer into a pool that has shares but no balance, at a rate of one,
fails: all of it is commission, and no shares can be minted at that pool's rate. -/
theorem transferFromCommon_sharesWithoutBalance {s : StakingState Addr} {epoch : EpochTime}
    {toAddr : Addr} {amount : ℕ}
    (hshares : (s.accounts.get toAddr).escrow.active.totalShares ≠ 0)
    (hbalance : (s.accounts.get toAddr).escrow.active.balance = 0)
    (hrate : s.commissionRate ((s.accounts.get toAddr).escrow.commissionSchedule.currentRate
      epoch) = commissionRateDenominator)
    (hmoved : min s.commonPool amount ≠ 0) :
    s.transferFromCommon epoch toAddr amount true = .error (.deposit .invalidArgument) := by
  have hcommission : min s.commonPool amount * commissionRateDenominator /
      commissionRateDenominator = min s.commonPool amount :=
    Nat.mul_div_cancel _ (by decide)
  have hmove : Quantity.move (s.accounts.get toAddr).escrow.active.balance
      ((s.accounts.get toAddr).general.balance + min s.commonPool amount) 0 =
        .ok (0, (s.accounts.get toAddr).general.balance + min s.commonPool amount) := by
    exact Quantity.move_eq_ok.mpr ⟨Nat.zero_le _, by rw [hbalance], rfl⟩
  have hshares' : SharePool.sharesForStake ⟨0, (s.accounts.get toAddr).escrow.active.totalShares⟩
      (min s.commonPool amount) = .error .invalidArgument := by
    rw [SharePool.sharesForStake, if_neg hshares, if_pos rfl]
  unfold transferFromCommon escrowTransferred
  dsimp only
  rw [moveUpTo_eq]
  dsimp only
  rw [if_neg hmoved, if_pos rfl, if_pos hshares, computeCommission_eq_ok _ hrate.le, hrate,
    hcommission, Nat.sub_self, Except.ok_bind]
  dsimp only
  rw [hmove, Except.mapError_ok, Except.ok_bind, pure_bind]
  dsimp only
  rw [depositCommission, if_pos hmoved]
  dsimp only
  rw [SharePool.deposit, hshares']
  rfl

/-- With eligible validators and the proposer's rate at most one, `rewardBlockProposing`
succeeds and pays out of the common pool into the proposer's active escrow. -/
theorem rewardBlockProposing_conserves {s : StakingState Addr} {epoch : EpochTime}
    {proposingEntity : Option Addr} {numEligibleValidators numSigningEntities : ℕ}
    (heligible : 0 < numEligibleValidators)
    (hrate : ∀ a ∈ proposingEntity, s.RatesAtMostOne epoch [a]) :
    ∃ t pool, s.rewardBlockProposing epoch proposingEntity numEligibleValidators
        numSigningEntities = .ok { t with commonPool := pool } ∧
      Escrowed s t s.commonPool pool := by
  cases proposingEntity with
  | none => exact ⟨s, s.commonPool, rfl, Escrowed.refl s s.commonPool⟩
  | some proposerAddr =>
    unfold rewardBlockProposing
    dsimp only
    by_cases hepoch : epoch = epochInvalid
    · rw [if_pos hepoch]
      exact ⟨s, s.commonPool, rfl, Escrowed.refl s s.commonPool⟩
    · rw [if_neg hepoch]
      exact addRewardSingleAttenuated_conserves heligible (hrate proposerAddr rfl)

end StakingState

end Staking

end OasisCore
