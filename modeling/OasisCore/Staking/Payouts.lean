import OasisCore.Staking.EpochSigning
import OasisCore.Staking.Ledger
import OasisCore.Staking.Slashing

/-!
# Payouts, slashing and governance deposits keep the invariant

Besides the transactions, the consensus changes the staking state in these ways:
- it pays rewards out of the common pool, through `AddRewards` for signing and
  `AddRewardSingleAttenuated` for proposing a block;
- it moves tokens out of the common pool with `TransferFromCommon`;
- it slashes escrow into the common pool with `SlashEscrow`;
- it moves governance deposits.

Each of these keeps the invariant of `Ledger`.

A reward, less its commission, goes into the active balance of an account. The commission
is deposited into the account's delegation to itself; `depositCommission_eq_ok_inv` says
what such a deposit can do. A reward is proportional to the active balance, so an account
whose pool is empty gets none, and a pool with shares stays one. The loop of `AddRewards`
keeps `PaidOut`: the escrow half holds, and the common pool it carries, together with the
accounts' balances, holds what it held before.
-/

namespace OasisCore

namespace Staking

namespace StakingState

section Payouts

variable {Addr : Type} [DecidableEq Addr] {s s' t t' : StakingState Addr}

/-! ## What a payout can do -/

omit [DecidableEq Addr] in
theorem computeCommission_le {rate : Option ℕ} {total com rest : ℕ}
    (h : s.computeCommission rate total = .ok (com, rest)) : com ≤ total ∧ rest = total - com := by
  unfold computeCommission at h
  obtain ⟨c, -, h⟩ := Except.bind_eq_ok.mp h
  obtain ⟨r, hr, hpure⟩ := Except.bind_eq_ok.mp h
  obtain ⟨hle, rfl⟩ := Quantity.sub_eq_ok.mp (Except.mapError_eq_ok.mp hr)
  cases Except.pure_eq_ok.mp hpure
  exact ⟨hle, rfl⟩

/-- A commission deposit takes `com` out of `src` into the pool and mints `shares` for the
account's delegation to itself: as many as `com` into a pool without shares, none for no
commission. Of the state only the delegations change. -/
theorem depositCommission_eq_ok_inv {addr : Addr} {active active' : SharePool} {src src' com : ℕ}
    (h : s.depositCommission addr active src com = .ok (t, active', src')) :
    ∃ shares, com ≤ src ∧ src' = src - com ∧
      active' = ⟨active.balance + com, active.totalShares + shares⟩ ∧
      (active.totalShares = 0 → shares = com) ∧
      (∀ a, t.delegatedShares a = s.delegatedShares a + if a = addr then shares else 0) ∧
      t = { s with delegations := t.delegations } := by
  unfold depositCommission at h
  split_ifs at h with hcom
  · obtain ⟨⟨pool, dst, rest, minted⟩, hdeposit, hpure⟩ := Except.bind_eq_ok.mp h
    obtain ⟨hshares, hle, rfl, rfl, rfl⟩ :=
      SharePool.deposit_eq_ok.mp (Except.mapError_eq_ok.mp hdeposit)
    cases Except.pure_eq_ok.mp hpure
    refine ⟨minted, hle, rfl, rfl, fun h0 => ?_, fun a => delegatedShares_setDelegation_add _ _ _ _ _,
      setDelegation_eq _ _ _ _⟩
    rcases SharePool.sharesForStake_eq_ok.mp hshares with ⟨-, rfl⟩ | ⟨hne, -⟩
    · rfl
    · exact absurd h0 hne
  · -- No commission: nothing is deposited.
    cases Except.pure_eq_ok.mp h
    obtain rfl : com = 0 := not_not.mp hcom
    exact ⟨0, Nat.zero_le _, rfl, rfl, fun _ => rfl, fun a => by simp, rfl⟩

/-! ## Rewards -/

/-- One reward `q` paid to `addr` out of `pool` keeps the escrow half, when an account with an
empty active pool gets nothing: the balances of the accounts and the pool hold what they held,
and only accounts and delegations change. -/
theorem EscrowInvariant.escrowReward (h : t.EscrowInvariant) {pool pool' : ℕ}
    {time : EpochTime} {addr : Addr} {q : ℕ}
    (hbalance : (t.accounts.get addr).escrow.active.balance = 0 → q = 0)
    (hs : t.escrowReward pool time addr q = .ok (t', pool')) :
    t'.EscrowInvariant ∧ t'.accountBalances + pool' = t.accountBalances + pool ∧
      t' = { t with accounts := t'.accounts, delegations := t'.delegations } := by
  unfold StakingState.escrowReward at hs
  dsimp only at hs
  split_ifs at hs with hq hpool
  · cases Except.pure_eq_ok.mp hs
    exact ⟨h, rfl, rfl⟩
  · cases Except.pure_eq_ok.mp hs
    exact ⟨h, rfl, rfl⟩
  -- The reward is paid: an account without shares would hold nothing and get nothing.
  have hshares₀ : (t.accounts.get addr).escrow.active.totalShares ≠ 0 :=
    fun h0 => hq (hbalance (h.activeConsistent addr h0))
  obtain ⟨⟨com, rest⟩, hcom, hs⟩ := Except.bind_eq_ok.mp hs
  obtain ⟨hle, rfl⟩ := computeCommission_le hcom
  obtain ⟨⟨balance, pool₁⟩, hmove, hs⟩ := Except.bind_eq_ok.mp hs
  have hmoved : balance = (t.accounts.get addr).escrow.active.balance + (q - com) ∧
      pool₁ = pool - (q - com) := by
    split_ifs at hmove with hrest
    · obtain ⟨-, rfl, rfl⟩ := Quantity.move_eq_ok.mp (Except.mapError_eq_ok.mp hmove)
      exact ⟨rfl, rfl⟩
    · cases Except.pure_eq_ok.mp hmove
      omega
  obtain ⟨rfl, rfl⟩ := hmoved
  obtain ⟨⟨t₁, active, pool₂⟩, hdeposit, hs⟩ := Except.bind_eq_ok.mp hs
  obtain ⟨shares, hcomle, rfl, rfl, -, hdelegated, hrest₁⟩ := depositCommission_eq_ok_inv hdeposit
  obtain ⟨rfl, rfl⟩ := Prod.mk.inj (Except.pure_eq_ok.mp hs)
  dsimp only
  have haccounts : t₁.accounts = t.accounts := by rw [hrest₁]
  have hdebondingDelegations : t₁.debondingDelegations = t.debondingDelegations := by rw [hrest₁]
  have hqueue : t₁.debondingQueue = t.debondingQueue := by rw [hrest₁]
  have hconsistent : SharePool.Consistent
      ⟨(t.accounts.get addr).escrow.active.balance + (q - com) + com,
        (t.accounts.get addr).escrow.active.totalShares + shares⟩ :=
    fun h0 => absurd (Nat.eq_zero_of_add_eq_zero_right h0) hshares₀
  refine ⟨h.deposited (fun a => ?_) hdebondingDelegations hqueue (fun a => ?_) (fun a => ?_) rfl
    hconsistent, ?_, ?_⟩
  · exact hdelegated a
  · by_cases ha : a = addr
    · simp [ha]
    · simp [ha, haccounts]
  · by_cases ha : a = addr
    · simp [ha]
    · simp [ha, haccounts]
  · -- The account's active balance takes the reward, which the pool gave.
    have hset := accountBalances_setAccount t₁ addr { t.accounts.get addr with
      escrow := { (t.accounts.get addr).escrow with
        active := ⟨(t.accounts.get addr).escrow.active.balance + (q - com) + com,
          (t.accounts.get addr).escrow.active.totalShares + shares⟩ } }
    have hbalances : t₁.accountBalances = t.accountBalances := by
      unfold accountBalances
      rw [haccounts]
    rw [haccounts, hbalances] at hset
    dsimp only at hset
    omega
  · rw [hrest₁]
    rfl

/-- What the rewards paid so far out of the common pool of `s` leave: the escrow half holds,
the accounts' balances and the pool `pool` hold what the accounts and the common pool of `s`
held, and only accounts and delegations differ from `s`. -/
structure PaidOut (s t : StakingState Addr) (pool : ℕ) : Prop where
  escrowInvariant : t.EscrowInvariant
  total : t.accountBalances + pool = s.accountBalances + s.commonPool
  rest : t = { s with accounts := t.accounts, delegations := t.delegations }

namespace PaidOut

variable {pool pool' : ℕ}

theorem refl (h : s.Invariant) : PaidOut s s s.commonPool :=
  ⟨h.toEscrowInvariant, rfl, rfl⟩

theorem step (hp : PaidOut s t pool) (h : t'.EscrowInvariant)
    (htotal : t'.accountBalances + pool' = t.accountBalances + pool)
    (hrest : t' = { t with accounts := t'.accounts, delegations := t'.delegations }) :
    PaidOut s t' pool' where
  escrowInvariant := h
  total := htotal.trans hp.total
  rest := by
    calc t' = { t with accounts := t'.accounts, delegations := t'.delegations } := hrest
      _ = { s with accounts := t'.accounts, delegations := t'.delegations } := by rw [hp.rest]

theorem escrowReward (hp : PaidOut s t pool) {time : EpochTime} {addr : Addr} {q : ℕ}
    (hbalance : (t.accounts.get addr).escrow.active.balance = 0 → q = 0)
    (hs : t.escrowReward pool time addr q = .ok (t', pool')) : PaidOut s t' pool' := by
  obtain ⟨hinv, htotal, hrest⟩ := hp.escrowInvariant.escrowReward hbalance hs
  exact hp.step hinv htotal hrest

/-- The common pool left once all is paid is stored: the invariant holds again. -/
theorem invariant (hp : PaidOut s t pool) (h : s.Invariant) :
    ({ t with commonPool := pool } : StakingState Addr).Invariant := by
  have hkeeps : KeepsPools t { t with commonPool := pool } :=
    ⟨fun _ => rfl, fun _ => rfl, rfl, rfl, rfl⟩
  have hfees : t.lastBlockFees = s.lastBlockFees := by rw [hp.rest]
  have hdeposits : t.governanceDeposits = s.governanceDeposits := by rw [hp.rest]
  have hsupply : t.totalSupply = s.totalSupply := by rw [hp.rest]
  refine ⟨hkeeps.escrowInvariant hp.escrowInvariant, ?_⟩
  show t.accountBalances + pool + t.lastBlockFees + t.governanceDeposits = t.totalSupply
  have htotal := hp.total
  have hinv := h.supply
  omega

end PaidOut

theorem PaidOut.addRewardStep {pool : ℕ} {time : EpochTime} {factor : ℕ}
    {activeStep : RewardStep} {addr : Addr} {acc : StakingState Addr × ℕ}
    (hp : PaidOut s t pool) (hs : addRewardStep time factor activeStep (t, pool) addr = .ok acc) :
    PaidOut s acc.1 acc.2 := by
  obtain ⟨q, hq, hpay⟩ := Except.bind_eq_ok.mp hs
  obtain ⟨-, rfl⟩ := Quantity.quo_eq_ok.mp (Except.mapError_eq_ok.mp hq)
  exact hp.escrowReward (fun h0 => by simp [h0]) hpay

theorem Invariant.addRewards (h : s.Invariant) {time : EpochTime} {factor : ℕ}
    {addresses : List Addr} (hs : s.addRewards time factor addresses = .ok s') : s'.Invariant := by
  unfold StakingState.addRewards at hs
  cases hstep : s.activeRewardStep time with
  | none =>
    rw [hstep] at hs
    cases Except.pure_eq_ok.mp hs
    exact h
  | some activeStep =>
    rw [hstep] at hs
    obtain ⟨⟨t, pool⟩, hloop, hfinal⟩ := Except.bind_eq_ok.mp hs
    cases Except.pure_eq_ok.mp hfinal
    -- Every address is paid out of what the ones before it left.
    have hpaid := Except.foldlM_inv_of_eq_ok addresses
      (fun _ (acc : StakingState Addr × ℕ) => PaidOut s acc.1 acc.2)
      (fun _ _ _ acc _ _ hacc hstep => hacc.addRewardStep hstep) (PaidOut.refl h) hloop
    exact hpaid.invariant h

theorem Invariant.addRewardSingleAttenuated (h : s.Invariant) {time : EpochTime}
    {factor attenuationNumerator attenuationDenominator : ℕ} {address : Addr}
    (hs : s.addRewardSingleAttenuated time factor attenuationNumerator attenuationDenominator
      address = .ok s') : s'.Invariant := by
  unfold StakingState.addRewardSingleAttenuated at hs
  cases hstep : s.activeRewardStep time with
  | none =>
    rw [hstep] at hs
    cases Except.pure_eq_ok.mp hs
    exact h
  | some activeStep =>
    rw [hstep] at hs
    obtain ⟨q, hq, hs⟩ := Except.bind_eq_ok.mp hs
    obtain ⟨-, rfl⟩ := Quantity.quo_eq_ok.mp (Except.mapError_eq_ok.mp hq)
    obtain ⟨q', hq', hs⟩ := Except.bind_eq_ok.mp hs
    obtain ⟨-, rfl⟩ := Quantity.quo_eq_ok.mp (Except.mapError_eq_ok.mp hq')
    obtain ⟨⟨t, pool⟩, hpay, hfinal⟩ := Except.bind_eq_ok.mp hs
    cases Except.pure_eq_ok.mp hfinal
    exact ((PaidOut.refl h).escrowReward (fun h0 => by simp [h0]) hpay).invariant h

theorem Invariant.rewardBlockProposing (h : s.Invariant) {epoch : EpochTime}
    {proposingEntity : Option Addr} {numEligibleValidators numSigningEntities : ℕ}
    (hs : s.rewardBlockProposing epoch proposingEntity numEligibleValidators numSigningEntities =
      .ok s') : s'.Invariant := by
  unfold StakingState.rewardBlockProposing at hs
  cases proposingEntity with
  | none =>
    cases Except.pure_eq_ok.mp hs
    exact h
  | some proposerAddr =>
    dsimp only at hs
    split_ifs at hs
    · cases Except.pure_eq_ok.mp hs
      exact h
    · exact h.addRewardSingleAttenuated hs

theorem Invariant.rewardEpochSigning {K : Type} [LinearOrder K] (h : s.Invariant)
    {newAddress : K → Addr} {order : IterOrder K} {es : EpochSigning K} {time : EpochTime}
    (hs : s.rewardEpochSigning newAddress order es time = .ok s') : s'.Invariant := by
  unfold StakingState.rewardEpochSigning at hs
  split_ifs at hs
  · cases Except.pure_eq_ok.mp hs
    exact h
  · cases Except.pure_eq_ok.mp hs
    exact h
  · obtain ⟨eligible, -, hs⟩ := Except.bind_eq_ok.mp hs
    exact h.addRewards (Except.mapError_eq_ok.mp hs)

/-! ## Transfers out of the common pool -/

/-- The escrow of `TransferFromCommon` moves `transferred` from the general balance of the
account into its active pool and mints `shares` for its delegation to itself, as many as
`transferred` into a pool without shares. Of the state only the delegations change. -/
theorem escrowTransferred_eq_ok_inv {epoch : EpochTime} {toAddr : Addr}
    {toAccount a' : Account Addr} {transferred : ℕ}
    (h : s.escrowTransferred epoch toAddr toAccount transferred = .ok (t, a')) :
    ∃ shares, transferred ≤ toAccount.general.balance ∧
      a'.general.balance = toAccount.general.balance - transferred ∧
      a'.escrow.active.balance = toAccount.escrow.active.balance + transferred ∧
      a'.escrow.active.totalShares = toAccount.escrow.active.totalShares + shares ∧
      (toAccount.escrow.active.totalShares = 0 → shares = transferred) ∧
      a'.escrow.debonding = toAccount.escrow.debonding ∧
      (∀ a, t.delegatedShares a = s.delegatedShares a + if a = toAddr then shares else 0) ∧
      t = { s with delegations := t.delegations } := by
  unfold escrowTransferred at h
  obtain ⟨⟨com, toAccount₁⟩, hsplit, h⟩ := Except.bind_eq_ok.mp h
  obtain ⟨⟨t₁, active, general⟩, hdeposit, hfinal⟩ := Except.bind_eq_ok.mp h
  obtain ⟨rfl, rfl⟩ := Prod.mk.inj (Except.pure_eq_ok.mp hfinal)
  obtain ⟨shares, hcomle, rfl, rfl, hminted, hdelegated, hrest⟩ :=
    depositCommission_eq_ok_inv hdeposit
  refine ⟨shares, ?_⟩
  split_ifs at hsplit with hshares₀
  · -- Into a pool with shares, what remains after commission goes in first.
    obtain ⟨⟨com', rest⟩, hcom, hsplit⟩ := Except.bind_eq_ok.mp hsplit
    obtain ⟨hle, rfl⟩ := computeCommission_le hcom
    obtain ⟨⟨balance, general⟩, hmove, hsplit⟩ := Except.bind_eq_ok.mp hsplit
    obtain ⟨hrestle, rfl, rfl⟩ := Quantity.move_eq_ok.mp (Except.mapError_eq_ok.mp hmove)
    obtain ⟨rfl, rfl⟩ := Prod.mk.inj (Except.pure_eq_ok.mp hsplit)
    dsimp only at hcomle ⊢
    refine ⟨by omega, by omega, by omega, rfl, fun h0 => absurd h0 hshares₀, rfl, hdelegated,
      hrest⟩
  · -- Into a pool without shares, everything is commission.
    obtain ⟨rfl, rfl⟩ := Prod.mk.inj (Except.pure_eq_ok.mp hsplit)
    exact ⟨hcomle, rfl, rfl, rfl, hminted, rfl, hdelegated, hrest⟩

theorem Invariant.transferFromCommon (h : s.Invariant) {epoch : EpochTime} {toAddr : Addr}
    {amount : ℕ} {escrow moved : Bool}
    (hs : s.transferFromCommon epoch toAddr amount escrow = .ok (s', moved)) : s'.Invariant := by
  unfold StakingState.transferFromCommon at hs
  dsimp only at hs
  rw [moveUpTo_eq] at hs
  dsimp only at hs
  have hle : min s.commonPool amount ≤ s.commonPool := Nat.min_le_left _ _
  generalize min s.commonPool amount = m at hle hs
  by_cases hzero : m = 0
  · rw [if_pos hzero] at hs
    cases Except.pure_eq_ok.mp hs
    exact h
  rw [if_neg hzero] at hs
  obtain ⟨⟨t, a'⟩, hescrow, hfinal⟩ := Except.bind_eq_ok.mp hs
  obtain ⟨rfl, -⟩ := Prod.mk.inj (Except.pure_eq_ok.mp hfinal)
  have hsupply := h.supply
  cases escrow with
  | false =>
    -- The amount moved lands in the general balance.
    rw [if_neg Bool.false_ne_true] at hescrow
    obtain ⟨rfl, rfl⟩ := Prod.mk.inj (Except.pure_eq_ok.mp hescrow)
    dsimp only
    set credited : Account Addr := { s.accounts.get toAddr with
      general := { (s.accounts.get toAddr).general with
        balance := (s.accounts.get toAddr).general.balance + m } }
    have hset := accountBalances_setAccount_general s toAddr credited rfl rfl
    have hcredited : credited.general.balance = (s.accounts.get toAddr).general.balance + m := rfl
    refine h.of_keepsPools ((KeepsPools.setAccount s toAddr credited rfl rfl).trans
      ⟨fun _ => rfl, fun _ => rfl, rfl, rfl, rfl⟩) ?_
    show (s.setAccount toAddr credited).accountBalances + (s.commonPool - m) + s.lastBlockFees +
      s.governanceDeposits = s.totalSupply
    omega
  | true =>
    -- The amount moved goes on into the active pool.
    rw [if_pos rfl] at hescrow
    obtain ⟨shares, -, hgeneral, hactive, htotal, hminted, hdebonding, hdelegated, hrest⟩ :=
      escrowTransferred_eq_ok_inv hescrow
    dsimp only at hgeneral hactive htotal hminted hdebonding ⊢
    have haccounts : t.accounts = s.accounts := by rw [hrest]
    refine ⟨h.deposited (fun a => hdelegated a)
      (by rw [debondingDelegations_setAccount, hrest]) (by rw [debondingQueue_setAccount, hrest])
      (fun a => ?_) (fun a => ?_) htotal (fun h0 => ?_), ?_⟩
    · by_cases ha : a = toAddr
      · simp [ha]
      · simp [ha, haccounts]
    · by_cases ha : a = toAddr
      · simp [ha, hdebonding]
      · simp [ha, haccounts]
    · -- A pool that had no shares gets as many as the amount moved, which is not zero.
      have hshares₀ : (s.accounts.get toAddr).escrow.active.totalShares = 0 := by omega
      have := hminted hshares₀
      omega
    · have hset := accountBalances_setAccount t toAddr a'
      have hbalances : t.accountBalances = s.accountBalances := by
        unfold accountBalances
        rw [haccounts]
      rw [haccounts, hbalances, hgeneral, hactive, hdebonding] at hset
      have hfees : t.lastBlockFees = s.lastBlockFees := by rw [hrest]
      have hdeposits : t.governanceDeposits = s.governanceDeposits := by rw [hrest]
      have htotalSupply : t.totalSupply = s.totalSupply := by rw [hrest]
      show (t.setAccount toAddr a').accountBalances + (s.commonPool - m) + t.lastBlockFees +
        t.governanceDeposits = t.totalSupply
      omega

/-- `TransferFromCommon` takes what the common pool can give of `amount`, and no more. -/
theorem transferFromCommon_commonPool {epoch : EpochTime} {toAddr : Addr} {amount : ℕ}
    {escrow moved : Bool} (hs : s.transferFromCommon epoch toAddr amount escrow = .ok (s', moved)) :
    s'.commonPool = s.commonPool - min s.commonPool amount := by
  unfold StakingState.transferFromCommon at hs
  dsimp only at hs
  rw [moveUpTo_eq] at hs
  dsimp only at hs
  by_cases hzero : min s.commonPool amount = 0
  · rw [if_pos hzero] at hs
    cases Except.pure_eq_ok.mp hs
    omega
  · rw [if_neg hzero] at hs
    obtain ⟨⟨t, a'⟩, -, hfinal⟩ := Except.bind_eq_ok.mp hs
    obtain ⟨rfl, -⟩ := Prod.mk.inj (Except.pure_eq_ok.mp hfinal)
    rfl

/-! ## Slashing -/

/-- The escrow half depends on the pools' balances only through `Consistent`: pools that hold
less, with the same shares, keep it. -/
theorem EscrowInvariant.of_balances_le (h : s.EscrowInvariant) (hdelegations : t.delegations = s.delegations)
    (hdebondingDelegations : t.debondingDelegations = s.debondingDelegations)
    (hqueue : t.debondingQueue = s.debondingQueue)
    (hactive : ∀ a, (t.accounts.get a).escrow.active.totalShares =
        (s.accounts.get a).escrow.active.totalShares ∧
      (t.accounts.get a).escrow.active.balance ≤ (s.accounts.get a).escrow.active.balance)
    (hdebonding : ∀ a, (t.accounts.get a).escrow.debonding.totalShares =
        (s.accounts.get a).escrow.debonding.totalShares ∧
      (t.accounts.get a).escrow.debonding.balance ≤ (s.accounts.get a).escrow.debonding.balance) :
    t.EscrowInvariant := by
  have hdelegated : t.delegatedShares = s.delegatedShares := by
    unfold delegatedShares
    rw [hdelegations]
  have hdebondingShares : t.debondingShares = s.debondingShares := by
    unfold StakingState.debondingShares
    rw [hdebondingDelegations]
  have hdescriptor : t.debondingDelegation = s.debondingDelegation := by
    unfold debondingDelegation
    rw [hdebondingDelegations]
  refine ⟨fun a => ?_, fun a => ?_, fun a => ?_, fun a => ?_, fun k hk => ?_⟩
  · rw [(hactive a).1, hdelegated]
    exact h.activeShares a
  · rw [(hdebonding a).1, hdebondingShares]
    exact h.debondingShares a
  · intro h0
    have := h.activeConsistent a (by rw [← (hactive a).1]; exact h0)
    have := (hactive a).2
    omega
  · intro h0
    have := h.debondingConsistent a (by rw [← (hdebonding a).1]; exact h0)
    have := (hdebonding a).2
    omega
  · rw [hdescriptor]
    exact h.queue k (hqueue ▸ hk)

theorem Invariant.slashEscrow (h : s.Invariant) {fromAddr : Addr} {amount slashed : ℕ}
    (hs : s.slashEscrow fromAddr amount = .ok (s', slashed)) : s'.Invariant := by
  obtain ⟨t, ht, hget, -, hbalances, hrest⟩ := slashEscrow_eq_ok s fromAddr amount
  rw [ht] at hs
  obtain ⟨rfl, -⟩ := Prod.mk.inj (Except.ok.inj hs)
  -- Only the balances of the account's pools fall; the shares stay.
  have hpools : ∀ a, ((t.accounts.get a).escrow.active.totalShares =
        (s.accounts.get a).escrow.active.totalShares ∧
      (t.accounts.get a).escrow.active.balance ≤ (s.accounts.get a).escrow.active.balance) ∧
      ((t.accounts.get a).escrow.debonding.totalShares =
        (s.accounts.get a).escrow.debonding.totalShares ∧
      (t.accounts.get a).escrow.debonding.balance ≤ (s.accounts.get a).escrow.debonding.balance) := by
    intro a
    rw [hget]
    split_ifs with ha
    · subst ha
      exact ⟨⟨rfl, Nat.sub_le _ _⟩, rfl, Nat.sub_le _ _⟩
    · exact ⟨⟨rfl, le_rfl⟩, rfl, le_rfl⟩
  refine ⟨h.of_balances_le (by rw [hrest]) (by rw [hrest]) (by rw [hrest]) (fun a => (hpools a).1)
    (fun a => (hpools a).2), ?_⟩
  have hfees : t.lastBlockFees = s.lastBlockFees := by rw [hrest]
  have hdeposits : t.governanceDeposits = s.governanceDeposits := by rw [hrest]
  have htotalSupply : t.totalSupply = s.totalSupply := by rw [hrest]
  have hsupply := h.supply
  omega

/-! ## Governance deposits -/

theorem Invariant.transferToGovernanceDeposits (h : s.Invariant) {fromAddr : Addr} {amount : ℕ}
    (hs : s.transferToGovernanceDeposits fromAddr amount = .ok s') : s'.Invariant := by
  unfold StakingState.transferToGovernanceDeposits at hs
  obtain ⟨⟨deposits, balance⟩, hmove, hfinal⟩ := Except.bind_eq_ok.mp hs
  obtain ⟨hle, rfl, rfl⟩ := Quantity.move_eq_ok.mp hmove
  cases Except.pure_eq_ok.mp hfinal
  set debited : Account Addr := { s.accounts.get fromAddr with
    general := { (s.accounts.get fromAddr).general with
      balance := (s.accounts.get fromAddr).general.balance - amount } }
  have hset := accountBalances_setAccount_general s fromAddr debited rfl rfl
  have hdebited : debited.general.balance = (s.accounts.get fromAddr).general.balance - amount :=
    rfl
  refine h.of_keepsPools ((KeepsPools.setAccount s fromAddr debited rfl rfl).trans
    ⟨fun _ => rfl, fun _ => rfl, rfl, rfl, rfl⟩) ?_
  have hsupply := h.supply
  show (s.setAccount fromAddr debited).accountBalances + s.commonPool + s.lastBlockFees +
    (s.governanceDeposits + amount) = s.totalSupply
  omega

theorem Invariant.transferFromGovernanceDeposits (h : s.Invariant) {toAddr : Addr} {amount : ℕ}
    (hs : s.transferFromGovernanceDeposits toAddr amount = .ok s') : s'.Invariant := by
  unfold StakingState.transferFromGovernanceDeposits at hs
  obtain ⟨⟨balance, deposits⟩, hmove, hfinal⟩ := Except.bind_eq_ok.mp hs
  obtain ⟨hle, rfl, rfl⟩ := Quantity.move_eq_ok.mp hmove
  cases Except.pure_eq_ok.mp hfinal
  set credited : Account Addr := { s.accounts.get toAddr with
    general := { (s.accounts.get toAddr).general with
      balance := (s.accounts.get toAddr).general.balance + amount } }
  have hset := accountBalances_setAccount_general s toAddr credited rfl rfl
  have hcredited : credited.general.balance = (s.accounts.get toAddr).general.balance + amount :=
    rfl
  refine h.of_keepsPools ((KeepsPools.setAccount s toAddr credited rfl rfl).trans
    ⟨fun _ => rfl, fun _ => rfl, rfl, rfl, rfl⟩) ?_
  have hsupply := h.supply
  show (s.setAccount toAddr credited).accountBalances + s.commonPool + s.lastBlockFees +
    (s.governanceDeposits - amount) = s.totalSupply
  omega

theorem Invariant.discardGovernanceDeposit (h : s.Invariant) {amount : ℕ}
    (hs : s.discardGovernanceDeposit amount = .ok s') : s'.Invariant := by
  unfold StakingState.discardGovernanceDeposit at hs
  obtain ⟨⟨commonPool, deposits⟩, hmove, hfinal⟩ := Except.bind_eq_ok.mp hs
  obtain ⟨hle, rfl, rfl⟩ := Quantity.move_eq_ok.mp hmove
  cases Except.pure_eq_ok.mp hfinal
  refine h.of_keepsPools ⟨fun _ => rfl, fun _ => rfl, rfl, rfl, rfl⟩ ?_
  have hsupply := h.supply
  show s.accountBalances + (s.commonPool + amount) + s.lastBlockFees +
    (s.governanceDeposits - amount) = s.totalSupply
  omega

end Payouts

end StakingState

end Staking

end OasisCore
