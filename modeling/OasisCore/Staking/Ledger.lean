import OasisCore.Staking.Rewards
import OasisCore.Staking.Transactions

/-!
# The ledger invariant

`LedgerInvariant` is what the supplementary sanity checker asserts after every block
(`go/consensus/cometbft/apps/supplementarysanity/checks.go:158-296`). It follows from
`Invariant`: the supply is the sum of the balances, every escrow pool has the shares of its
(debonding) delegation records, a pool without shares holds nothing
(`SharePool.Consistent`), and every key of the debonding queue names a descriptor that ends
at the key's epoch.

The last two are what the release of `onEpochChange` needs: it erases the descriptor under
the end epoch the descriptor carries, not the key's, and a pool emptied of its last shares
must have paid out everything. Every transaction of `ExecuteTx`, every staking runtime
message and every release keeps `Invariant`; and from a state where it holds, the release of
an epoch change never fails (`releaseExpired_succeeds`).
-/

namespace OasisCore

namespace Staking

namespace SharePool

/-- Depositing `amount` for the shares `sharesForStake` mints keeps a pool consistent. -/
theorem Consistent.add_of_sharesForStake {p : SharePool} (hp : p.Consistent) {amount shares : ℕ}
    (h : p.sharesForStake amount = .ok shares) :
    (⟨p.balance + amount, p.totalShares + shares⟩ : SharePool).Consistent :=
  hp.deposit (deposit_eq_ok.mpr ⟨h, le_rfl, rfl, rfl, rfl⟩ :
    p.deposit 0 amount amount = .ok (_, 0 + shares, amount - amount, shares))

/-- Burning `n` of the shares of a pool for their value keeps it consistent. -/
theorem Consistent.sub_stakeForShares {p : SharePool} (hp : p.Consistent) {n : ℕ}
    (hn : n ≤ p.totalShares) :
    (⟨p.balance - p.stakeForShares n, p.totalShares - n⟩ : SharePool).Consistent :=
  hp.withdraw (withdraw_eq_ok.mpr ⟨le_rfl, hn, rfl, rfl, rfl⟩ :
    p.withdraw 0 n n = .ok (_, 0 + p.stakeForShares n, n - n))

end SharePool

namespace StakingState

section Invariant

variable {Addr : Type} [DecidableEq Addr]

/-! ## The share totals after a write -/

@[simp] theorem totalSupply_setAccount (s : StakingState Addr) (addr : Addr) (a : Account Addr) :
    (s.setAccount addr a).totalSupply = s.totalSupply := rfl

@[simp] theorem commonPool_setAccount (s : StakingState Addr) (addr : Addr) (a : Account Addr) :
    (s.setAccount addr a).commonPool = s.commonPool := rfl

@[simp] theorem lastBlockFees_setAccount (s : StakingState Addr) (addr : Addr)
    (a : Account Addr) : (s.setAccount addr a).lastBlockFees = s.lastBlockFees := rfl

@[simp] theorem governanceDeposits_setAccount (s : StakingState Addr) (addr : Addr)
    (a : Account Addr) : (s.setAccount addr a).governanceDeposits = s.governanceDeposits := rfl

@[simp] theorem totalSupply_setDelegation (s : StakingState Addr) (delegator escrow : Addr)
    (d : Delegation) : (s.setDelegation delegator escrow d).totalSupply = s.totalSupply := by
  rw [setDelegation_eq]

@[simp] theorem commonPool_setDelegation (s : StakingState Addr) (delegator escrow : Addr)
    (d : Delegation) : (s.setDelegation delegator escrow d).commonPool = s.commonPool := by
  rw [setDelegation_eq]

@[simp] theorem lastBlockFees_setDelegation (s : StakingState Addr) (delegator escrow : Addr)
    (d : Delegation) : (s.setDelegation delegator escrow d).lastBlockFees = s.lastBlockFees := by
  rw [setDelegation_eq]

@[simp] theorem governanceDeposits_setDelegation (s : StakingState Addr)
    (delegator escrow : Addr) (d : Delegation) :
    (s.setDelegation delegator escrow d).governanceDeposits = s.governanceDeposits := by
  rw [setDelegation_eq]

@[simp] theorem accountBalances_setDelegation (s : StakingState Addr) (delegator escrow : Addr)
    (d : Delegation) :
    (s.setDelegation delegator escrow d).accountBalances = s.accountBalances := by
  unfold accountBalances
  rw [accounts_setDelegation]

@[simp] theorem delegatedShares_setAccount (s : StakingState Addr) (addr : Addr)
    (a : Account Addr) : (s.setAccount addr a).delegatedShares = s.delegatedShares := rfl

@[simp] theorem debondingShares_setAccount (s : StakingState Addr) (addr : Addr)
    (a : Account Addr) : (s.setAccount addr a).debondingShares = s.debondingShares := rfl

@[simp] theorem debondingShares_setDelegation (s : StakingState Addr) (delegator escrow : Addr)
    (d : Delegation) :
    (s.setDelegation delegator escrow d).debondingShares = s.debondingShares := by
  unfold setDelegation
  split <;> rfl

@[simp] theorem debondingDelegation_setDelegation (s : StakingState Addr)
    (delegator escrow : Addr) (d : Delegation) :
    (s.setDelegation delegator escrow d).debondingDelegation = s.debondingDelegation := by
  unfold setDelegation
  split <;> rfl

/-- Storing a delegation to `escrow` changes the shares delegated to it by the change of
the record, stated without subtraction. -/
theorem delegatedShares_setDelegation (s : StakingState Addr) (delegator escrow a : Addr)
    (d : Delegation) :
    (s.setDelegation delegator escrow d).delegatedShares a +
        (if escrow = a then s.delegations.get (escrow, delegator) else 0) =
      s.delegatedShares a + if escrow = a then d.shares else 0 := by
  have hf : ∀ k : Addr × Addr, (if k.1 = a then (default : ℕ) else 0) = 0 := fun k => by
    split <;> rfl
  unfold setDelegation delegatedShares
  split
  · rename_i hzero
    have herase := FinMap.sum_erase (fun k shares => if k.1 = a then shares else 0) hf
      s.delegations (escrow, delegator)
    simp only [hzero] at herase ⊢
    split <;> simp_all
  · exact FinMap.sum_set (fun k shares => if k.1 = a then shares else 0) hf s.delegations
      (escrow, delegator) d.shares

/-- The debonding shares to `a` after the descriptor under `key` is replaced by `d`. -/
theorem debondingShares_of_set {s s' : StakingState Addr} {key : Addr × Addr × EpochTime}
    {d : DebondingDelegation} (hset : s'.debondingDelegations = s.debondingDelegations.set key d)
    (a : Addr) :
    s'.debondingShares a + (if key.2.1 = a then (s.debondingDelegations.get key).shares else 0) =
      s.debondingShares a + if key.2.1 = a then d.shares else 0 := by
  unfold debondingShares
  rw [hset]
  exact FinMap.sum_set (fun k (d : DebondingDelegation) => if k.2.1 = a then d.shares else 0)
    (fun k => by split <;> rfl) s.debondingDelegations key d

/-- The debonding shares to `a` after the descriptor under `key` is removed. -/
theorem debondingShares_of_erase {s s' : StakingState Addr} {key : Addr × Addr × EpochTime}
    (herase : s'.debondingDelegations = s.debondingDelegations.erase key) (a : Addr) :
    s'.debondingShares a + (if key.2.1 = a then (s.debondingDelegations.get key).shares else 0) =
      s.debondingShares a := by
  unfold debondingShares
  rw [herase]
  exact FinMap.sum_erase (fun k (d : DebondingDelegation) => if k.2.1 = a then d.shares else 0)
    (fun k => by split <;> rfl) s.debondingDelegations key

theorem delegatedShares_eq_zero {s : StakingState Addr} {a : Addr} (h : s.NoDelegations a) :
    s.delegatedShares a = 0 :=
  Finset.sum_eq_zero fun k hk => if_neg (h k hk)

theorem debondingShares_eq_zero {s : StakingState Addr} {a : Addr}
    (h : s.NoDebondingDelegations a) : s.debondingShares a = 0 :=
  Finset.sum_eq_zero fun k hk => if_neg (h k hk)

omit [DecidableEq Addr] in
/-- One general balance is bounded by the balances of all accounts. -/
theorem balance_le_accountBalances (s : StakingState Addr) (addr : Addr) :
    (s.accounts.get addr).general.balance ≤ s.accountBalances := by
  have hle := FinMap.le_sum (fun _ a => a.general.balance + a.escrow.active.balance +
    a.escrow.debonding.balance) (fun _ => rfl) s.accounts addr
  unfold accountBalances
  omega

/-- Writing an account that holds what the one it replaces held keeps the balances. -/
theorem accountBalances_setAccount_of_holdings (s : StakingState Addr)
    (addr : Addr) (a : Account Addr)
    (h : a.general.balance + a.escrow.active.balance + a.escrow.debonding.balance =
      (s.accounts.get addr).general.balance + (s.accounts.get addr).escrow.active.balance +
        (s.accounts.get addr).escrow.debonding.balance) :
    (s.setAccount addr a).accountBalances = s.accountBalances := by
  have hset := accountBalances_setAccount s addr a
  omega

/-- Writing an account with the pools of the one it replaces changes the balances by the
change of its general balance. -/
theorem accountBalances_setAccount_general (s : StakingState Addr) (addr : Addr)
    (a : Account Addr) (hactive : a.escrow.active = (s.accounts.get addr).escrow.active)
    (hdebonding : a.escrow.debonding = (s.accounts.get addr).escrow.debonding) :
    (s.setAccount addr a).accountBalances + (s.accounts.get addr).general.balance =
      s.accountBalances + a.general.balance := by
  have hset := accountBalances_setAccount s addr a
  rw [hactive, hdebonding] at hset
  omega

/-! ## The invariant -/

/-- The escrow half of the invariant: every pool has the shares of its records, a pool
without shares holds nothing, and every queued key (end epoch, delegator, escrow) names a
descriptor that ends at that epoch. -/
structure EscrowInvariant (s : StakingState Addr) : Prop where
  activeShares : ∀ a, (s.accounts.get a).escrow.active.totalShares = s.delegatedShares a
  debondingShares : ∀ a, (s.accounts.get a).escrow.debonding.totalShares = s.debondingShares a
  activeConsistent : ∀ a, (s.accounts.get a).escrow.active.Consistent
  debondingConsistent : ∀ a, (s.accounts.get a).escrow.debonding.Consistent
  queue : ∀ k ∈ s.debondingQueue, (s.debondingDelegation k.2.1 k.2.2 k.1).debondEndTime = k.1

/-- The invariant the staking transactions and the debonding release keep: the supply is
exactly the balances of the accounts, the common pool, the last block fees and the
governance deposits, and the escrow half holds. -/
structure Invariant (s : StakingState Addr) : Prop extends s.EscrowInvariant where
  supply : s.accountBalances + s.commonPool + s.lastBlockFees + s.governanceDeposits =
    s.totalSupply

/-- The invariant gives the sanity checker's: an account without delegations has no
shares, so its consistent pool holds nothing. -/
theorem Invariant.ledgerInvariant {s : StakingState Addr} (h : s.Invariant) :
    s.LedgerInvariant where
  supply := h.supply
  activeShares := h.activeShares
  debondingShares := h.debondingShares
  activeEmpty a hnone :=
    h.activeConsistent a ((h.activeShares a).trans (delegatedShares_eq_zero hnone))
  debondingEmpty a hnone :=
    h.debondingConsistent a ((h.debondingShares a).trans (debondingShares_eq_zero hnone))

/-- A general balance is part of the supply. -/
theorem Invariant.balance_le_totalSupply {s : StakingState Addr} (h : s.Invariant) (addr : Addr) :
    (s.accounts.get addr).general.balance ≤ s.totalSupply := by
  have hbalance := balance_le_accountBalances s addr
  have hsupply := h.supply
  omega

/-! ## Steps that keep the pools -/

/-- `s'` has the pools, the (debonding) delegations and the queue of `s`: only general
accounts, commission schedules and the global balances may differ. -/
structure KeepsPools (s s' : StakingState Addr) : Prop where
  active : ∀ a, (s'.accounts.get a).escrow.active = (s.accounts.get a).escrow.active
  debonding : ∀ a, (s'.accounts.get a).escrow.debonding = (s.accounts.get a).escrow.debonding
  delegations : s'.delegations = s.delegations
  debondingDelegations : s'.debondingDelegations = s.debondingDelegations
  debondingQueue : s'.debondingQueue = s.debondingQueue

namespace KeepsPools

variable {s t u : StakingState Addr}

omit [DecidableEq Addr] in
theorem trans (h₁ : KeepsPools s t) (h₂ : KeepsPools t u) : KeepsPools s u where
  active a := (h₂.active a).trans (h₁.active a)
  debonding a := (h₂.debonding a).trans (h₁.debonding a)
  delegations := h₂.delegations.trans h₁.delegations
  debondingDelegations := h₂.debondingDelegations.trans h₁.debondingDelegations
  debondingQueue := h₂.debondingQueue.trans h₁.debondingQueue

theorem setAccount (s : StakingState Addr) (addr : Addr) (a : Account Addr)
    (hactive : a.escrow.active = (s.accounts.get addr).escrow.active)
    (hdebonding : a.escrow.debonding = (s.accounts.get addr).escrow.debonding) :
    KeepsPools s (s.setAccount addr a) where
  active b := by
    by_cases hb : b = addr
    · subst hb
      simpa using hactive
    · simp [hb]
  debonding b := by
    by_cases hb : b = addr
    · subst hb
      simpa using hdebonding
    · simp [hb]
  delegations := rfl
  debondingDelegations := rfl
  debondingQueue := rfl

/-- The escrow half depends on the pools and the records only. -/
theorem escrowInvariant (hk : KeepsPools s t) (h : s.EscrowInvariant) : t.EscrowInvariant := by
  have hdelegated : t.delegatedShares = s.delegatedShares := by
    unfold delegatedShares
    rw [hk.delegations]
  have hdebonding : t.debondingShares = s.debondingShares := by
    unfold debondingShares
    rw [hk.debondingDelegations]
  have hdescriptor : t.debondingDelegation = s.debondingDelegation := by
    unfold debondingDelegation
    rw [hk.debondingDelegations]
  refine ⟨fun a => ?_, fun a => ?_, fun a => ?_, fun a => ?_, fun k hq => ?_⟩
  · rw [hk.active, hdelegated]
    exact h.activeShares a
  · rw [hk.debonding, hdebonding]
    exact h.debondingShares a
  · rw [hk.active]
    exact h.activeConsistent a
  · rw [hk.debonding]
    exact h.debondingConsistent a
  · rw [hdescriptor]
    exact h.queue k (hk.debondingQueue ▸ hq)

end KeepsPools

/-! ## The transactions that keep the pools -/

section Transactions

variable {space : AddressSpace Addr} {s s' : StakingState Addr}

/-- A step that keeps the pools keeps the invariant when it keeps the supply equation. -/
theorem Invariant.of_keepsPools (h : s.Invariant) (hk : KeepsPools s s')
    (hsupply : s'.accountBalances + s'.commonPool + s'.lastBlockFees + s'.governanceDeposits =
      s'.totalSupply) : s'.Invariant :=
  { hk.escrowInvariant h.toEscrowInvariant with supply := hsupply }

/-- Moving `amount` from the general balance of `src` to that of another account `dst`,
written destination first, as `transferImpl` and `withdraw` store it: `a` and `b` are the
accounts written, with the pools of the ones they replace. -/
theorem Invariant.moveGeneral (h : s.Invariant) {src dst : Addr} (hne : src ≠ dst)
    {a b : Account Addr} {amount : ℕ}
    (haActive : a.escrow.active = (s.accounts.get src).escrow.active)
    (haDebonding : a.escrow.debonding = (s.accounts.get src).escrow.debonding)
    (haBalance : a.general.balance + amount = (s.accounts.get src).general.balance)
    (hbActive : b.escrow.active = (s.accounts.get dst).escrow.active)
    (hbDebonding : b.escrow.debonding = (s.accounts.get dst).escrow.debonding)
    (hbBalance : b.general.balance = (s.accounts.get dst).general.balance + amount) :
    ((s.setAccount dst b).setAccount src a).Invariant := by
  have hsrc : (s.setAccount dst b).accounts.get src = s.accounts.get src := by simp [hne]
  rw [← hsrc] at haActive haDebonding haBalance
  refine h.of_keepsPools ((KeepsPools.setAccount s dst b hbActive hbDebonding).trans
    (KeepsPools.setAccount _ src a haActive haDebonding)) ?_
  have h₁ := accountBalances_setAccount_general s dst b hbActive hbDebonding
  have h₂ := accountBalances_setAccount_general _ src a haActive haDebonding
  have hsupply := h.supply
  simp only [totalSupply_setAccount, commonPool_setAccount, lastBlockFees_setAccount,
    governanceDeposits_setAccount]
  omega

theorem Invariant.transferImpl (h : s.Invariant) {fromAddr : Addr} {xfer : Transfer Addr}
    (hs : s.transferImpl fromAddr xfer = .ok s') : s'.Invariant := by
  obtain ⟨-, hle, hcases⟩ := transferImpl_eq_ok hs
  split at hcases
  · -- A transfer to oneself writes the account back as it is.
    subst hcases
    refine h.of_keepsPools (KeepsPools.setAccount s fromAddr _ rfl rfl) ?_
    have hset := accountBalances_setAccount_general s fromAddr _ rfl rfl
    have hsupply := h.supply
    simp only [totalSupply_setAccount, commonPool_setAccount, lastBlockFees_setAccount,
      governanceDeposits_setAccount]
    omega
  · rename_i hself
    obtain ⟨-, -, rfl⟩ := hcases
    exact h.moveGeneral hself rfl rfl (by simp; omega) rfl rfl rfl

theorem Invariant.mutableTransfer (h : s.Invariant) {fromAddr toAddr : Addr} {amount : ℕ}
    (hs : s.mutableTransfer fromAddr toAddr amount = .ok s') : s'.Invariant := by
  rcases mutableTransfer_eq_ok hs with rfl | ⟨hne, hle, rfl⟩
  · exact h
  · -- `moveGeneral` has the destination written first; writes to two accounts commute.
    rw [setAccount_comm _ hne]
    exact h.moveGeneral hne rfl rfl (by simp; omega) rfl rfl rfl

theorem Invariant.burnImpl (h : s.Invariant) {fromAddr : Addr} {amount : ℕ}
    (hs : s.burnImpl fromAddr amount = .ok s') : s'.Invariant := by
  obtain ⟨-, hle, rfl⟩ := burnImpl_eq_ok hs
  have hsupply := h.supply
  -- The burnt amount is part of the supply, so the supply's `Sub` does not underflow.
  have hfit : amount ≤ s.totalSupply := by
    have := h.balance_le_totalSupply fromAddr
    omega
  have hk := KeepsPools.setAccount s fromAddr ((s.accounts.get fromAddr).withGeneralBalance
    ((s.accounts.get fromAddr).general.balance - amount)) rfl rfl
  refine h.of_keepsPools ⟨hk.active, hk.debonding, hk.delegations, hk.debondingDelegations,
    hk.debondingQueue⟩ ?_
  have hset := accountBalances_setAccount_general s fromAddr ((s.accounts.get fromAddr).withGeneralBalance
    ((s.accounts.get fromAddr).general.balance - amount)) rfl rfl
  simp only [Account.balance_withGeneralBalance] at hset
  show (s.setAccount fromAddr _).accountBalances + s.commonPool + s.lastBlockFees +
    s.governanceDeposits = if amount ≤ s.totalSupply then s.totalSupply - amount else s.totalSupply
  rw [if_pos hfit]
  omega

theorem Invariant.transfer (h : s.Invariant) {fromAddr : Addr} {xfer : Transfer Addr}
    (hs : s.transfer space fromAddr xfer = .ok s') : s'.Invariant := by
  obtain ⟨-, -, hcases⟩ := transfer_eq_ok hs
  split at hcases
  · exact h.burnImpl hcases
  · exact h.transferImpl hcases

theorem Invariant.burn (h : s.Invariant) {fromAddr : Addr} {b : Burn}
    (hs : s.burn space fromAddr b = .ok s') : s'.Invariant :=
  h.burnImpl (burn_eq_ok hs).2

theorem Invariant.allow (h : s.Invariant) {addr : Addr} {allow : Allow Addr}
    (hs : s.allow space addr allow = .ok s') : s'.Invariant := by
  obtain ⟨-, -, -, -, -, allowance, allowances, -, -, -, -, rfl⟩ := allow_eq_ok hs
  refine h.of_keepsPools (KeepsPools.setAccount s addr _ rfl rfl) ?_
  have hset := accountBalances_setAccount_general s addr { s.accounts.get addr with
    general := { (s.accounts.get addr).general with allowances } } rfl rfl
  dsimp only at hset
  have hsupply := h.supply
  simp only [totalSupply_setAccount, commonPool_setAccount, lastBlockFees_setAccount,
    governanceDeposits_setAccount]
  omega

theorem Invariant.withdraw (h : s.Invariant) {hook : WithdrawHookInvocation Addr → Bool}
    {toAddr : Addr} {withdraw : Withdraw Addr}
    (hs : s.withdraw space hook toAddr withdraw = .ok s') : s'.Invariant := by
  obtain ⟨-, -, -, -, -, hself, fromAccount, hauth, hle, -, rfl⟩ := withdraw_eq_ok hs
  -- The authorization touches the allowances at most.
  have hkeep : fromAccount.escrow = (s.accounts.get withdraw.fromAddr).escrow ∧
      fromAccount.general.balance = (s.accounts.get withdraw.fromAddr).general.balance := by
    rcases authorizeWithdraw_eq_ok hauth with ⟨-, -, -, rfl⟩ | ⟨-, -, -, -, rfl⟩
    · exact ⟨rfl, rfl⟩
    · exact ⟨rfl, rfl⟩
  exact h.moveGeneral (Ne.symm hself) (by simp [hkeep.1]) (by simp [hkeep.1])
    (by simp; omega) rfl rfl rfl

theorem Invariant.amendCommissionSchedule (h : s.Invariant) {epoch : EpochTime}
    {fromAddr : Addr} {amendment : CommissionSchedule}
    (hs : s.amendCommissionSchedule space epoch fromAddr amendment = .ok s') : s'.Invariant := by
  obtain ⟨-, -, cs, -, rfl⟩ := amendCommissionSchedule_eq_ok.mp hs
  refine h.of_keepsPools (KeepsPools.setAccount s fromAddr _ rfl rfl) ?_
  have hset := accountBalances_setAccount_general s fromAddr { s.accounts.get fromAddr with
    escrow := { (s.accounts.get fromAddr).escrow with commissionSchedule := cs } } rfl rfl
  dsimp only at hset
  have hsupply := h.supply
  simp only [totalSupply_setAccount, commonPool_setAccount, lastBlockFees_setAccount,
    governanceDeposits_setAccount]
  omega

end Transactions

/-! ## Escrow -/

section Escrow

variable {space : AddressSpace Addr} {s s' : StakingState Addr}

/-- A delegation of `x` to `e` that gains `shares` adds them to the shares delegated to `e`. -/
theorem delegatedShares_setDelegation_add (s : StakingState Addr) (x e a : Addr) (shares : ℕ) :
    (s.setDelegation x e ⟨(s.delegation x e).shares + shares⟩).delegatedShares a =
      s.delegatedShares a + if a = e then shares else 0 := by
  have hset := delegatedShares_setDelegation s x e a ⟨(s.delegation x e).shares + shares⟩
  have hrecord : (s.delegation x e).shares = s.delegations.get (e, x) := rfl
  by_cases ha : a = e
  · subst ha
    simp only [if_true] at hset ⊢
    omega
  · simp only [ha, if_false, Ne.symm ha] at hset ⊢
    omega

/-- The escrow half after a deposit into the active pool of `e`: only the active pool of `e`
changes, to a consistent `active` with `shares` more shares, and the delegations to `e` gain
those shares. -/
theorem EscrowInvariant.deposited (h : s.EscrowInvariant) {t : StakingState Addr} {e : Addr}
    {shares : ℕ} {active : SharePool}
    (hdelegated : ∀ a, t.delegatedShares a = s.delegatedShares a + if a = e then shares else 0)
    (hdebondingDelegations : t.debondingDelegations = s.debondingDelegations)
    (hqueue : t.debondingQueue = s.debondingQueue)
    (hactive : ∀ a, (t.accounts.get a).escrow.active =
      if a = e then active else (s.accounts.get a).escrow.active)
    (hdebonding : ∀ a, (t.accounts.get a).escrow.debonding = (s.accounts.get a).escrow.debonding)
    (hshares : active.totalShares = (s.accounts.get e).escrow.active.totalShares + shares)
    (hconsistent : active.Consistent) : t.EscrowInvariant := by
  have hdebondingShares : t.debondingShares = s.debondingShares := by
    unfold StakingState.debondingShares
    rw [hdebondingDelegations]
  refine ⟨fun a => ?_, fun a => ?_, fun a => ?_, fun a => ?_, fun k hk => ?_⟩
  · rw [hactive, hdelegated, ← h.activeShares a]
    split
    · next ha => rw [ha, hshares]
    · rfl
  · rw [hdebonding, hdebondingShares]
    exact h.debondingShares a
  · rw [hactive]
    split
    · exact hconsistent
    · exact h.activeConsistent a
  · rw [hdebonding]
    exact h.debondingConsistent a
  · have hread : t.debondingDelegation = s.debondingDelegation := by
      unfold debondingDelegation
      rw [hdebondingDelegations]
    rw [hread]
    exact h.queue k (hqueue ▸ hk)

/-- The invariant after an escrow to `e`: the accounts are rewritten so that only the active
pool of `e` changes, to a consistent `active` with `shares` more shares, with the balances
kept; then the delegation of `x` to `e` gains those shares. -/
theorem Invariant.escrowed (h : s.Invariant) {s₂ : StakingState Addr} {x e : Addr}
    {shares : ℕ} {active : SharePool} (hrest : s₂ = { s with accounts := s₂.accounts })
    (hactive : ∀ a, (s₂.accounts.get a).escrow.active =
      if a = e then active else (s.accounts.get a).escrow.active)
    (hdebonding : ∀ a, (s₂.accounts.get a).escrow.debonding = (s.accounts.get a).escrow.debonding)
    (hbalances : s₂.accountBalances = s.accountBalances)
    (hshares : active.totalShares = (s.accounts.get e).escrow.active.totalShares + shares)
    (hconsistent : active.Consistent) :
    (s₂.setDelegation x e ⟨(s.delegation x e).shares + shares⟩).Invariant := by
  have hrecord : s₂.delegation x e = s.delegation x e := by
    rw [hrest]
    rfl
  have hdelegated : ∀ a, s₂.delegatedShares a = s.delegatedShares a := fun a => by
    rw [hrest]
    rfl
  refine ⟨h.deposited (fun a => ?_) ?_ ?_ (fun a => ?_) (fun a => ?_) hshares hconsistent, ?_⟩
  · rw [← hrecord, delegatedShares_setDelegation_add, hdelegated]
  · rw [debondingDelegations_setDelegation, hrest]
  · rw [debondingQueue_setDelegation, hrest]
  · rw [accounts_setDelegation]
    exact hactive a
  · rw [accounts_setDelegation]
    exact hdebonding a
  · rw [accountBalances_setDelegation, hbalances, commonPool_setDelegation,
      lastBlockFees_setDelegation, governanceDeposits_setDelegation, totalSupply_setDelegation,
      hrest]
    exact h.supply

theorem Invariant.addEscrow (h : s.Invariant) {fromAddr : Addr} {escrow : Escrow Addr}
    {runtimeMsg : Bool} (hs : s.addEscrow space fromAddr escrow runtimeMsg = .ok s') :
    s'.Invariant := by
  obtain ⟨-, -, -, -, shares, hshares, hlow, rfl⟩ := addEscrow_eq_ok hs
  have hconsistent := (h.activeConsistent escrow.account).add_of_sharesForStake hshares
  have hset := accountBalances_setAccount s fromAddr
  by_cases hself : fromAddr = escrow.account
  · -- One account gets both the new pool and the new balance.
    subst hself
    simp only [if_true]
    refine h.escrowed rfl (fun a => ?_) (fun a => ?_) ?_ rfl hconsistent
    · by_cases ha : a = escrow.account <;> simp [ha]
    · by_cases ha : a = escrow.account <;> simp [ha]
    · have := hset (((s.accounts.get escrow.account).withActive
        ⟨(s.accounts.get escrow.account).escrow.active.balance + escrow.amount,
          (s.accounts.get escrow.account).escrow.active.totalShares + shares⟩).withGeneralBalance
        ((s.accounts.get escrow.account).general.balance - escrow.amount))
      simp only [Account.balance_withGeneralBalance, Account.escrow_withGeneralBalance,
        Account.active_withActive, Account.debonding_withActive] at this
      omega
  · simp only [hself, if_false]
    refine h.escrowed rfl (fun a => ?_) (fun a => ?_) ?_ rfl hconsistent
    · by_cases ha : a = escrow.account
      · simp [ha]
      · by_cases hb : a = fromAddr <;> simp [ha, hb, hself]
    · by_cases ha : a = escrow.account
      · simp [ha]
      · by_cases hb : a = fromAddr <;> simp [ha, hb, hself]
    · have h₁ := hset ((s.accounts.get fromAddr).withGeneralBalance
        ((s.accounts.get fromAddr).general.balance - escrow.amount))
      have h₂ := accountBalances_setAccount (s.setAccount fromAddr
        ((s.accounts.get fromAddr).withGeneralBalance
          ((s.accounts.get fromAddr).general.balance - escrow.amount))) escrow.account
        ((s.accounts.get escrow.account).withActive
          ⟨(s.accounts.get escrow.account).escrow.active.balance + escrow.amount,
            (s.accounts.get escrow.account).escrow.active.totalShares + shares⟩)
      simp only [Account.balance_withGeneralBalance, Account.escrow_withGeneralBalance,
        Account.general_withActive, Account.active_withActive, Account.debonding_withActive,
        accounts_setAccount, FinMap.get_set, Ne.symm hself, if_false] at h₁ h₂
      omega

end Escrow

/-! ## Reclaiming escrow -/

section Reclaim

variable {space : AddressSpace Addr} {s s' : StakingState Addr}

/-- Storing a descriptor merges it with the one stored under its key, if any: the stored
descriptor then has the shares of both and the end epoch of the new one, which is queued. -/
theorem setDebondingDelegation_some_merged {s₁ : StakingState Addr}
    {delegatorAddr escrowAddr : Addr} {epoch : EpochTime} {d : DebondingDelegation}
    (h : s.setDebondingDelegation delegatorAddr escrowAddr epoch (some d) = .ok s₁) :
    ∃ merged : DebondingDelegation,
      merged.shares =
          d.shares + (s.debondingDelegations.get (delegatorAddr, escrowAddr, epoch)).shares ∧
        merged.debondEndTime = d.debondEndTime ∧
        s₁ = { s with
          debondingQueue := insert (d.debondEndTime, delegatorAddr, escrowAddr) s.debondingQueue
          debondingDelegations :=
            s.debondingDelegations.set (delegatorAddr, escrowAddr, epoch) merged } := by
  unfold setDebondingDelegation at h
  dsimp only at h
  split at h
  · obtain ⟨merged, hmerge, h⟩ := Except.bind_eq_ok.mp h
    cases Except.pure_eq_ok.mp h
    unfold DebondingDelegation.merge at hmerge
    split at hmerge
    · cases hmerge
    · cases hmerge
      exact ⟨{ d with shares :=
        d.shares + (s.debondingDelegations.get (delegatorAddr, escrowAddr, epoch)).shares },
        rfl, rfl, rfl⟩
  · rename_i hkey
    cases Except.pure_eq_ok.mp h
    refine ⟨d, ?_, rfl, rfl⟩
    rw [s.debondingDelegations.get_eq_default _ hkey]
    rfl

/-- What a successful `reclaimEscrow` writes: the reclaimed shares come off the delegation
and the active pool of the escrow account, their value goes into its debonding pool for
`debShares` new shares, and a descriptor of those shares is merged in under the end epoch. -/
theorem reclaimEscrow_eq_ok {epoch : EpochTime} {toAddr : Addr} {reclaim : ReclaimEscrow Addr}
    {runtimeMsg : Bool} (h : s.reclaimEscrow space epoch toAddr reclaim runtimeMsg = .ok s') :
    reclaim.shares ≤ (s.delegation toAddr reclaim.account).shares ∧
      reclaim.shares ≤ (s.accounts.get reclaim.account).escrow.active.totalShares ∧
      ∃ debShares s₁ escrowAccount,
        (s.accounts.get reclaim.account).escrow.debonding.sharesForStake
          ((s.accounts.get reclaim.account).escrow.active.stakeForShares reclaim.shares) =
            .ok debShares ∧
        s.setDebondingDelegation toAddr reclaim.account (epoch + s.parameters.debondingInterval)
          (some ⟨debShares, epoch + s.parameters.debondingInterval⟩) = .ok s₁ ∧
        escrowAccount = ((s.accounts.get reclaim.account).withActive
            ⟨(s.accounts.get reclaim.account).escrow.active.balance -
                (s.accounts.get reclaim.account).escrow.active.stakeForShares reclaim.shares,
              (s.accounts.get reclaim.account).escrow.active.totalShares - reclaim.shares⟩).withDebonding
            ⟨(s.accounts.get reclaim.account).escrow.debonding.balance +
                (s.accounts.get reclaim.account).escrow.active.stakeForShares reclaim.shares,
              (s.accounts.get reclaim.account).escrow.debonding.totalShares + debShares⟩ ∧
        s' = if toAddr = reclaim.account then
            (s₁.setDelegation toAddr reclaim.account
              ⟨(s.delegation toAddr reclaim.account).shares - reclaim.shares⟩).setAccount toAddr
              escrowAccount
          else ((s₁.setDelegation toAddr reclaim.account
              ⟨(s.delegation toAddr reclaim.account).shares - reclaim.shares⟩).setAccount toAddr
                (s.accounts.get toAddr)).setAccount reclaim.account escrowAccount := by
  unfold reclaimEscrow at h
  simp only [Except.throw_bind, Except.ite_error_eq_ok, Except.bind_eq_ok] at h
  obtain ⟨-, -, -, -, ⟨active, baseUnits, delegationShares⟩, hw,
    ⟨debonding, debShares, rest, minted⟩, hd, -, s₁, hset, hfinal⟩ := h
  -- The escrow account is the caller's own when it reclaims from itself.
  have hfrom : (if toAddr = reclaim.account then s.accounts.get toAddr
      else s.accounts.get reclaim.account) = s.accounts.get reclaim.account := by
    split <;> simp_all
  rw [hfrom] at hw hd hfinal
  obtain ⟨hle, htotal, rfl, rfl, rfl⟩ := SharePool.withdraw_eq_ok.mp (Except.mapError_eq_ok.mp hw)
  obtain ⟨hshares, -, rfl, rfl, rfl⟩ := SharePool.deposit_eq_ok.mp (Except.mapError_eq_ok.mp hd)
  simp only [Nat.zero_add] at hshares hset hfinal
  refine ⟨hle, htotal, minted, s₁, _, hshares, Except.mapError_eq_ok.mp hset, rfl, ?_⟩
  by_cases hself : toAddr = reclaim.account
  · simp only [hself, if_true] at hfinal ⊢
    exact (Except.pure_eq_ok.mp hfinal).symm
  · simp only [hself, if_false] at hfinal ⊢
    exact (Except.pure_eq_ok.mp hfinal).symm
/-- The invariant after `d` reclaims `n` shares from `e`: only the account of `e` changes, to
`a`, whose active pool gives up the shares and their value `x` and whose debonding pool takes
`x` for `m` new shares; the delegation loses the shares, the descriptor under the end epoch
gains the new ones, and the end epoch is queued. -/
theorem Invariant.reclaimed (h : s.Invariant) {d e : Addr} {n m : ℕ} {endEpoch : EpochTime}
    {merged : DebondingDelegation} {a : Account Addr}
    (hn : n ≤ (s.delegation d e).shares)
    (hnTotal : n ≤ (s.accounts.get e).escrow.active.totalShares)
    (hm : (s.accounts.get e).escrow.debonding.sharesForStake
      ((s.accounts.get e).escrow.active.stakeForShares n) = .ok m)
    (ha : a = ((s.accounts.get e).withActive
        ⟨(s.accounts.get e).escrow.active.balance -
            (s.accounts.get e).escrow.active.stakeForShares n,
          (s.accounts.get e).escrow.active.totalShares - n⟩).withDebonding
        ⟨(s.accounts.get e).escrow.debonding.balance +
            (s.accounts.get e).escrow.active.stakeForShares n,
          (s.accounts.get e).escrow.debonding.totalShares + m⟩)
    (hmergedShares : merged.shares = m + (s.debondingDelegations.get (d, e, endEpoch)).shares)
    (hmergedEnd : merged.debondEndTime = endEpoch)
    (hscalars : s'.commonPool = s.commonPool ∧ s'.lastBlockFees = s.lastBlockFees ∧
      s'.governanceDeposits = s.governanceDeposits ∧ s'.totalSupply = s.totalSupply)
    (haccounts : ∀ b, s'.accounts.get b = if b = e then a else s.accounts.get b)
    (hbalances : s'.accountBalances = s.accountBalances)
    (hdelegations : s'.delegations = (s.setDelegation d e ⟨(s.delegation d e).shares - n⟩).delegations)
    (hdebondingDelegations : s'.debondingDelegations =
      s.debondingDelegations.set (d, e, endEpoch) merged)
    (hqueue : s'.debondingQueue = insert (endEpoch, d, e) s.debondingQueue) :
    s'.Invariant := by
  subst ha
  have hrecord : (s.delegation d e).shares = s.delegations.get (e, d) := rfl
  have hdelegated : s'.delegatedShares = (s.setDelegation d e
      ⟨(s.delegation d e).shares - n⟩).delegatedShares := by
    unfold delegatedShares
    rw [hdelegations]
  have hvalue := (s.accounts.get e).escrow.active.stakeForShares_le_balance hnTotal
  refine ⟨⟨fun b => ?_, fun b => ?_, fun b => ?_, fun b => ?_, fun k hk => ?_⟩, ?_⟩
  · -- The delegation to `e` and its pool lose the reclaimed shares.
    have hset := delegatedShares_setDelegation s d e b ⟨(s.delegation d e).shares - n⟩
    have hold := h.activeShares b
    rw [haccounts, hdelegated]
    by_cases hb : b = e
    · subst hb
      simp only [if_true] at hset ⊢
      simp only [Account.active_withDebonding, Account.active_withActive]
      omega
    · simp only [hb, if_false, Ne.symm hb] at hset ⊢
      omega
  · -- The debonding pool of `e` and its descriptor gain the new shares.
    have hset := debondingShares_of_set hdebondingDelegations b
    have hold := h.debondingShares b
    rw [haccounts]
    by_cases hb : b = e
    · subst hb
      simp only [if_true] at hset ⊢
      simp only [Account.debonding_withDebonding]
      omega
    · simp only [hb, if_false, Ne.symm hb] at hset ⊢
      omega
  · rw [haccounts]
    split
    · exact (h.activeConsistent e).sub_stakeForShares hnTotal
    · exact h.activeConsistent b
  · rw [haccounts]
    split
    · exact (h.debondingConsistent e).add_of_sharesForStake hm
    · exact h.debondingConsistent b
  · -- The queued end epoch names the merged descriptor; every other key keeps its own.
    rw [hqueue] at hk
    unfold debondingDelegation
    rw [hdebondingDelegations, FinMap.get_set]
    split
    · rename_i hkey
      rw [hmergedEnd]
      simp only [Prod.mk.injEq] at hkey
      exact hkey.2.2.symm
    · rename_i hkey
      rcases Finset.mem_insert.mp hk with rfl | hk
      · exact absurd rfl hkey
      · exact h.queue k hk
  · obtain ⟨hcommon, hfees, hdeposits, htotal⟩ := hscalars
    rw [hbalances, hcommon, hfees, hdeposits, htotal]
    exact h.supply

theorem Invariant.reclaimEscrow (h : s.Invariant) {epoch : EpochTime} {toAddr : Addr}
    {reclaim : ReclaimEscrow Addr} {runtimeMsg : Bool}
    (hs : s.reclaimEscrow space epoch toAddr reclaim runtimeMsg = .ok s') : s'.Invariant := by
  obtain ⟨hn, hnTotal, m, s₁, a, hm, hset, ha, rfl⟩ := reclaimEscrow_eq_ok hs
  obtain ⟨merged, hmergedShares, hmergedEnd, rfl⟩ := setDebondingDelegation_some_merged hset
  -- The value of the reclaimed shares moves between two pools of one account.
  have hvalue := (s.accounts.get reclaim.account).escrow.active.stakeForShares_le_balance hnTotal
  have hholdings : a.general.balance + a.escrow.active.balance + a.escrow.debonding.balance =
      (s.accounts.get reclaim.account).general.balance +
        (s.accounts.get reclaim.account).escrow.active.balance +
        (s.accounts.get reclaim.account).escrow.debonding.balance := by
    subst ha
    simp only [Account.general_withDebonding, Account.general_withActive,
      Account.active_withDebonding, Account.active_withActive, Account.debonding_withDebonding]
    omega
  have hdelegations : ∀ t : StakingState Addr, t.delegations = s.delegations →
      (t.setDelegation toAddr reclaim.account
        ⟨(s.delegation toAddr reclaim.account).shares - reclaim.shares⟩).delegations =
      (s.setDelegation toAddr reclaim.account
        ⟨(s.delegation toAddr reclaim.account).shares - reclaim.shares⟩).delegations := by
    intro t ht
    unfold setDelegation
    split <;> rw [ht]
  by_cases hself : toAddr = reclaim.account
  · subst hself
    simp only [if_true]
    refine h.reclaimed hn hnTotal hm ha hmergedShares hmergedEnd (by simp) (fun b => ?_) ?_
      (by rw [delegations_setAccount]; exact hdelegations _ rfl) (by simp) (by simp)
    · by_cases hb : b = reclaim.account <;> simp [hb]
    · rw [accountBalances_setAccount_of_holdings _ _ _ (by simpa using hholdings),
        accountBalances_setDelegation]
      rfl
  · simp only [hself, if_false]
    refine h.reclaimed hn hnTotal hm ha hmergedShares hmergedEnd (by simp) (fun b => ?_) ?_
      (by rw [delegations_setAccount, delegations_setAccount]; exact hdelegations _ rfl)
      (by simp) (by simp)
    · by_cases hb : b = reclaim.account
      · simp [hb]
      · by_cases hc : b = toAddr <;> simp [hb, hc]
    · -- The caller's account is written back as it was.
      rw [accountBalances_setAccount_of_holdings _ _ _ (by simpa [Ne.symm hself] using hholdings),
        accountBalances_setAccount_of_holdings _ _ _ (by simp), accountBalances_setDelegation]
      rfl

/-- The invariant after the release of the descriptor under `(d, e, t)`: only the debonding
pool of `e` changes, giving up the descriptor's shares and their value, and the general
balances take that value; the descriptor and the queue key `(t, d, e)` are removed. -/
theorem Invariant.released {s s' : StakingState Addr} (h : s.Invariant) {d e : Addr}
    {t : EpochTime}
    (hnTotal : (s.debondingDelegations.get (d, e, t)).shares ≤
      (s.accounts.get e).escrow.debonding.totalShares)
    (hactive : ∀ b, (s'.accounts.get b).escrow.active = (s.accounts.get b).escrow.active)
    (hdebonding : ∀ b, (s'.accounts.get b).escrow.debonding = if b = e then
      ⟨(s.accounts.get e).escrow.debonding.balance - (s.accounts.get e).escrow.debonding.stakeForShares
          (s.debondingDelegations.get (d, e, t)).shares,
        (s.accounts.get e).escrow.debonding.totalShares -
          (s.debondingDelegations.get (d, e, t)).shares⟩
      else (s.accounts.get b).escrow.debonding)
    (hbalances : s'.accountBalances = s.accountBalances)
    (hscalars : s'.commonPool = s.commonPool ∧ s'.lastBlockFees = s.lastBlockFees ∧
      s'.governanceDeposits = s.governanceDeposits ∧ s'.totalSupply = s.totalSupply)
    (hdelegations : s'.delegations = s.delegations)
    (hdebondingDelegations : s'.debondingDelegations = s.debondingDelegations.erase (d, e, t))
    (hqueue : s'.debondingQueue = s.debondingQueue.erase (t, d, e)) :
    s'.Invariant := by
  have hdelegated : s'.delegatedShares = s.delegatedShares := by
    unfold delegatedShares
    rw [hdelegations]
  refine ⟨⟨fun b => ?_, fun b => ?_, fun b => ?_, fun b => ?_, fun k hk => ?_⟩, ?_⟩
  · rw [hactive, hdelegated]
    exact h.activeShares b
  · -- The pool of `e` loses the shares of the erased descriptor.
    have herase := debondingShares_of_erase hdebondingDelegations b
    have hold := h.debondingShares b
    rw [hdebonding]
    by_cases hb : b = e
    · subst hb
      simp only [if_true] at herase ⊢
      omega
    · simp only [hb, if_false, Ne.symm hb] at herase ⊢
      omega
  · rw [hactive]
    exact h.activeConsistent b
  · rw [hdebonding]
    split
    · exact (h.debondingConsistent e).sub_stakeForShares hnTotal
    · exact h.debondingConsistent b
  · -- Every other key names another descriptor, which is kept.
    rw [hqueue, Finset.mem_erase] at hk
    have hkey : (k.2.1, k.2.2, k.1) ≠ (d, e, t) := fun hkey => hk.1 (by
      simp only [Prod.mk.injEq] at hkey
      exact Prod.ext hkey.2.2 (Prod.ext hkey.1 hkey.2.1))
    unfold debondingDelegation
    rw [hdebondingDelegations, FinMap.get_erase_ne _ hkey]
    exact h.queue k hk.2
  · obtain ⟨hcommon, hfees, hdeposits, htotal⟩ := hscalars
    rw [hbalances, hcommon, hfees, hdeposits, htotal]
    exact h.supply

end Reclaim

/-! ## The dispatchers -/

section Dispatch

variable {space : AddressSpace Addr} {hook : WithdrawHookInvocation Addr → Bool}
  {s s' : StakingState Addr}

theorem Invariant.executeTx (h : s.Invariant) {epoch : EpochTime} {caller : Addr}
    {tx : Method Addr} (hs : s.executeTx space hook epoch caller tx = .ok s') : s'.Invariant := by
  unfold StakingState.executeTx at hs
  cases tx with
  | transfer xfer => exact h.transfer hs
  | burn b => exact h.burn hs
  | addEscrow escrow => exact h.addEscrow hs
  | reclaimEscrow reclaim => exact h.reclaimEscrow (Except.mapError_eq_ok.mp hs)
  | amendCommissionSchedule amendment =>
    exact h.amendCommissionSchedule (Except.mapError_eq_ok.mp hs)
  | allow a => exact h.allow hs
  | withdraw w => exact h.withdraw hs

theorem Invariant.executeMessage (h : s.Invariant) {epoch : EpochTime} {caller : Addr}
    {fromRoothash : Bool} {m : StakingMessage Addr}
    (hs : s.executeMessage space hook epoch caller fromRoothash m = .ok s') : s'.Invariant := by
  unfold StakingState.executeMessage at hs
  split at hs
  · exact h.transfer hs
  · exact h.withdraw hs
  · exact h.addEscrow hs
  · exact h.reclaimEscrow (Except.mapError_eq_ok.mp hs)
  · cases hs

end Dispatch

end Invariant

/-! ## The debonding release -/

section Release

variable {Addr : Type} [LinearOrder Addr] {s s' : StakingState Addr}

/-- What a successful release of `e` writes: the queue key and the descriptor under the end
epoch the descriptor carries are removed, the escrow's debonding pool gives up the shares of
the delegation and their value, and the delegator's general balance takes that value. -/
theorem releaseDebonding_writes {e : DebondingQueueEntry Addr}
    (h : s.releaseDebonding e = .ok s') :
    e.delegation.shares ≤ (s.accounts.get e.escrowAddr).escrow.debonding.totalShares ∧
      ∃ s₁ : StakingState Addr, s₁ = { s with
          debondingQueue := s.debondingQueue.erase (e.epoch, e.delegatorAddr, e.escrowAddr)
          debondingDelegations := s.debondingDelegations.erase
            (e.delegatorAddr, e.escrowAddr, e.delegation.debondEndTime) } ∧
        s' = if e.delegatorAddr = e.escrowAddr then
            s₁.setAccount e.delegatorAddr (((s.accounts.get e.escrowAddr).withDebonding
              ⟨(s.accounts.get e.escrowAddr).escrow.debonding.balance -
                  (s.accounts.get e.escrowAddr).escrow.debonding.stakeForShares e.delegation.shares,
                (s.accounts.get e.escrowAddr).escrow.debonding.totalShares -
                  e.delegation.shares⟩).withGeneralBalance
              ((s.accounts.get e.delegatorAddr).general.balance +
                (s.accounts.get e.escrowAddr).escrow.debonding.stakeForShares e.delegation.shares))
          else (s₁.setAccount e.delegatorAddr ((s.accounts.get e.delegatorAddr).withGeneralBalance
              ((s.accounts.get e.delegatorAddr).general.balance +
                (s.accounts.get e.escrowAddr).escrow.debonding.stakeForShares
                  e.delegation.shares))).setAccount e.escrowAddr
            ((s.accounts.get e.escrowAddr).withDebonding
              ⟨(s.accounts.get e.escrowAddr).escrow.debonding.balance -
                  (s.accounts.get e.escrowAddr).escrow.debonding.stakeForShares e.delegation.shares,
                (s.accounts.get e.escrowAddr).escrow.debonding.totalShares -
                  e.delegation.shares⟩) := by
  obtain ⟨epoch, delegatorAddr, escrowAddr, deb⟩ := e
  unfold releaseDebonding at h
  by_cases hsame : delegatorAddr = escrowAddr
  · subst hsame
    simp only [if_true, Except.bind_eq_ok] at h
    obtain ⟨⟨debonding, baseUnits, _⟩, hw, ⟨balance, _⟩, hmove, s₁, hset, hfinal⟩ := h
    obtain ⟨-, hle, rfl, rfl, -⟩ := SharePool.withdraw_eq_ok.mp (Except.mapError_eq_ok.mp hw)
    obtain ⟨-, rfl, -⟩ := Quantity.move_eq_ok.mp (Except.mapError_eq_ok.mp hmove)
    cases Except.mapError_eq_ok.mp hset
    cases Except.pure_eq_ok.mp hfinal
    refine ⟨hle, _, rfl, ?_⟩
    simp only [if_true, Nat.zero_add]
    rfl
  · simp only [hsame, if_false, Except.bind_eq_ok] at h
    obtain ⟨⟨debonding, baseUnits, _⟩, hw, ⟨balance, _⟩, hmove, s₁, hset, hfinal⟩ := h
    obtain ⟨-, hle, rfl, rfl, -⟩ := SharePool.withdraw_eq_ok.mp (Except.mapError_eq_ok.mp hw)
    obtain ⟨-, rfl, -⟩ := Quantity.move_eq_ok.mp (Except.mapError_eq_ok.mp hmove)
    cases Except.mapError_eq_ok.mp hset
    cases Except.pure_eq_ok.mp hfinal
    refine ⟨hle, _, rfl, ?_⟩
    simp only [hsame, if_false, Nat.zero_add]
    rfl

/-- A release keeps the invariant when the entry's key is queued and the entry carries the
stored descriptor: the queue invariant makes that descriptor end at the key's epoch, so the
descriptor the release erases is the one whose shares it pays out. -/
theorem Invariant.releaseDebonding (h : s.Invariant) {e : DebondingQueueEntry Addr}
    (hq : (e.epoch, e.delegatorAddr, e.escrowAddr) ∈ s.debondingQueue)
    (hd : s.debondingDelegation e.delegatorAddr e.escrowAddr e.epoch = e.delegation)
    (hs : s.releaseDebonding e = .ok s') : s'.Invariant := by
  have hend : e.delegation.debondEndTime = e.epoch := hd ▸ h.queue _ hq
  have hshares : (s.debondingDelegations.get (e.delegatorAddr, e.escrowAddr, e.epoch)).shares =
      e.delegation.shares := by
    rw [← hd]
    rfl
  obtain ⟨hnTotal, s₁, hs₁, rfl⟩ := releaseDebonding_writes hs
  rw [hend] at hs₁
  subst hs₁
  have hvalue := (s.accounts.get e.escrowAddr).escrow.debonding.stakeForShares_le_balance hnTotal
  rw [← hshares] at hnTotal
  by_cases hself : e.delegatorAddr = e.escrowAddr
  · rw [if_pos hself]
    refine h.released hnTotal (fun b => ?_) (fun b => ?_) ?_ (by simp) rfl (by simp) (by simp)
    · by_cases hb : b = e.escrowAddr <;> simp [hb, hself]
    · simp only [hself] at hshares
      by_cases hb : b = e.escrowAddr <;> simp [hb, hshares, hself]
    · rw [accountBalances_setAccount_of_holdings _ _ _ (by simp [hself]; omega)]
      rfl
  · rw [if_neg hself]
    refine h.released hnTotal (fun b => ?_) (fun b => ?_) ?_ (by simp) rfl (by simp) (by simp)
    · by_cases hb : b = e.escrowAddr
      · simp [hb]
      · by_cases hc : b = e.delegatorAddr <;> simp [hb, hc, hself]
    · by_cases hb : b = e.escrowAddr
      · simp [hb, hshares]
      · by_cases hc : b = e.delegatorAddr <;> simp [hb, hc, hself]
    · -- The value leaves the escrow's debonding pool for the delegator's general balance.
      have h₁ := accountBalances_setAccount_general
        { s with
          debondingQueue := s.debondingQueue.erase (e.epoch, e.delegatorAddr, e.escrowAddr)
          debondingDelegations :=
            s.debondingDelegations.erase (e.delegatorAddr, e.escrowAddr, e.epoch) }
        e.delegatorAddr ((s.accounts.get e.delegatorAddr).withGeneralBalance
          ((s.accounts.get e.delegatorAddr).general.balance +
            (s.accounts.get e.escrowAddr).escrow.debonding.stakeForShares e.delegation.shares))
        rfl rfl
      have h₂ := accountBalances_setAccount (({ s with
          debondingQueue := s.debondingQueue.erase (e.epoch, e.delegatorAddr, e.escrowAddr)
          debondingDelegations :=
            s.debondingDelegations.erase (e.delegatorAddr, e.escrowAddr, e.epoch) } :
          StakingState Addr).setAccount e.delegatorAddr
        ((s.accounts.get e.delegatorAddr).withGeneralBalance
          ((s.accounts.get e.delegatorAddr).general.balance +
            (s.accounts.get e.escrowAddr).escrow.debonding.stakeForShares e.delegation.shares)))
        e.escrowAddr ((s.accounts.get e.escrowAddr).withDebonding
          ⟨(s.accounts.get e.escrowAddr).escrow.debonding.balance -
              (s.accounts.get e.escrowAddr).escrow.debonding.stakeForShares e.delegation.shares,
            (s.accounts.get e.escrowAddr).escrow.debonding.totalShares - e.delegation.shares⟩)
      simp only [accounts_setAccount, FinMap.get_set, Ne.symm hself, if_false,
        Account.balance_withGeneralBalance, Account.general_withDebonding,
        Account.active_withDebonding, Account.debonding_withDebonding] at h₁ h₂
      have hsame : ({ s with
          debondingQueue := s.debondingQueue.erase (e.epoch, e.delegatorAddr, e.escrowAddr)
          debondingDelegations :=
            s.debondingDelegations.erase (e.delegatorAddr, e.escrowAddr, e.epoch) } :
          StakingState Addr).accountBalances = s.accountBalances := rfl
      omega

theorem releaseDebonding_records {e : DebondingQueueEntry Addr}
    (h : s.releaseDebonding e = .ok s') :
    s'.debondingQueue = s.debondingQueue.erase (e.epoch, e.delegatorAddr, e.escrowAddr) ∧
      s'.debondingDelegations = s.debondingDelegations.erase
        (e.delegatorAddr, e.escrowAddr, e.delegation.debondEndTime) := by
  obtain ⟨-, s₁, rfl, rfl⟩ := releaseDebonding_writes h
  split <;> exact ⟨rfl, rfl⟩

/-- The entries `ExpiredDebondingQueue` finds are queued and carry the descriptors stored
under their keys. -/
theorem mem_expiredDebondingQueue {epoch : EpochTime} {e : DebondingQueueEntry Addr}
    (he : e ∈ s.expiredDebondingQueue epoch) :
    (e.epoch, e.delegatorAddr, e.escrowAddr) ∈ s.debondingQueue ∧
      s.debondingDelegation e.delegatorAddr e.escrowAddr e.epoch = e.delegation := by
  unfold expiredDebondingQueue at he
  obtain ⟨k, hk, rfl⟩ := List.mem_map.mp he
  exact ⟨(FinMap.mem_sortedElems _).mp ((List.takeWhile_sublist _).subset hk), rfl⟩

theorem nodup_expiredDebondingQueue_keys (s : StakingState Addr) (epoch : EpochTime) :
    ((s.expiredDebondingQueue epoch).map
      fun e => (e.epoch, e.delegatorAddr, e.escrowAddr)).Nodup := by
  rw [expiredDebondingQueue_keys]
  exact (FinMap.nodup_sortedElems _ _).filter _

/-- What the release loop over `l` keeps once it has released the prefix `done`: the
invariant, and every entry after the prefix still queued with its descriptor stored. -/
structure ReleaseLoop (l done : List (DebondingQueueEntry Addr)) (cur : StakingState Addr) :
    Prop where
  invariant : cur.Invariant
  pending : ∀ rest, done ++ rest = l → ∀ e ∈ rest,
    (e.epoch, e.delegatorAddr, e.escrowAddr) ∈ cur.debondingQueue ∧
      cur.debondingDelegation e.delegatorAddr e.escrowAddr e.epoch = e.delegation

/-- One release of the loop keeps `ReleaseLoop`: the keys of `l` are distinct, so the
release of `a` removes no key and no descriptor of the entries after it. -/
theorem ReleaseLoop.step {l done rest : List (DebondingQueueEntry Addr)}
    {a : DebondingQueueEntry Addr} {cur cur' : StakingState Addr}
    (hnodup : (l.map fun e => (e.epoch, e.delegatorAddr, e.escrowAddr)).Nodup)
    (hl : done ++ a :: rest = l) (hcur : ReleaseLoop l done cur)
    (hstep : cur.releaseDebonding a = .ok cur') : ReleaseLoop l (done ++ [a]) cur' := by
  obtain ⟨hq, hd⟩ := hcur.pending (a :: rest) hl a List.mem_cons_self
  have hend : a.delegation.debondEndTime = a.epoch := hd ▸ hcur.invariant.queue _ hq
  obtain ⟨hqueue, hdescriptors⟩ := releaseDebonding_records hstep
  -- The key of `a` is not among those after it.
  have hfresh : (a.epoch, a.delegatorAddr, a.escrowAddr) ∉
      rest.map fun e => (e.epoch, e.delegatorAddr, e.escrowAddr) := by
    rw [← hl, List.map_append, List.map_cons] at hnodup
    exact (List.nodup_cons.mp (List.nodup_append.mp hnodup).2.1).1
  refine ⟨hcur.invariant.releaseDebonding hq hd hstep, fun rest' hrest' e he => ?_⟩
  obtain rfl : rest' = rest := by
    rw [← hl, List.append_assoc, List.singleton_append] at hrest'
    exact (List.cons_inj_right a).mp (List.append_cancel_left hrest')
  obtain ⟨heq, hed⟩ := hcur.pending (a :: rest') hl e (List.mem_cons_of_mem a he)
  have hne : (e.epoch, e.delegatorAddr, e.escrowAddr) ≠ (a.epoch, a.delegatorAddr, a.escrowAddr) :=
    fun h => hfresh (h ▸ List.mem_map_of_mem he)
  refine ⟨by rw [hqueue]; exact Finset.mem_erase.mpr ⟨hne, heq⟩, ?_⟩
  unfold debondingDelegation at hed ⊢
  rw [hdescriptors, hend, FinMap.get_erase_ne]
  · exact hed
  · intro h
    simp only [Prod.mk.injEq] at h
    exact hne (by rw [h.1, h.2.1, h.2.2])

/-- The release of an epoch change keeps the invariant. -/
theorem Invariant.releaseExpired (h : s.Invariant) {epoch : EpochTime}
    (hs : s.releaseExpired epoch = .ok s') : s'.Invariant :=
  (Except.foldlM_inv_of_eq_ok (s.expiredDebondingQueue epoch)
    (ReleaseLoop (s.expiredDebondingQueue epoch))
    (fun _ _ _ _ _ hl hcur hstep =>
      hcur.step (nodup_expiredDebondingQueue_keys s epoch) hl hstep)
    ⟨h, fun _ hrest e he => mem_expiredDebondingQueue (by rw [← hrest]; exact he)⟩ hs).invariant

/-- `debondingStart` keeps the invariant: the delegation of account `2` holds the 100 shares
of the pool of account `1`, which holds the whole supply. -/
theorem debondingStart_invariant : debondingStart.Invariant where
  activeShares a := by
    by_cases ha : a = 1
    · simp [debondingStart, delegatedShares, FinMap.sum, ha]
    · simp [debondingStart, delegatedShares, FinMap.sum, ha, Ne.symm ha]
      rfl
  debondingShares a := by
    by_cases ha : a = 1
    · simp [debondingStart, debondingShares, FinMap.sum, ha]
    · simp [debondingStart, debondingShares, FinMap.sum, ha]
      rfl
  activeConsistent a := by
    by_cases ha : a = 1
    · simp [debondingStart, SharePool.Consistent, ha]
    · simp [debondingStart, ha]
      decide
  debondingConsistent a := by
    by_cases ha : a = 1
    · simp [debondingStart, SharePool.Consistent, ha]
    · simp [debondingStart, ha]
      decide
  queue k hk := by simp [debondingStart] at hk
  supply := by decide

end Release

/-! ## Burning -/

section Burn

variable {Addr : Type} [DecidableEq Addr] {s s' : StakingState Addr}

/-- From a state where the invariant holds, `burnImpl`, the common path of `Burn` and of a
`Transfer` to the burn address, lowers the total supply by exactly the amount burnt, as much
as the caller's balance and the balances of all accounts. The error of the supply's `Sub`,
which `burnImpl` drops, cannot happen: the caller's balance is part of the supply. -/
theorem burnImpl_totalSupply (h : s.Invariant) {fromAddr : Addr} {amount : ℕ}
    (hs : s.burnImpl fromAddr amount = .ok s') :
    s'.totalSupply + amount = s.totalSupply ∧
      (s'.accounts.get fromAddr).general.balance + amount =
        (s.accounts.get fromAddr).general.balance ∧
      s'.accountBalances + amount = s.accountBalances := by
  obtain ⟨-, hle, rfl⟩ := burnImpl_eq_ok hs
  have hfit : amount ≤ s.totalSupply := by
    have := h.balance_le_totalSupply fromAddr
    omega
  have hset := accountBalances_setAccount_general s fromAddr
    ((s.accounts.get fromAddr).withGeneralBalance
      ((s.accounts.get fromAddr).general.balance - amount)) rfl rfl
  simp only [Account.balance_withGeneralBalance] at hset
  refine ⟨?_, ?_, ?_⟩
  · show (if amount ≤ s.totalSupply then s.totalSupply - amount else s.totalSupply) + amount =
      s.totalSupply
    rw [if_pos hfit]
    omega
  · simp only [accounts_setAccount, FinMap.get_set, if_true, Account.balance_withGeneralBalance]
    omega
  · show (s.setAccount fromAddr _).accountBalances + amount = _
    omega

end Burn

/-- After the run of `debondingStart`, account `2` burns 40 of the 100 it was paid out. -/
theorem burnImpl_totalSupply_released :
    debondingReleased.Invariant ∧ ∃ s', debondingReleased.burnImpl 2 40 = .ok s' ∧
      s'.totalSupply + 40 = debondingReleased.totalSupply ∧
      (s'.accounts.get 2).general.balance + 40 = (debondingReleased.accounts.get 2).general.balance ∧
      s'.accountBalances + 40 = debondingReleased.accountBalances := by
  have hinv : debondingReleased.Invariant :=
    (debondingStart_invariant.reclaimEscrow (rfl : debondingStart.reclaimEscrow natAddressSpace 10 2
      ⟨1, 100⟩ false = .ok debondingReclaimed)).releaseExpired
      (rfl : debondingReclaimed.releaseExpired 11 = .ok debondingReleased)
  obtain ⟨s', hs⟩ : ∃ s', debondingReleased.burnImpl 2 40 = .ok s' := ⟨_, rfl⟩
  exact ⟨hinv, s', hs, burnImpl_totalSupply hinv hs⟩

end StakingState

end Staking

end OasisCore
