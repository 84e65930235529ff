import OasisCore.Staking.SanityCheck

/-!
# Staking genesis

`InitChain` of the staking application
(`go/consensus/cometbft/apps/staking/genesis.go:16-352`): the state it builds
from a genesis document. The steps keep their Go names and order; each returns
what it writes, and the running total supply that the ledger steps add up and
`initTotalSupply` compares with the document's.

`initLastBlockFees` moves the genesis block fees into the common pool, as there
is no previous block whose voters they could be paid to.

The last section is about a genesis document that `Genesis.SanityCheck` accepts
and from which `InitChain` builds a state that breaks the staking ledger
invariant. The sanity check counts every entry of the delegation map, a
delegation without shares included, as a delegation; `SetDelegation` does not
store a delegation without shares. An account whose only delegation has no
shares passes the check with a positive active escrow balance, and the state
then holds that balance with no delegation to it.
-/

namespace OasisCore

namespace Staking

/-- The errors of `InitChain` (`genesis.go`), all starting "cometbft/staking: ". -/
inductive InitChainError (Addr : Type) where
  /-- "sanity check failed: %w", of the consensus parameters. -/
  | parameters (e : ParametersError)
  /-- "genesis ledger account %s: address is invalid". -/
  | ledgerAddressInvalid (addr : Addr)
  /-- "non-empty stake accumulator in genesis for account %s". -/
  | stakeAccumulatorNonEmpty (addr : Addr)
  /-- "total supply mismatch (expected: %s actual: %s)". -/
  | totalSupplyMismatch (expected actual : ℕ)
  /-- "failed to set genesis delegations to %s: address is invalid". -/
  | delegationsAddressInvalid (escrow : Addr)
  /-- "failed to set genesis delegation from %s to %s: delegator address is invalid". -/
  | delegatorAddressInvalid (delegator escrow : Addr)
  /-- "total active shares mismatch for account %s: actual: %s (expected: %s)". -/
  | activeSharesMismatch (escrow : Addr) (actual expected : ℕ)
  /-- "failed to set genesis debonding delegations to %s: address is invalid". -/
  | debondingDelegationsAddressInvalid (escrow : Addr)
  /-- "failed to set genesis debonding delegation from %s to %s: delegator address is
  invalid". -/
  | debondingDelegatorAddressInvalid (delegator escrow : Addr)
  /-- "failed to set debonding delegation to %s from %s index %d: %w". -/
  | setDebondingDelegation (escrow delegator : Addr) (idx : ℕ) (e : MergeError)
  /-- "total debonding shares mismatch for account %s: actual: %s (expected: %s)". -/
  | debondingSharesMismatch (escrow : Addr) (actual expected : ℕ)
  deriving DecidableEq, Repr

variable {Addr : Type} [LinearOrder Addr] (space : AddressSpace Addr)

/-- The state before `InitChain`: nothing stored but the parameters that
`initParameters` sets. -/
def StakingState.init (parameters : ConsensusParameters Addr) : StakingState Addr where
  parameters := parameters
  accounts := .empty
  delegations := .empty
  debondingDelegations := .empty
  debondingQueue := ∅
  totalSupply := 0
  commonPool := 0
  lastBlockFees := 0
  governanceDeposits := 0

/-- `initParameters` (`genesis.go:16-25`). -/
def initParameters (debugDontBlameOasis : Bool) (st : Genesis Addr) :
    Except (InitChainError Addr) (StakingState Addr) := do
  (st.parameters.sanityCheck debugDontBlameOasis).mapError .parameters
  pure (StakingState.init st.parameters)

/-- `initCommonPool` (`genesis.go:27-39`): adds the common pool to the total supply. -/
def initCommonPool (st : Genesis Addr) (totalSupply : ℕ) : ℕ :=
  totalSupply + st.commonPool

/-- `initLastBlockFees` (`genesis.go:41-64`): adds the block fees to the total supply
and moves them into the genesis common pool. -/
def initLastBlockFees (st : Genesis Addr) (totalSupply : ℕ) : Genesis Addr × ℕ :=
  ({ st with commonPool := st.commonPool + st.lastBlockFees, lastBlockFees := 0 },
    totalSupply + st.lastBlockFees)

/-- `initGovernanceDeposits` (`genesis.go:66-82`). -/
def initGovernanceDeposits (state : StakingState Addr) (st : Genesis Addr) (totalSupply : ℕ) :
    StakingState Addr × ℕ :=
  ({ state with governanceDeposits := st.governanceDeposits }, totalSupply + st.governanceDeposits)

/-- `initLedger` (`genesis.go:84-148`): stores every account and adds its balances to
the total supply. -/
def initLedger (state : StakingState Addr) (st : Genesis Addr) (totalSupply : ℕ) :
    Except (InitChainError Addr) (StakingState Addr × ℕ) :=
  (st.ledger.sortedKeys (· ≤ ·)).foldlM (initAccount st) (state, totalSupply)
where
  /-- One account of the loop. -/
  initAccount (st : Genesis Addr) :
      StakingState Addr × ℕ → Addr → Except (InitChainError Addr) (StakingState Addr × ℕ)
    | (state, totalSupply), addr => do
      let acct := st.ledger.get addr
      if !space.isValid addr then throw (.ledgerAddressInvalid addr)
      if acct.escrow.stakeAccumulator.claims.length > 0 then
        throw (.stakeAccumulatorNonEmpty addr)
      let totalSupply := totalSupply + acct.general.balance + acct.escrow.active.balance +
        acct.escrow.debonding.balance
      pure (state.setAccount addr acct, totalSupply)

/-- `initTotalSupply` (`genesis.go:150-171`): the supply the ledger adds up to must be
the document's; stores the common pool and the total supply. -/
def initTotalSupply (state : StakingState Addr) (st : Genesis Addr) (totalSupply : ℕ) :
    Except (InitChainError Addr) (StakingState Addr) := do
  if totalSupply ≠ st.totalSupply then throw (.totalSupplyMismatch st.totalSupply totalSupply)
  pure { state with commonPool := st.commonPool, totalSupply := totalSupply }

/-- The inner loop of `initDelegations` (`genesis.go:181-204`): stores the delegations
to `escrowAddr` and adds up their shares. -/
def initDelegationsTo (escrowAddr : Addr) (delegations : FinMap Addr Delegation)
    (state : StakingState Addr) : Except (InitChainError Addr) (StakingState Addr × ℕ) :=
  (delegations.sortedKeys (· ≤ ·)).foldlM (initDelegation escrowAddr delegations) (state, 0)
where
  /-- One delegator of the loop. -/
  initDelegation (escrowAddr : Addr) (delegations : FinMap Addr Delegation) :
      StakingState Addr × ℕ → Addr → Except (InitChainError Addr) (StakingState Addr × ℕ)
    | (state, delegationShares), delegatorAddr => do
      if !space.isValid delegatorAddr then
        throw (.delegatorAddressInvalid delegatorAddr escrowAddr)
      let delegation := delegations.get delegatorAddr
      pure (state.setDelegation delegatorAddr escrowAddr delegation,
        delegationShares + delegation.shares)

/-- `initDelegations` (`genesis.go:173-221`): the shares stored for every escrow
account must be its delegations' total. -/
def initDelegations (state : StakingState Addr) (st : Genesis Addr) :
    Except (InitChainError Addr) (StakingState Addr) :=
  (st.delegations.sortedKeys (· ≤ ·)).foldlM (initEscrow st) state
where
  /-- One escrow account of the loop. -/
  initEscrow (st : Genesis Addr) (state : StakingState Addr) (escrowAddr : Addr) :
      Except (InitChainError Addr) (StakingState Addr) := do
    if !space.isValid escrowAddr then throw (.delegationsAddressInvalid escrowAddr)
    let (state, delegationShares) ← initDelegationsTo space escrowAddr
      (st.delegations.get escrowAddr) state
    let acc := state.accounts.get escrowAddr
    if acc.escrow.active.totalShares ≠ delegationShares then
      throw (.activeSharesMismatch escrowAddr delegationShares acc.escrow.active.totalShares)
    pure state

/-- The inner loops of `initDebondingDelegations` (`genesis.go:231-263`): stores the
debonding delegations to `escrowAddr`, each under its end epoch, and adds up their
shares. -/
def initDebondingDelegationsTo (escrowAddr : Addr)
    (delegators : FinMap Addr (List DebondingDelegation)) (state : StakingState Addr) :
    Except (InitChainError Addr) (StakingState Addr × ℕ) :=
  (delegators.sortedKeys (· ≤ ·)).foldlM (initDelegator escrowAddr delegators) (state, 0)
where
  /-- One descriptor, with its index in the delegator's list. -/
  initDebondingDelegation (escrowAddr delegatorAddr : Addr) :
      StakingState Addr × ℕ → DebondingDelegation × ℕ →
        Except (InitChainError Addr) (StakingState Addr × ℕ)
    | (state, debondingShares), (delegation, idx) => do
      let state ← (state.setDebondingDelegation delegatorAddr escrowAddr
        delegation.debondEndTime (some delegation)).mapError
        (.setDebondingDelegation escrowAddr delegatorAddr idx)
      pure (state, debondingShares + delegation.shares)
  /-- One delegator of the loop. -/
  initDelegator (escrowAddr : Addr) (delegators : FinMap Addr (List DebondingDelegation)) :
      StakingState Addr × ℕ → Addr → Except (InitChainError Addr) (StakingState Addr × ℕ)
    | (state, debondingShares), delegatorAddr => do
      if !space.isValid delegatorAddr then
        throw (.debondingDelegatorAddressInvalid delegatorAddr escrowAddr)
      (delegators.get delegatorAddr).zipIdx.foldlM
        (initDebondingDelegation escrowAddr delegatorAddr) (state, debondingShares)

/-- `initDebondingDelegations` (`genesis.go:223-279`). -/
def initDebondingDelegations (state : StakingState Addr) (st : Genesis Addr) :
    Except (InitChainError Addr) (StakingState Addr) :=
  (st.debondingDelegations.sortedKeys (· ≤ ·)).foldlM (initEscrow st) state
where
  /-- One escrow account of the loop. -/
  initEscrow (st : Genesis Addr) (state : StakingState Addr) (escrowAddr : Addr) :
      Except (InitChainError Addr) (StakingState Addr) := do
    if !space.isValid escrowAddr then throw (.debondingDelegationsAddressInvalid escrowAddr)
    let (state, debondingShares) ← initDebondingDelegationsTo space escrowAddr
      (st.debondingDelegations.get escrowAddr) state
    let acc := state.accounts.get escrowAddr
    if acc.escrow.debonding.totalShares ≠ debondingShares then
      throw (.debondingSharesMismatch escrowAddr debondingShares
        acc.escrow.debonding.totalShares)
    pure state

/-- `InitChain` (`genesis.go:281-327`). -/
def initChain (debugDontBlameOasis : Bool) (st : Genesis Addr) :
    Except (InitChainError Addr) (StakingState Addr) := do
  let state ← initParameters debugDontBlameOasis st
  let totalSupply := initCommonPool st 0
  let (st, totalSupply) := initLastBlockFees st totalSupply
  let (state, totalSupply) := initGovernanceDeposits state st totalSupply
  let (state, totalSupply) ← initLedger space state st totalSupply
  let state ← initTotalSupply state st totalSupply
  let state ← initDelegations space state st
  initDebondingDelegations space state st

/-! ## A zero-share genesis delegation -/

/-- Addresses as numbers, all well formed; `0` is the burn address and the only
reserved one. -/
def natAddressSpace : AddressSpace ℕ := ⟨fun _ => true, (· = 0), 0, rfl⟩

/-- Parameters that pass `ConsensusParameters.SanityCheck`. -/
def zeroShareParameters : ConsensusParameters ℕ where
  thresholds _ := some 0
  debondingInterval := 1
  rewardSchedule := []
  signingRewardThresholdNumerator := 0
  signingRewardThresholdDenominator := 1
  commissionScheduleRules := ⟨1, 0, 0, 0, 0⟩
  minDelegationAmount := 0
  minTransferAmount := 0
  minTransactBalance := 0
  disableTransfers := false
  disableDelegation := false
  undisableTransfersFrom _ := false
  allowEscrowMessages := false
  maxAllowances := 0
  feeSplitWeightPropose := 1
  feeSplitWeightVote := 1
  feeSplitWeightNextPropose := 1
  rewardFactorEpochSigned := 0
  rewardFactorBlockProposed := 0
  debugBypassStake := false

/-- Account `1` holds the whole supply of 100 in its active escrow pool, with no
shares; account `2` delegates it zero shares. -/
def zeroShareGenesis : Genesis ℕ where
  parameters := zeroShareParameters
  tokenSymbol := "TEST"
  tokenValueExponent := 0
  totalSupply := 100
  commonPool := 0
  lastBlockFees := 0
  governanceDeposits := 0
  ledger := FinMap.empty.set 1 { escrow := { active := ⟨100, 0⟩ } }
  delegations := FinMap.empty.set 1 (FinMap.empty.set 2 {})
  debondingDelegations := .empty

/-- The genesis check accepts `zeroShareGenesis`, `InitChain` builds a state from it,
and in that state account `1` has an active escrow balance and no delegation: the
account check that the supplementary sanity checker runs after every block rejects
it, and the ledger invariant does not hold. -/
theorem initChain_zeroShareGenesis_breaks_ledger_invariant :
    zeroShareGenesis.sanityCheck natAddressSpace false 0 = .ok () ∧
    ∃ s, initChain natAddressSpace false zeroShareGenesis = .ok s ∧
      sanityCheckAccountShares 1 (s.accounts.get 1) (s.delegationsTo 1)
        (s.debondingDelegationsTo 1) = .error (.noDelegationsActiveBalance 1) ∧
      ¬ s.LedgerInvariant := by
  refine ⟨by decide, _, rfl, by decide, fun h => ?_⟩
  -- The zero-share delegation was not stored, so account `1` has none, yet its
  -- active escrow balance is 100.
  have hbalance := h.activeEmpty 1 (by decide)
  exact absurd hbalance (by decide)

end Staking

end OasisCore
