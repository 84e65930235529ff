import OasisCore.Roothash.Slashing

/-!
# The staking state under the consensus

The changes the consensus makes to the staking state, each of them a `Step`:
- the transactions of `ExecuteTx` and the staking runtime messages;
- the reward of the block proposer in `BeginBlock`;
- the slashing of a validator for consensus evidence;
- at the end of an epoch, `onEpochChange`: the debonding release, then the signing rewards;
- the slashing of runtime nodes by the roothash application, with the distribution of what
  was slashed;
- the moves of governance deposits by the governance application;
- the transfer of a runtime message's fee and tokens into the runtime's account, by the
  roothash application's `submitMsg`;
- the election rewards of the scheduler application (`distributeRewards`).

Every step keeps `Invariant`, so it holds along every run from a state where it holds, in any
order of the steps. With it holds the ledger invariant that the sanity checker asserts after
every block (`invariant_of_run`).

Fee disbursement is not a step. The fees of a block are charged into an accumulator of the
block context, which is not part of the state. Between `disburseFeesVQ` and the
`disburseFeesP` that overwrites them, the last block fees are counted both in that field and
in the balances they were paid to. So the supply equation holds at block boundaries only,
and not after each of these calls.
-/

namespace OasisCore

namespace Staking

/-- The errors of `onEpochChange`. -/
inductive OnEpochChangeError (K : Type) where
  /-- The errors of the debonding release. -/
  | release (e : ReleaseError)
  /-- "cometbft/staking: failed to add signing rewards: %w" -/
  | signingRewards (e : RewardEpochSigningError K)

namespace StakingState

variable {Addr K : Type} [LinearOrder Addr] [LinearOrder K]

/-- `onEpochChange` (`staking.go:245-335`) at `epoch`: the debonding release, then the
signing rewards of the epoch's counts `es`. -/
def onEpochChange (s : StakingState Addr) (newAddress : K → Addr) (order : IterOrder K)
    (es : EpochSigning K) (epoch : EpochTime) : Except (OnEpochChangeError K) (StakingState Addr) := do
  let s ← (s.releaseExpired epoch).mapError .release
  (s.rewardEpochSigning newAddress order es epoch).mapError .signingRewards

theorem Invariant.onEpochChange {s s' : StakingState Addr} (h : s.Invariant)
    {newAddress : K → Addr} {order : IterOrder K} {es : EpochSigning K} {epoch : EpochTime}
    (hs : s.onEpochChange newAddress order es epoch = .ok s') : s'.Invariant := by
  obtain ⟨t, hrelease, hsigning⟩ := Except.bind_eq_ok.mp hs
  exact (h.releaseExpired (Except.mapError_eq_ok.mp hrelease)).rewardEpochSigning
    (Except.mapError_eq_ok.mp hsigning)

/-- `distributeRewards` of the scheduler application (`scheduler.go:719-724`): the election
reward `RewardFactorEpochElectionAny` of the epoch, paid to the rewardable entities in the
order of their addresses (`sortAddresses`). -/
def distributeRewards (s : StakingState Addr) (epoch : EpochTime) (entities : Finset Addr)
    (rewardFactorEpochElectionAny : ℕ) : Except RewardError (StakingState Addr) :=
  s.addRewards epoch rewardFactorEpochElectionAny (FinMap.sortedElems (· ≤ ·) entities)

/-- One change of the staking state by the consensus; `newAddress` is `staking.NewAddress` of
an entity. -/
inductive Step (space : AddressSpace Addr) (hook : WithdrawHookInvocation Addr → Bool)
    (newAddress : K → Addr) : StakingState Addr → StakingState Addr → Prop
  /-- A transaction signed by `caller` in a block of `epoch`. -/
  | executeTx {s s' : StakingState Addr} (epoch : EpochTime) (caller : Addr) (tx : Method Addr) :
      s.executeTx space hook epoch caller tx = .ok s' → Step space hook newAddress s s'
  /-- A staking runtime message. -/
  | executeMessage {s s' : StakingState Addr} (epoch : EpochTime) (caller : Addr)
      (fromRoothash : Bool) (m : StakingMessage Addr) :
      s.executeMessage space hook epoch caller fromRoothash m = .ok s' →
        Step space hook newAddress s s'
  /-- The reward of the block proposer in `BeginBlock`. -/
  | rewardBlockProposing {s s' : StakingState Addr} (epoch : EpochTime)
      (proposingEntity : Option Addr) (numEligibleValidators numSigningEntities : ℕ) :
      s.rewardBlockProposing epoch proposingEntity numEligibleValidators numSigningEntities =
        .ok s' → Step space hook newAddress s s'
  /-- The slashing of the entity of a validator for consensus evidence. -/
  | slashEscrow {s s' : StakingState Addr} (entityAddr : Addr) (amount slashed : ℕ) :
      s.slashEscrow entityAddr amount = .ok (s', slashed) → Step space hook newAddress s s'
  /-- The end of an epoch. -/
  | onEpochChange {s s' : StakingState Addr} (order : IterOrder K) (es : EpochSigning K)
      (epoch : EpochTime) :
      s.onEpochChange newAddress order es epoch = .ok s' → Step space hook newAddress s s'
  /-- The slashing for incorrect results found by discrepancy resolution. -/
  | onRuntimeIncorrectResults {s s' : StakingState Addr} (epoch : EpochTime)
      (discrepancyCausers discrepancyResolvers : List K) (runtimeAddr : Addr)
      (runtimePercentage penaltyAmount : ℕ) :
      Roothash.onRuntimeIncorrectResults s epoch newAddress discrepancyCausers
        discrepancyResolvers runtimeAddr runtimePercentage penaltyAmount = .ok s' →
        Step space hook newAddress s s'
  /-- The slashing for runtime equivocation evidence. -/
  | onEvidenceRuntimeEquivocation {s s' : StakingState Addr} (epoch : EpochTime)
      (entityAddr rewardAddr runtimeAddr : Addr) (runtimePercentage penaltyAmount : ℕ) :
      Roothash.onEvidenceRuntimeEquivocation s epoch entityAddr rewardAddr runtimeAddr
        runtimePercentage penaltyAmount = .ok s' → Step space hook newAddress s s'
  /-- The slashing for a runtime liveness failure. -/
  | onRuntimeLivenessFailure {s s' : StakingState Addr} (entityAddr : Addr) (penaltyAmount : ℕ) :
      Roothash.onRuntimeLivenessFailure s entityAddr penaltyAmount = .ok s' →
        Step space hook newAddress s s'
  /-- The deposit of a submitted proposal. -/
  | transferToGovernanceDeposits {s s' : StakingState Addr} (fromAddr : Addr) (amount : ℕ) :
      s.transferToGovernanceDeposits fromAddr amount = .ok s' → Step space hook newAddress s s'
  /-- The deposit of a closed proposal, returned. -/
  | transferFromGovernanceDeposits {s s' : StakingState Addr} (toAddr : Addr) (amount : ℕ) :
      s.transferFromGovernanceDeposits toAddr amount = .ok s' → Step space hook newAddress s s'
  /-- The deposit of a rejected proposal, discarded into the common pool. -/
  | discardGovernanceDeposit {s s' : StakingState Addr} (amount : ℕ) :
      s.discardGovernanceDeposit amount = .ok s' → Step space hook newAddress s s'
  /-- The fee and tokens of a runtime message, moved into the runtime's account. -/
  | mutableTransfer {s s' : StakingState Addr} (fromAddr toAddr : Addr) (amount : ℕ) :
      s.mutableTransfer fromAddr toAddr amount = .ok s' → Step space hook newAddress s s'
  /-- The rewards of the entities elected at an epoch. -/
  | distributeRewards {s s' : StakingState Addr} (epoch : EpochTime) (entities : Finset Addr)
      (rewardFactorEpochElectionAny : ℕ) :
      s.distributeRewards epoch entities rewardFactorEpochElectionAny = .ok s' →
        Step space hook newAddress s s'

variable {space : AddressSpace Addr} {hook : WithdrawHookInvocation Addr → Bool}
  {newAddress : K → Addr}

theorem Step.invariant {s s' : StakingState Addr} (hstep : Step space hook newAddress s s')
    (h : s.Invariant) : s'.Invariant := by
  cases hstep with
  | executeTx epoch caller tx hs => exact h.executeTx hs
  | executeMessage epoch caller fromRoothash m hs => exact h.executeMessage hs
  | rewardBlockProposing epoch proposingEntity numEligibleValidators numSigningEntities hs =>
    exact h.rewardBlockProposing hs
  | slashEscrow entityAddr amount slashed hs => exact h.slashEscrow hs
  | onEpochChange order es epoch hs => exact h.onEpochChange hs
  | onRuntimeIncorrectResults epoch causers resolvers runtimeAddr runtimePercentage penalty hs =>
    exact Roothash.Invariant.onRuntimeIncorrectResults h hs
  | onEvidenceRuntimeEquivocation epoch entityAddr rewardAddr runtimeAddr runtimePercentage
      penalty hs =>
    exact Roothash.Invariant.onEvidenceRuntimeEquivocation h hs
  | onRuntimeLivenessFailure entityAddr penalty hs =>
    exact Roothash.Invariant.onRuntimeLivenessFailure h hs
  | transferToGovernanceDeposits fromAddr amount hs => exact h.transferToGovernanceDeposits hs
  | transferFromGovernanceDeposits toAddr amount hs => exact h.transferFromGovernanceDeposits hs
  | discardGovernanceDeposit amount hs => exact h.discardGovernanceDeposit hs
  | mutableTransfer fromAddr toAddr amount hs => exact h.mutableTransfer hs
  | distributeRewards epoch entities factor hs => exact h.addRewards hs

/-- Along every run of the consensus from a state where the invariant holds, in any order of
its steps, the invariant holds, and with it the ledger invariant the sanity checker asserts:
the supply is the sum of all balances, the common pool, the last block fees and the governance
deposits; every escrow pool has the shares of its (debonding) delegations; an account without
(debonding) delegations holds no (debonding) escrow. -/
theorem invariant_of_run {s₀ s : StakingState Addr} (h₀ : s₀.Invariant)
    (hrun : Relation.ReflTransGen (Step space hook newAddress) s₀ s) :
    s.Invariant ∧ s.LedgerInvariant := by
  have hinv : s.Invariant := by
    induction hrun with
    | refl => exact h₀
    | tail _ hstep ih => exact hstep.invariant ih
  exact ⟨hinv, hinv.ledgerInvariant⟩

/-- The run from `debondingStart` in which account `2` reclaims its 100 shares at epoch 10,
then the epoch changes to 11 with no signing counts. -/
theorem invariant_of_run_reclaim_release :
    debondingStart.Invariant ∧
      Relation.ReflTransGen (Step natAddressSpace (fun _ => false) (id : ℕ → ℕ)) debondingStart
        debondingReleased ∧
      debondingReleased.Invariant ∧ debondingReleased.LedgerInvariant := by
  have hrun : Relation.ReflTransGen (Step natAddressSpace (fun _ => false) (id : ℕ → ℕ))
      debondingStart debondingReleased :=
    .tail (.single (.executeTx 10 2 (.reclaimEscrow ⟨1, 100⟩) rfl))
      (.onEpochChange (IterOrder.sorted (· ≤ ·)) EpochSigning.zero 11 rfl)
  exact ⟨debondingStart_invariant, hrun, invariant_of_run debondingStart_invariant hrun⟩

end StakingState

end Staking

end OasisCore
