import OasisCore.Governance.Tally
import OasisCore.Misc.Except

/-!
# The governance lifecycle

How proposals are submitted, closed and executed: `submitProposal`
(`go/consensus/cometbft/apps/governance/transactions.go:20-220`), `BeginBlock`,
`executeProposal` and `EndBlock` (`governance.go:144-336, 520-659`) and the governance
module's own parameter changes (`messages.go:39-83`), over the state of
`governance/state/state.go` and the governance deposits of the staking state; and
the checks of `go/governance/api/sanity_check.go` that the supplementary sanity
checker runs after a block (`checkGovernance`, `supplementarysanity/checks.go:313-361`).

The state keeps the proposals by ID. Go keeps a second index of the active proposals
by closing epoch and ID: `SetActiveProposal` writes it together with a proposal in
state `StateActive`, and `EndBlock` removes it exactly when the proposal leaves that
state, so the index is read here as the stored proposals in that state. The pending
upgrades are the keys (upgrade epoch, proposal ID) of `pendingUpgradesKeyFmt`, whose
descriptors `PendingUpgrades` reads from the proposals. The votes of each proposal
are part of the state; casting them is `Governance.Vote`. A parameter change of another module is answered by that module
(`OtherModules`); what it writes is state the lifecycle does not read.

A proposal closes in the `EndBlock` of the epoch change that lands on its
`ClosesAt`. With a `VotingPeriod` of zero, which `SanityCheck` accepts, a proposal
submitted in a block that does not change the epoch closes at an epoch whose change
is past: it stays active for good, and `checkGovernance` fails from the next epoch
on (`activeProposal_never_closes`).
-/

namespace OasisCore

namespace Governance

open Staking (SharePool StakingState AddressSpace epochInvalid)

/-- `ModuleName` (`go/governance/api/api.go:24`). -/
def moduleName : String := "governance"

/-- The governance `ConsensusParameters` (`go/governance/api/api.go:414-448`). The gas
costs and `AllowVoteWithoutEntity`, which only `castVote` reads, are its
`CastVoteParameters`. -/
structure ConsensusParameters where
  minProposalDeposit : ℕ
  votingPeriod : EpochTime
  stakeThreshold : UInt8
  upgradeMinEpochDiff : EpochTime
  upgradeCancelMinEpochDiff : EpochTime
  enableChangeParametersProposal : Bool
  allowProposalMetadata : Bool
  deriving DecidableEq, Repr

/-- The errors of the parameter checks (`sanity_check.go:12-48`) and of decoding a
parameter change (`messages.go:52-54`). -/
inductive ParametersError where
  /-- "stake threshold must be less than or equal to 100". -/
  | stakeThresholdTooLarge
  /-- "stake threshold must be greater than 66". -/
  | stakeThresholdTooSmall
  /-- "voting_period should be less than upgrade_min_epoch_diff". -/
  | votingPeriodNotBelowUpgradeMinEpochDiff
  /-- "voting_period should be less than upgrade_cancel_min_epoch_diff". -/
  | votingPeriodNotBelowUpgradeCancelMinEpochDiff
  /-- "consensus parameter changes should not be empty". -/
  | changesEmpty
  /-- "cometbft/governance: failed to unmarshal consensus parameter changes: %w". -/
  | changesUndecodable
  deriving DecidableEq, Repr

/-- `ConsensusParameters.SanityCheck` (`sanity_check.go:12-34`); a `Quantity` is
always valid. -/
def ConsensusParameters.sanityCheck (p : ConsensusParameters) : Except ParametersError Unit := do
  if p.stakeThreshold.toNat > 100 then throw .stakeThresholdTooLarge
  if p.stakeThreshold.toNat ≤ 66 then throw .stakeThresholdTooSmall
  if p.votingPeriod ≥ p.upgradeMinEpochDiff then throw .votingPeriodNotBelowUpgradeMinEpochDiff
  if p.votingPeriod ≥ p.upgradeCancelMinEpochDiff then
    throw .votingPeriodNotBelowUpgradeCancelMinEpochDiff

/-- `ConsensusParameterChanges` (`api.go:450-473`); `gasCosts` says whether the change
sets the gas costs, whose values are not modelled. -/
structure ConsensusParameterChanges where
  gasCosts : Bool
  minProposalDeposit : Option ℕ
  votingPeriod : Option EpochTime
  stakeThreshold : Option UInt8
  upgradeMinEpochDiff : Option EpochTime
  upgradeCancelMinEpochDiff : Option EpochTime
  enableChangeParametersProposal : Option Bool
  deriving DecidableEq, Repr

/-- `ConsensusParameterChanges.SanityCheck` (`sanity_check.go:36-48`). -/
def ConsensusParameterChanges.sanityCheck (c : ConsensusParameterChanges) :
    Except ParametersError Unit :=
  if !c.gasCosts ∧ c.minProposalDeposit = none ∧ c.votingPeriod = none ∧
      c.stakeThreshold = none ∧ c.upgradeMinEpochDiff = none ∧
      c.upgradeCancelMinEpochDiff = none ∧ c.enableChangeParametersProposal = none then
    .error .changesEmpty
  else .ok ()

/-- `ConsensusParameterChanges.Apply` (`api.go:476-499`). -/
def ConsensusParameterChanges.apply (c : ConsensusParameterChanges) (params : ConsensusParameters) :
    ConsensusParameters :=
  { params with
    minProposalDeposit := c.minProposalDeposit.getD params.minProposalDeposit
    votingPeriod := c.votingPeriod.getD params.votingPeriod
    stakeThreshold := c.stakeThreshold.getD params.stakeThreshold
    upgradeMinEpochDiff := c.upgradeMinEpochDiff.getD params.upgradeMinEpochDiff
    upgradeCancelMinEpochDiff := c.upgradeCancelMinEpochDiff.getD params.upgradeCancelMinEpochDiff
    enableChangeParametersProposal :=
      c.enableChangeParametersProposal.getD params.enableChangeParametersProposal }

/-- The upgrade `Descriptor` (`go/upgrade/api/api.go:106-115`): its epoch, and whether
its version, handler and target pass their own checks, which read nothing else the
model keeps. -/
structure Descriptor where
  wellFormed : Bool
  epoch : EpochTime
  deriving DecidableEq, Repr

/-- `MinUpgradeEpoch` (`upgrade/api/api.go:63-64`). -/
def minUpgradeEpoch : EpochTime := 1

/-- `MaxUpgradeEpoch` (`upgrade/api/api.go:65-66`). -/
def maxUpgradeEpoch : EpochTime := epochInvalid - 1

/-- `Descriptor.ValidateBasic` (`upgrade/api/api.go:139-163`). -/
def Descriptor.validateBasic (d : Descriptor) : Bool :=
  d.wellFormed && minUpgradeEpoch ≤ d.epoch && d.epoch ≤ maxUpgradeEpoch

/-- `EpochTime.AbsDiff` (`go/beacon/api/api.go:55-60`). -/
def absDiff (e other : EpochTime) : EpochTime :=
  if e > other then e - other else other - e

/-- The `Changes` of a `ChangeParametersProposal`, CBOR bytes in Go: none, the
governance parameter changes they decode to, or changes only another module reads. -/
inductive ParameterChanges where
  | empty
  | governance (changes : ConsensusParameterChanges)
  | other
  deriving DecidableEq, Repr

/-- `ChangeParametersProposal` (`api.go:274-279`). -/
structure ChangeParametersProposal where
  module : String
  changes : ParameterChanges
  deriving DecidableEq, Repr

/-- `ProposalContent` (`api.go:61-68`) with exactly one of its three contents, as
`ValidateBasic` and `submitProposal` require; the optional metadata is absent. -/
inductive ProposalContent where
  | upgrade (descriptor : Descriptor)
  | cancelUpgrade (proposalID : UInt64)
  | changeParameters (proposal : ChangeParametersProposal)
  deriving DecidableEq, Repr

/-- `ProposalContent.ValidateBasic` (`api.go:70-114`) of a content without metadata,
which is invalid when the parameters require metadata. -/
def ProposalContent.validateBasic (params : ConsensusParameters) : ProposalContent → Bool
  | .upgrade d => !params.allowProposalMetadata && d.validateBasic
  | .cancelUpgrade _ => !params.allowProposalMetadata
  | .changeParameters p =>
    !params.allowProposalMetadata && !p.module.isEmpty && p.changes != .empty

/-- A stored `Proposal` (`go/governance/api/proposal.go:80-103`): the fields that
`CloseProposal` reads and writes, and the rest. -/
structure StoredProposal (Addr : Type) extends Proposal where
  id : UInt64
  submitter : Addr
  deposit : ℕ
  content : ProposalContent
  createdAt : EpochTime
  closesAt : EpochTime

/-- The order of the keys of `pendingUpgradesKeyFmt`, which encode the upgrade epoch
and then the proposal ID big-endian. -/
def PendingUpgradeKey.le (a b : EpochTime × UInt64) : Prop :=
  a.1 < b.1 ∨ (a.1 = b.1 ∧ a.2 ≤ b.2)

instance : DecidableRel PendingUpgradeKey.le := fun a b => by
  unfold PendingUpgradeKey.le
  infer_instance

instance : IsTrans (EpochTime × UInt64) PendingUpgradeKey.le where
  trans a b c := by
    simp only [PendingUpgradeKey.le, UInt64.lt_iff_toNat_lt, UInt64.le_iff_toNat_le,
      ← UInt64.toNat_inj]
    omega

instance : Std.Antisymm PendingUpgradeKey.le where
  antisymm a b := by
    obtain ⟨a₁, a₂⟩ := a
    obtain ⟨b₁, b₂⟩ := b
    simp only [PendingUpgradeKey.le, UInt64.lt_iff_toNat_lt, UInt64.le_iff_toNat_le,
      ← UInt64.toNat_inj, Prod.mk.injEq]
    omega

instance : Std.Total PendingUpgradeKey.le where
  total a b := by
    simp only [PendingUpgradeKey.le, UInt64.lt_iff_toNat_lt, UInt64.le_iff_toNat_le,
      ← UInt64.toNat_inj]
    omega

/-- The governance state (`governance/state/state.go:20-50`): the parameters, the
next proposal identifier, the proposals by ID, the votes on each proposal in the
order of the voters, and the keys of the pending upgrades. -/
structure GovernanceState (Addr : Type) where
  parameters : ConsensusParameters
  nextProposalID : UInt64
  proposals : FinMap UInt64 (Option (StoredProposal Addr))
  votes : UInt64 → List (VoteEntry Addr)
  pendingUpgrades : Finset (EpochTime × UInt64)

/-- The state the governance application reads: its own and the staking state. -/
structure AppState (Addr : Type) where
  governance : GovernanceState Addr
  staking : StakingState Addr

/-- The errors of the governance transactions and of executing a proposal. -/
inductive TxError where
  /-- `ErrInvalidArgument`. -/
  | invalidArgument
  /-- The staking `ErrForbidden`: the caller's address is not valid. -/
  | forbidden
  /-- The staking `ErrInsufficientBalance`. -/
  | insufficientBalance
  /-- `ErrUpgradeTooSoon`. -/
  | upgradeTooSoon
  /-- "upgrade already scheduled at epoch: %v: %w", wrapping `ErrUpgradeAlreadyPending`. -/
  | upgradeAlreadyPending (epoch : EpochTime)
  /-- `ErrNoSuchUpgrade`. -/
  | noSuchUpgrade
  /-- `ErrNoSuchProposal`. -/
  | noSuchProposal
  /-- "cometbft/governance: pending upgrade with missing upgrade descriptor". -/
  | pendingUpgradeWithoutDescriptor
  /-- The governance module rejected a parameter change. -/
  | parameters (e : ParametersError)
  /-- Another module rejected a parameter change. -/
  | otherModule (msg : String)
  /-- "governance: failed to deposit governance: %w". -/
  | deposit (e : QuantityError)
  deriving DecidableEq, Repr

/-- What the other modules subscribed to the parameter-change messages answer
(`abci/messages.go:28-72`): `none` when none of them is interested, else whether it
accepts the changes. -/
abbrev OtherModules := ChangeParametersProposal → Option (Except String Unit)

/-- `changeParameters` of the governance application (`messages.go:39-83`): `none`
for another module's changes; otherwise the parameters with the changes applied,
once the changes and the result pass their checks. -/
def changeParameters (params : ConsensusParameters) (proposal : ChangeParametersProposal) :
    Option (Except ParametersError ConsensusParameters) :=
  if proposal.module ≠ moduleName then none
  else some do
    let changes ← match proposal.changes with
      | .governance changes => pure changes
      | _ => throw .changesUndecodable
    changes.sanityCheck
    let params := changes.apply params
    params.sanityCheck
    pure params

/-- `Publish` of a parameter-change message (`abci/messages.go:28-72`): the answer of
the module the changes are for, `none` when no module is interested. The governance
module answers with its new parameters; another module's answer leaves them. -/
def publishChangeParameters (others : OtherModules) (params : ConsensusParameters)
    (proposal : ChangeParametersProposal) : Option (Except TxError ConsensusParameters) :=
  match changeParameters params proposal with
  | some r => some (r.mapError .parameters)
  | none => (others proposal).map fun r => (r.mapError .otherModule).map fun _ => params

namespace GovernanceState

variable {Addr : Type}

/-- `Proposals` (`state.go:82-101`): the stored proposals in the order of their IDs. -/
def proposalList (s : GovernanceState Addr) : List (StoredProposal Addr) :=
  (s.proposals.sortedKeys (· ≤ ·)).filterMap s.proposals.get

/-- The proposals `EndBlock` closes at an epoch change to `epoch`
(`governance.go:535-546`): the active proposals closing at `epoch`. Go walks the
active index by closing epoch and then ID, which among proposals of one closing
epoch is the order of their IDs. -/
def closingProposals (s : GovernanceState Addr) (epoch : EpochTime) : List (StoredProposal Addr) :=
  s.proposalList.filter fun p => decide (p.state = .active ∧ p.closesAt = epoch)

/-- `SetProposal` and `SetActiveProposal` (`state.go:270-294`). -/
def setProposal (s : GovernanceState Addr) (p : StoredProposal Addr) : GovernanceState Addr :=
  { s with proposals := s.proposals.set p.id (some p) }

/-- `PendingUpgrades` (`state.go:206-231`): the descriptors of the pending upgrades in
the order of their keys, read from their proposals. -/
def pendingUpgradeDescriptors (s : GovernanceState Addr) : Except TxError (List Descriptor) :=
  (FinMap.sortedElems PendingUpgradeKey.le s.pendingUpgrades).mapM fun key =>
    match s.proposals.get key.2 with
    | none => .error .noSuchProposal
    | some p =>
      match p.content with
      | .upgrade d => .ok d
      | _ => .error .pendingUpgradeWithoutDescriptor

/-- `PendingUpgradeProposal` (`state.go:174-204`): the descriptor of proposal `id`
when it is an upgrade proposal whose upgrade is pending. -/
def pendingUpgradeProposal (s : GovernanceState Addr) (id : UInt64) : Except TxError Descriptor :=
  match s.proposals.get id with
  | none => .error .noSuchProposal
  | some p =>
    match p.content with
    | .upgrade d => if (d.epoch, p.id) ∈ s.pendingUpgrades then .ok d else .error .noSuchUpgrade
    | _ => .error .noSuchUpgrade

end GovernanceState

/-- The check that `submitProposal` and `executeProposal` make of a new upgrade
(`transactions.go:111-122`, `governance.go:232-242`): no pending upgrade is less than
`UpgradeMinEpochDiff` epochs away from it. -/
def checkUpgradeSpacing (upgrades : List Descriptor) (epoch minEpochDiff : EpochTime) :
    Except TxError Unit :=
  upgrades.forM fun pu =>
    if absDiff pu.epoch epoch < minEpochDiff then .error (.upgradeAlreadyPending pu.epoch)
    else .ok ()

variable {Addr : Type} [DecidableEq Addr]

/-- The checks `submitProposal` makes before it writes (`transactions.go:31-175`). -/
def checkSubmission (space : AddressSpace Addr) (others : OtherModules) (st : AppState Addr)
    (epoch : EpochTime) (submitterAddr : Addr) (content : ProposalContent) :
    Except TxError Unit := do
  let params := st.governance.parameters
  if !content.validateBasic params then throw .invalidArgument
  if let .changeParameters _ := content then
    if !params.enableChangeParametersProposal then throw .invalidArgument
  if !space.isValid submitterAddr then throw .forbidden
  if (st.staking.accounts.get submitterAddr).general.balance < params.minProposalDeposit then
    throw .insufficientBalance
  match content with
  | .upgrade d =>
    if d.epoch < params.upgradeMinEpochDiff + epoch then throw .upgradeTooSoon
    let upgrades ← st.governance.pendingUpgradeDescriptors
    checkUpgradeSpacing upgrades d.epoch params.upgradeMinEpochDiff
  | .cancelUpgrade proposalID =>
    let upgrade ← st.governance.pendingUpgradeProposal proposalID
    if upgrade.epoch < params.upgradeCancelMinEpochDiff + epoch then throw .upgradeTooSoon
  | .changeParameters p =>
    match publishChangeParameters others params p with
    | none => throw .invalidArgument
    | some r => discard r

/-- The proposal `submitProposal` creates (`transactions.go:195-204`): active, with
the deposit `MinProposalDeposit`, closing `VotingPeriod` epochs after `epoch` in
`uint64` arithmetic. -/
def newProposal (params : ConsensusParameters) (id : UInt64) (epoch : EpochTime)
    (submitterAddr : Addr) (content : ProposalContent) : StoredProposal Addr :=
  { id, closesAt := epoch + params.votingPeriod, content, createdAt := epoch,
    deposit := params.minProposalDeposit, state := .active, results := none,
    invalidVotes := 0, submitter := submitterAddr }

/-- `submitProposal` (`transactions.go:20-220`) by `submitterAddr` in a block of
`epoch`: the checks, the deposit, the next proposal identifier and the new active
proposal; the new state and the proposal. -/
def submitProposal (space : AddressSpace Addr) (others : OtherModules) (st : AppState Addr)
    (epoch : EpochTime) (submitterAddr : Addr) (content : ProposalContent) :
    Except TxError (AppState Addr × StoredProposal Addr) := do
  checkSubmission space others st epoch submitterAddr content
  let params := st.governance.parameters
  let staking ← (st.staking.transferToGovernanceDeposits submitterAddr
    params.minProposalDeposit).mapError .deposit
  let id := st.governance.nextProposalID
  let proposal := newProposal params id epoch submitterAddr content
  let governance := { st.governance.setProposal proposal with nextProposalID := id + 1 }
  pure ({ governance, staking }, proposal)

/-- `BeginBlock` (`governance.go:144-218`) on a node that runs the version a pending
upgrade of the new epoch asks for (any other node stops with `ErrStopForUpgrade`):
the pending upgrades of the epoch are removed. -/
def beginBlock (s : GovernanceState Addr) (epochChanged : Bool) (epoch : EpochTime) :
    Except TxError (GovernanceState Addr) :=
  if !epochChanged then .ok s
  else do
    let pendingUpgrades ← s.pendingUpgradeDescriptors
    if pendingUpgrades.any (·.epoch == epoch) then
      pure { s with pendingUpgrades := s.pendingUpgrades.filter (·.1 ≠ epoch) }
    else pure s

/-- The effect of `executeProposal` (`governance.go:220-336`) on the state, or its
error. Each branch fails before it writes, and the upgrader's local copy of the
upgrades is not consensus state. -/
def executeProposal (others : OtherModules) (s : GovernanceState Addr)
    (proposal : StoredProposal Addr) : Except TxError (GovernanceState Addr) :=
  match proposal.content with
  | .upgrade d => do
    let upgrades ← s.pendingUpgradeDescriptors
    checkUpgradeSpacing upgrades d.epoch s.parameters.upgradeMinEpochDiff
    pure { s with pendingUpgrades := insert (d.epoch, proposal.id) s.pendingUpgrades }
  | .cancelUpgrade proposalID =>
    match s.proposals.get proposalID with
    | none => .error .noSuchProposal
    | some canceling =>
      match canceling.content with
      | .upgrade d => do
        let _ ← s.pendingUpgradeProposal canceling.id
        pure { s with pendingUpgrades := s.pendingUpgrades.erase (d.epoch, canceling.id) }
      | _ => .error .noSuchUpgrade
  | .changeParameters p =>
    if !s.parameters.enableChangeParametersProposal then .error .invalidArgument
    else
      match publishChangeParameters others s.parameters p with
      | none => .error .invalidArgument
      | some r => r.map fun params => { s with parameters := params }

/-- A closed proposal and the state after `EndBlock` executes it if it passed
(`governance.go:600-609`): a passed proposal stays `StatePassed` with its content
carried out, or becomes `StateFailed` with the state as it was. -/
def executeIfPassed (others : OtherModules) (s : GovernanceState Addr)
    (proposal : StoredProposal Addr) : GovernanceState Addr × StoredProposal Addr :=
  if proposal.state ≠ .passed then (s, proposal)
  else
    match executeProposal others s proposal with
    | .ok s' => (s', proposal)
    | .error _ => (s, { proposal with state := .failed })

/-- The errors of `EndBlock` (`governance.go:520-659`). -/
inductive EndBlockError where
  /-- "consensus/governance: total voting stake is zero". -/
  | totalVotingStakeZero
  /-- "consensus/governance: failed to close a proposal: %w". -/
  | close (e : CloseError)
  /-- "consensus/governance: failed to reclaim proposal deposit: %w". -/
  | reclaimDeposit (e : QuantityError)
  /-- "consensus/governance: failed to discard proposal deposit: %w". -/
  | discardDeposit (e : QuantityError)
  /-- "consensus/governance: invalid closed proposal state: %v". -/
  | invalidClosedState (state : ProposalState)
  deriving DecidableEq, Repr

/-- One closing proposal of `EndBlock` (`governance.go:572-656`): tallied and
closed, executed when it passed, saved, and its deposit returned to the submitter
when it passed or failed and moved to the common pool when it was rejected. -/
def finalizeProposal (others : OtherModules) (order : IterOrder Addr)
    (voteOrder : IterOrder Vote) (totalVotingStake : ℕ)
    (validatorEntitiesPool : FinMap Addr SharePool) (st : AppState Addr)
    (proposal : StoredProposal Addr) : Except EndBlockError (AppState Addr) := do
  let closed ← (closeProposal st.staking order voteOrder st.governance.parameters.stakeThreshold
    (st.governance.votes proposal.id) totalVotingStake validatorEntitiesPool
    proposal.toProposal).mapError .close
  let (governance, proposal) :=
    executeIfPassed others st.governance { proposal with toProposal := closed }
  let governance := governance.setProposal proposal
  match proposal.state with
  | .passed | .failed =>
    let staking ← (st.staking.transferFromGovernanceDeposits proposal.submitter
      proposal.deposit).mapError .reclaimDeposit
    pure { governance, staking }
  | .rejected =>
    let staking ← (st.staking.discardGovernanceDeposit proposal.deposit).mapError .discardDeposit
    pure { governance, staking }
  | .active => throw (.invalidClosedState .active)

/-- `EndBlock` (`governance.go:520-659`) of a block of `epoch`; `validators` are the
entity addresses of the current validators, as `validatorsEscrow` walks them. -/
def endBlock (others : OtherModules) (order : IterOrder Addr) (voteOrder : IterOrder Vote)
    (validators : List Addr) (st : AppState Addr) (epochChanged : Bool) (epoch : EpochTime) :
    Except EndBlockError (AppState Addr) :=
  if !epochChanged then .ok st
  else
    let closing := st.governance.closingProposals epoch
    if closing = [] then .ok st
    else
      let (totalVotingStake, validatorEntitiesEscrow) := validatorsEscrow st.staking validators
      if totalVotingStake = 0 then .error .totalVotingStakeZero
      else closing.foldlM
        (finalizeProposal others order voteOrder totalVotingStake validatorEntitiesEscrow) st

/-! ## The sanity checks -/

/-- The errors of `checkGovernance` and the checks it runs. -/
inductive SanityError where
  /-- "SanityCheck ConsensusParameters: %w". -/
  | parameters (e : ParametersError)
  /-- "proposal %v: with created epoch in the future". -/
  | createdInFuture (id : UInt64)
  /-- "proposal %v: invalid proposal submitter". -/
  | invalidSubmitter (id : UInt64)
  /-- "proposal %v: active proposal with past closing epoch". -/
  | activePastClosing (id : UInt64)
  /-- "proposal %v: active proposal with results". -/
  | activeWithResults (id : UInt64)
  /-- "proposal %v: active proposal with non-zero invalid votes". -/
  | activeInvalidVotes (id : UInt64)
  /-- "proposal %v: active proposal with past upgrade epoch". -/
  | activePastUpgradeEpoch (id : UInt64)
  /-- "proposal %v: closed proposal with future closing epoch". -/
  | closedFutureClosing (id : UInt64)
  /-- "sum of active proposals deposits (%s) doesn't match governance deposit (%s)". -/
  | depositsMismatch (active governance : ℕ)
  /-- "proposal %v: invalid voter". -/
  | invalidVoter (id : UInt64)
  /-- "PendingUpgrades: %w". -/
  | pendingUpgrades (e : TxError)
  /-- "pending upgrade %v: descriptor validation failure: %w". -/
  | pendingUpgradeInvalid
  /-- "pending upgrade %v: past upgrade epoch". -/
  | pendingUpgradePast
  /-- "pending upgrades not UpgradeMinEpochDiff(%v) apart: %v, %v". -/
  | pendingUpgradesTooClose (minEpochDiff prev curr : EpochTime)
  deriving DecidableEq, Repr

/-- The check of one proposal in `SanityCheckProposals` (`sanity_check.go:53-93`),
adding the deposit of an active one to the running sum. -/
def sanityCheckProposal (space : AddressSpace Addr) (epoch : EpochTime)
    (activeProposalDeposits : ℕ) (p : StoredProposal Addr) : Except SanityError ℕ := do
  if p.createdAt > epoch then throw (.createdInFuture p.id)
  if !space.isValid p.submitter then throw (.invalidSubmitter p.id)
  match p.state with
  | .active =>
    if p.closesAt < epoch then throw (.activePastClosing p.id)
    if p.results.isSome then throw (.activeWithResults p.id)
    if p.invalidVotes ≠ 0 then throw (.activeInvalidVotes p.id)
    if let .upgrade d := p.content then
      if d.epoch < epoch then throw (.activePastUpgradeEpoch p.id)
    pure (activeProposalDeposits + p.deposit)
  | _ =>
    if p.closesAt > epoch then throw (.closedFutureClosing p.id)
    pure activeProposalDeposits

/-- `SanityCheckProposals` (`sanity_check.go:50-101`). -/
def sanityCheckProposals (space : AddressSpace Addr) (proposals : List (StoredProposal Addr))
    (epoch : EpochTime) (governanceDeposit : ℕ) : Except SanityError Unit := do
  let activeProposalDeposits ← proposals.foldlM (sanityCheckProposal space epoch) 0
  if activeProposalDeposits ≠ governanceDeposit then
    throw (.depositsMismatch activeProposalDeposits governanceDeposit)

/-- `SanityCheckVotes` (`sanity_check.go:103-111`). -/
def sanityCheckVotes (space : AddressSpace Addr) (p : StoredProposal Addr)
    (votes : List (VoteEntry Addr)) : Except SanityError Unit :=
  votes.forM fun v => if !space.isValid v.voter then .error (.invalidVoter p.id) else .ok ()

/-- The spacing loop of `SanityCheckPendingUpgrades` (`sanity_check.go:126-136`) over
sorted epochs, carrying the previous one. -/
def checkPendingUpgradeSpacing (minEpochDiff : EpochTime) :
    EpochTime → List EpochTime → Except SanityError Unit
  | _, [] => .ok ()
  | prevEpoch, currEpoch :: rest =>
    if absDiff prevEpoch currEpoch < minEpochDiff then
      .error (.pendingUpgradesTooClose minEpochDiff prevEpoch currEpoch)
    else checkPendingUpgradeSpacing minEpochDiff currEpoch rest

/-- `SanityCheckPendingUpgrades` (`sanity_check.go:113-139`); `slices.Sort` is an
insertion sort here, as every sort of a total order gives the same list. -/
def sanityCheckPendingUpgrades (upgrades : List Descriptor) (epoch : EpochTime)
    (params : ConsensusParameters) : Except SanityError Unit := do
  upgrades.forM fun up => do
    if !up.validateBasic then throw .pendingUpgradeInvalid
    if up.epoch < epoch then throw .pendingUpgradePast
  match (upgrades.map (·.epoch)).insertionSort (· ≤ ·) with
  | [] => pure ()
  | first :: rest => checkPendingUpgradeSpacing params.upgradeMinEpochDiff first rest

/-- `checkGovernance` (`supplementarysanity/checks.go:313-361`) at `epoch`. -/
def checkGovernance (space : AddressSpace Addr) (st : AppState Addr) (epoch : EpochTime) :
    Except SanityError Unit := do
  let params := st.governance.parameters
  params.sanityCheck.mapError .parameters
  let proposals := st.governance.proposalList
  sanityCheckProposals space proposals epoch st.staking.governanceDeposits
  proposals.forM fun p => sanityCheckVotes space p (st.governance.votes p.id)
  let pendingUpgrades ← st.governance.pendingUpgradeDescriptors.mapError .pendingUpgrades
  sanityCheckPendingUpgrades pendingUpgrades epoch params

/-! ## When proposals close and when the checks fail -/

section Spec

namespace GovernanceState

omit [DecidableEq Addr] in
/-- No proposal closes at `epoch` exactly when every active proposal closes at
another epoch. -/
theorem closingProposals_eq_nil_iff {s : GovernanceState Addr} {epoch : EpochTime} :
    s.closingProposals epoch = [] ↔ ∀ p ∈ s.proposalList, p.state = .active → p.closesAt ≠ epoch := by
  unfold closingProposals
  simp only [List.filter_eq_nil_iff, decide_eq_true_eq, not_and]

end GovernanceState

/-- An epoch change at which no active proposal closes leaves the state as it is. -/
theorem endBlock_of_closingProposals_eq_nil (others : OtherModules) (order : IterOrder Addr)
    (voteOrder : IterOrder Vote) (validators : List Addr) {st : AppState Addr}
    {epoch : EpochTime} (h : st.governance.closingProposals epoch = []) :
    endBlock others order voteOrder validators st true epoch = .ok st := by
  unfold endBlock
  simp only [Bool.not_true, Bool.false_eq_true, if_false, h, if_true]

omit [DecidableEq Addr] in
/-- An epoch change without pending upgrades at the new epoch leaves the state as
it is. -/
theorem beginBlock_of_not_pending {s : GovernanceState Addr} {epoch : EpochTime}
    {upgrades : List Descriptor} (hupgrades : s.pendingUpgradeDescriptors = .ok upgrades)
    (hnone : ∀ up ∈ upgrades, up.epoch ≠ epoch) : beginBlock s true epoch = .ok s := by
  have hany : upgrades.any (·.epoch == epoch) = false := by
    simpa only [List.any_eq_false, beq_iff_eq] using hnone
  unfold beginBlock
  simp only [Bool.not_true, Bool.false_eq_true, if_false, hupgrades, Except.ok_bind, hany]
  rfl

omit [DecidableEq Addr] in
/-- An active proposal whose closing epoch is past fails its check. -/
theorem sanityCheckProposal_activePastClosing (space : AddressSpace Addr) {epoch : EpochTime}
    (acc : ℕ) {p : StoredProposal Addr} (hcreated : p.createdAt ≤ epoch)
    (hsubmitter : space.isValid p.submitter = true) (hactive : p.state = .active)
    (hclosed : p.closesAt < epoch) :
    sanityCheckProposal space epoch acc p = .error (.activePastClosing p.id) := by
  have hnotFuture : ¬ epoch < p.createdAt := UInt64.not_lt.mpr hcreated
  unfold sanityCheckProposal
  simp [hactive, hclosed, hsubmitter, hnotFuture]

omit [DecidableEq Addr] in
/-- The first proposal that fails its check fails `SanityCheckProposals`. -/
theorem sanityCheckProposals_cons_error (space : AddressSpace Addr) {epoch : EpochTime}
    {p : StoredProposal Addr} {e : SanityError} (rest : List (StoredProposal Addr))
    (governanceDeposit : ℕ) (h : sanityCheckProposal space epoch 0 p = .error e) :
    sanityCheckProposals space (p :: rest) epoch governanceDeposit = .error e := by
  unfold sanityCheckProposals
  simp [List.foldlM_cons, h]

omit [DecidableEq Addr] in
/-- With sound parameters, a failure of `SanityCheckProposals` is the failure of
`checkGovernance`. -/
theorem checkGovernance_of_sanityCheckProposals_error (space : AddressSpace Addr)
    {st : AppState Addr} {epoch : EpochTime} {e : SanityError}
    (hparams : st.governance.parameters.sanityCheck = .ok ())
    (h : sanityCheckProposals space st.governance.proposalList epoch
      st.staking.governanceDeposits = .error e) :
    checkGovernance space st epoch = .error e := by
  unfold checkGovernance
  simp [hparams, h]

end Spec

/-! ## Closing is exact

`EndBlock` closes exactly the active proposals whose closing epoch is the epoch it
changes to and leaves every other proposal as it is; along every run each proposal
stays stored under its own ID, which is what lets a closing write touch only its own
proposal. -/

section Closing

namespace GovernanceState

/-- Every proposal is stored under its own ID, as `SetProposal` keys it. -/
def WellKeyed (s : GovernanceState Addr) : Prop :=
  ∀ k p, s.proposals.get k = some p → p.id = k

omit [DecidableEq Addr] in
@[simp] theorem get_setProposal (s : GovernanceState Addr) (p : StoredProposal Addr)
    (k : UInt64) :
    (s.setProposal p).proposals.get k = if k = p.id then some p else s.proposals.get k := rfl

omit [DecidableEq Addr] in
theorem WellKeyed.setProposal {s : GovernanceState Addr} (hs : s.WellKeyed)
    (p : StoredProposal Addr) : (s.setProposal p).WellKeyed := by
  intro k q hq
  rw [get_setProposal] at hq
  by_cases hk : k = p.id
  · rw [if_pos hk] at hq
    cases hq
    exact hk.symm
  · rw [if_neg hk] at hq
    exact hs k q hq

omit [DecidableEq Addr] in
/-- A listed proposal is stored under its ID. -/
theorem WellKeyed.get_of_mem_proposalList {s : GovernanceState Addr} (hs : s.WellKeyed)
    {q : StoredProposal Addr} (hq : q ∈ s.proposalList) : s.proposals.get q.id = some q := by
  obtain ⟨k, -, hk⟩ := List.mem_filterMap.mp hq
  rw [hs k q hk]
  exact hk

omit [DecidableEq Addr] in
/-- A stored proposal is listed. -/
theorem mem_proposalList_of_get {s : GovernanceState Addr} {k : UInt64}
    {p : StoredProposal Addr} (h : s.proposals.get k = some p) : p ∈ s.proposalList := by
  have hk : k ∈ s.proposals.keys := by
    by_contra hk
    rw [s.proposals.get_eq_default k hk] at h
    cases h
  exact List.mem_filterMap.mpr ⟨k, (FinMap.mem_sortedElems _).mpr hk, h⟩

omit [DecidableEq Addr] in
theorem mem_closingProposals {s : GovernanceState Addr} {epoch : EpochTime}
    {q : StoredProposal Addr} :
    q ∈ s.closingProposals epoch ↔ q ∈ s.proposalList ∧ q.state = .active ∧ q.closesAt = epoch := by
  unfold closingProposals
  rw [List.mem_filter, decide_eq_true_eq]

omit [DecidableEq Addr] in
theorem mem_closingProposals_of_get {s : GovernanceState Addr} {epoch : EpochTime} {k : UInt64}
    {p : StoredProposal Addr} (h : s.proposals.get k = some p) (hactive : p.state = .active)
    (hclose : p.closesAt = epoch) : p ∈ s.closingProposals epoch :=
  mem_closingProposals.mpr ⟨mem_proposalList_of_get h, hactive, hclose⟩

end GovernanceState

omit [DecidableEq Addr] in
/-- Executing a proposal writes no proposal. -/
theorem proposals_executeProposal {others : OtherModules} {s s' : GovernanceState Addr}
    {p : StoredProposal Addr} (h : executeProposal others s p = .ok s') :
    s'.proposals = s.proposals := by
  unfold executeProposal at h
  split at h
  · obtain ⟨upgrades, -, h⟩ := Except.bind_eq_ok.mp h
    obtain ⟨_, -, h⟩ := Except.bind_eq_ok.mp h
    cases h
    rfl
  · split at h
    · cases h
    · split at h
      · obtain ⟨_, -, h⟩ := Except.bind_eq_ok.mp h
        cases h
        rfl
      · cases h
  · split at h
    · cases h
    · split at h
      · cases h
      · rename_i r _
        cases r
        · cases h
        · cases h
          rfl

omit [DecidableEq Addr] in
theorem proposals_executeIfPassed (others : OtherModules) (s : GovernanceState Addr)
    (p : StoredProposal Addr) : (executeIfPassed others s p).1.proposals = s.proposals := by
  unfold executeIfPassed
  split
  · rfl
  · split
    · rename_i hexec
      exact proposals_executeProposal hexec
    · rfl

omit [DecidableEq Addr] in
/-- Execution keeps a proposal or fails it. -/
theorem executeIfPassed_snd (others : OtherModules) (s : GovernanceState Addr)
    (p : StoredProposal Addr) :
    (executeIfPassed others s p).2 = p ∨ (executeIfPassed others s p).2 = { p with state := .failed } := by
  unfold executeIfPassed
  split
  · exact Or.inl rfl
  · split
    · exact Or.inl rfl
    · exact Or.inr rfl

/-- One closing proposal: it is written back under its ID, out of `StateActive`, with
its submitter, deposit and closing epoch; its deposit goes back to the submitter when
it passed or failed and to the common pool when it was rejected. -/
theorem finalizeProposal_eq_ok {others : OtherModules} {order : IterOrder Addr}
    {voteOrder : IterOrder Vote} {total : ℕ} {pools : FinMap Addr SharePool}
    {st st' : AppState Addr} {q : StoredProposal Addr}
    (h : finalizeProposal others order voteOrder total pools st q = .ok st') :
    ∃ q', q'.id = q.id ∧ q'.submitter = q.submitter ∧ q'.deposit = q.deposit ∧
      q'.closesAt = q.closesAt ∧
      st'.governance.proposals = st.governance.proposals.set q.id (some q') ∧
      ((q'.state = .passed ∨ q'.state = .failed) ∧
          st.staking.transferFromGovernanceDeposits q.submitter q.deposit = .ok st'.staking ∨
        q'.state = .rejected ∧ st.staking.discardGovernanceDeposit q.deposit = .ok st'.staking) := by
  unfold finalizeProposal at h
  obtain ⟨closed, -, h⟩ := Except.bind_eq_ok.mp h
  have hprops := proposals_executeIfPassed others st.governance { q with toProposal := closed }
  have hsnd := executeIfPassed_snd others st.governance { q with toProposal := closed }
  generalize executeIfPassed others st.governance { q with toProposal := closed } = r at h hprops hsnd
  obtain ⟨g, q'⟩ := r
  dsimp only at h hprops hsnd
  obtain ⟨hid, hsubmitter, hdeposit, hclose⟩ :
      q'.id = q.id ∧ q'.submitter = q.submitter ∧ q'.deposit = q.deposit ∧ q'.closesAt = q.closesAt := by
    rcases hsnd with rfl | rfl <;> exact ⟨rfl, rfl, rfl, rfl⟩
  have hwrite : (g.setProposal q').proposals = st.governance.proposals.set q.id (some q') := by
    rw [← hprops, ← hid]
    rfl
  refine ⟨q', hid, hsubmitter, hdeposit, hclose, ?_⟩
  split at h
  · obtain ⟨staking, hstaking, h⟩ := Except.bind_eq_ok.mp h
    cases h
    rw [← hsubmitter, ← hdeposit]
    exact ⟨hwrite, Or.inl ⟨Or.inl ‹_›, Except.mapError_eq_ok.mp hstaking⟩⟩
  · obtain ⟨staking, hstaking, h⟩ := Except.bind_eq_ok.mp h
    cases h
    rw [← hsubmitter, ← hdeposit]
    exact ⟨hwrite, Or.inl ⟨Or.inr ‹_›, Except.mapError_eq_ok.mp hstaking⟩⟩
  · obtain ⟨staking, hstaking, h⟩ := Except.bind_eq_ok.mp h
    cases h
    rw [← hdeposit]
    exact ⟨hwrite, Or.inr ⟨‹_›, Except.mapError_eq_ok.mp hstaking⟩⟩
  · cases h

/-- The closing loop of `EndBlock` over proposals `L` stored under their IDs: every
key of `L` then holds a proposal out of `StateActive` with the closing epoch of the
one it held, and every other key reads as before. -/
theorem foldlM_finalizeProposal {others : OtherModules} {order : IterOrder Addr}
    {voteOrder : IterOrder Vote} {total : ℕ} {pools : FinMap Addr SharePool}
    {st st' : AppState Addr} {L : List (StoredProposal Addr)}
    (hL : ∀ q ∈ L, st.governance.proposals.get q.id = some q)
    (h : L.foldlM (finalizeProposal others order voteOrder total pools) st = .ok st') (k : UInt64) :
    (k ∈ L.map (·.id) → ∃ p q, st.governance.proposals.get k = some p ∧
        st'.governance.proposals.get k = some q ∧ q.id = k ∧ q.state ≠ .active ∧
        q.closesAt = p.closesAt) ∧
      (k ∉ L.map (·.id) → st'.governance.proposals.get k = st.governance.proposals.get k) := by
  -- The invariant over the closed prefix `done`, for every key at once.
  refine Except.foldlM_inv_of_eq_ok L (fun done cur => ∀ k,
      (k ∈ done.map (·.id) → ∃ p q, st.governance.proposals.get k = some p ∧
        cur.governance.proposals.get k = some q ∧ q.id = k ∧ q.state ≠ .active ∧
        q.closesAt = p.closesAt) ∧
      (k ∉ done.map (·.id) → cur.governance.proposals.get k = st.governance.proposals.get k))
    ?_ (fun k => ⟨fun hk => absurd hk List.not_mem_nil, fun _ => rfl⟩) h k
  intro done a rest cur cur' hl hI hf k
  obtain ⟨a', hid, -, -, hclose, hprops, hstate⟩ := finalizeProposal_eq_ok hf
  have ha : st.governance.proposals.get a.id = some a := hL a (by rw [← hl]; simp)
  have hinactive : a'.state ≠ .active := by
    rcases hstate with ⟨hs | hs, -⟩ | ⟨hs, -⟩ <;> rw [hs] <;> decide
  rw [hprops]
  by_cases hk : k = a.id
  · subst hk
    exact ⟨fun _ => ⟨a, a', ha, by simp, hid, hinactive, hclose⟩, fun hnot => absurd (by simp) hnot⟩
  · have hmem : k ∈ (done ++ [a]).map (·.id) ↔ k ∈ done.map (·.id) := by simp [hk]
    rw [hmem, FinMap.get_set_ne _ _ hk]
    exact hI k

/-- `EndBlock` closes exactly the active proposals whose closing epoch is the epoch
it changes to: each of them leaves `StateActive` and keeps its closing epoch, every
other key reads as before, and proposals stay stored under their IDs. -/
theorem endBlock_closes_exactly {others : OtherModules} {order : IterOrder Addr}
    {voteOrder : IterOrder Vote} {validators : List Addr} {st st' : AppState Addr}
    {epochChanged : Bool} {epoch : EpochTime} (hkeyed : st.governance.WellKeyed)
    (h : endBlock others order voteOrder validators st epochChanged epoch = .ok st') :
    st'.governance.WellKeyed ∧
      (∀ k p, st.governance.proposals.get k = some p → epochChanged = true →
        p.state = .active → p.closesAt = epoch →
        ∃ q, st'.governance.proposals.get k = some q ∧ q.state ≠ .active ∧
          q.closesAt = p.closesAt) ∧
      (∀ k, (∀ p, st.governance.proposals.get k = some p →
          ¬ (epochChanged = true ∧ p.state = .active ∧ p.closesAt = epoch)) →
        st'.governance.proposals.get k = st.governance.proposals.get k) := by
  unfold endBlock at h
  cases epochChanged with
  | false =>
    cases h
    exact ⟨hkeyed, fun _ _ _ hch => absurd hch Bool.false_ne_true, fun _ _ => rfl⟩
  | true =>
    simp only [Bool.not_true, Bool.false_eq_true, if_false] at h
    by_cases hnil : st.governance.closingProposals epoch = []
    · rw [if_pos hnil] at h
      cases h
      refine ⟨hkeyed, fun k p hp _ hactive hclose => ?_, fun _ _ => rfl⟩
      have hmem := GovernanceState.mem_closingProposals_of_get hp hactive hclose
      rw [hnil] at hmem
      exact absurd hmem List.not_mem_nil
    · rw [if_neg hnil] at h
      generalize validatorsEscrow st.staking validators = ve at h
      obtain ⟨total, pools⟩ := ve
      dsimp only at h
      split at h
      · cases h
      have hL : ∀ q ∈ st.governance.closingProposals epoch, st.governance.proposals.get q.id = some q :=
        fun q hq => hkeyed.get_of_mem_proposalList (GovernanceState.mem_closingProposals.mp hq).1
      have hloop := foldlM_finalizeProposal hL h
      -- A key of a closing proposal holds that proposal.
      have hclosing : ∀ k, k ∈ (st.governance.closingProposals epoch).map (·.id) →
          ∃ q, st.governance.proposals.get k = some q ∧ q.state = .active ∧ q.closesAt = epoch := by
        intro k hk
        obtain ⟨q, hq, rfl⟩ := List.mem_map.mp hk
        obtain ⟨-, hactive, hclose⟩ := GovernanceState.mem_closingProposals.mp hq
        exact ⟨q, hL q hq, hactive, hclose⟩
      refine ⟨fun k q hq => ?_, fun k p hp _ hactive hclose => ?_, fun k hk => ?_⟩
      · by_cases hk : k ∈ (st.governance.closingProposals epoch).map (·.id)
        · obtain ⟨_, q', -, hq', hid, -⟩ := (hloop k).1 hk
          rw [hq] at hq'
          cases hq'
          exact hid
        · rw [(hloop k).2 hk] at hq
          exact hkeyed k q hq
      · have hk : k ∈ (st.governance.closingProposals epoch).map (·.id) := by
          rw [← hkeyed k p hp]
          exact List.mem_map_of_mem (GovernanceState.mem_closingProposals_of_get hp hactive hclose)
        obtain ⟨p', q, hp', hq, -, hinactive, hclose'⟩ := (hloop k).1 hk
        rw [hp] at hp'
        cases hp'
        exact ⟨q, hq, hinactive, hclose'⟩
      · apply (hloop k).2
        intro hmem
        obtain ⟨q, hq, hactive, hclose⟩ := hclosing k hmem
        exact hk q hq ⟨rfl, hactive, hclose⟩

/-- A successful submission passed its checks, moved the deposit and stored the new
proposal under the next identifier. -/
theorem submitProposal_eq_ok {space : AddressSpace Addr} {others : OtherModules}
    {st st' : AppState Addr} {epoch : EpochTime} {submitterAddr : Addr}
    {content : ProposalContent} {p : StoredProposal Addr}
    (h : submitProposal space others st epoch submitterAddr content = .ok (st', p)) :
    checkSubmission space others st epoch submitterAddr content = .ok () ∧
      p = newProposal st.governance.parameters st.governance.nextProposalID epoch
        submitterAddr content ∧
      st'.governance = { st.governance.setProposal p with
        nextProposalID := st.governance.nextProposalID + 1 } ∧
      st.staking.transferToGovernanceDeposits submitterAddr
        st.governance.parameters.minProposalDeposit = .ok st'.staking := by
  unfold submitProposal at h
  obtain ⟨_, hcheck, h⟩ := Except.bind_eq_ok.mp h
  obtain ⟨staking, hstaking, h⟩ := Except.bind_eq_ok.mp h
  cases Except.pure_eq_ok.mp h
  exact ⟨hcheck, rfl, rfl, Except.mapError_eq_ok.mp hstaking⟩

omit [DecidableEq Addr] in
/-- `BeginBlock` writes no proposal. -/
theorem proposals_beginBlock {s s' : GovernanceState Addr} {epochChanged : Bool}
    {epoch : EpochTime} (h : beginBlock s epochChanged epoch = .ok s') :
    s'.proposals = s.proposals := by
  unfold beginBlock at h
  split at h
  · cases h
    rfl
  · obtain ⟨_, -, h⟩ := Except.bind_eq_ok.mp h
    split at h <;> cases h <;> rfl

/-- One step of the governance application: a submission in a block of `epoch`, or
the `BeginBlock` or `EndBlock` of a block. -/
inductive Step (space : AddressSpace Addr) (others : OtherModules) (order : IterOrder Addr)
    (voteOrder : IterOrder Vote) (validators : List Addr) : AppState Addr → AppState Addr → Prop
  | submit {st st' : AppState Addr} {p : StoredProposal Addr} (epoch : EpochTime)
      (submitterAddr : Addr) (content : ProposalContent) :
      submitProposal space others st epoch submitterAddr content = .ok (st', p) →
      Step space others order voteOrder validators st st'
  | beginBlock {st : AppState Addr} {g : GovernanceState Addr} (epochChanged : Bool)
      (epoch : EpochTime) :
      beginBlock st.governance epochChanged epoch = .ok g →
      Step space others order voteOrder validators st { st with governance := g }
  | endBlock {st st' : AppState Addr} (epochChanged : Bool) (epoch : EpochTime) :
      endBlock others order voteOrder validators st epochChanged epoch = .ok st' →
      Step space others order voteOrder validators st st'

section Run

variable {space : AddressSpace Addr} {others : OtherModules} {order : IterOrder Addr}
  {voteOrder : IterOrder Vote} {validators : List Addr}

/-- Every step keeps the proposals under their IDs. -/
theorem Step.wellKeyed {st st' : AppState Addr}
    (hstep : Step space others order voteOrder validators st st')
    (hkeyed : st.governance.WellKeyed) : st'.governance.WellKeyed := by
  cases hstep with
  | submit epoch submitterAddr content h =>
    obtain ⟨-, -, hgov, -⟩ := submitProposal_eq_ok h
    intro k q hq
    rw [hgov] at hq
    exact hkeyed.setProposal _ k q hq
  | beginBlock epochChanged epoch h =>
    have hprops := proposals_beginBlock h
    intro k q hq
    dsimp only at hq
    rw [hprops] at hq
    exact hkeyed k q hq
  | endBlock epochChanged epoch h =>
    exact (endBlock_closes_exactly hkeyed h).1

/-- Along every run the proposals stay under their IDs, so that every `EndBlock` of
the run closes exactly the active proposals of its epoch (`endBlock_closes_exactly`). -/
theorem wellKeyed_of_reachable {st₀ st : AppState Addr}
    (hrun : Relation.ReflTransGen (Step space others order voteOrder validators) st₀ st)
    (h₀ : st₀.governance.WellKeyed) : st.governance.WellKeyed := by
  induction hrun with
  | refl => exact h₀
  | tail _ hstep ih => exact hstep.wellKeyed ih

end Run

end Closing

/-! ## A proposal that never closes -/

/-- Parameters that `SanityCheck` accepts, with a voting period of zero epochs. -/
def zeroVotingPeriodParameters : ConsensusParameters where
  minProposalDeposit := 10
  votingPeriod := 0
  stakeThreshold := 67
  upgradeMinEpochDiff := 1
  upgradeCancelMinEpochDiff := 1
  enableChangeParametersProposal := false
  allowProposalMetadata := false

/-- No proposals yet; account `2` holds the whole supply of 100 in its general
balance. -/
def lifecycleStart : AppState ℕ where
  governance :=
    { parameters := zeroVotingPeriodParameters, nextProposalID := 0, proposals := .empty,
      votes := fun _ => [], pendingUpgrades := ∅ }
  staking :=
    { parameters := Staking.zeroShareParameters
      accounts := FinMap.empty.set 2 { general := { balance := 100 } }
      delegations := .empty
      debondingDelegations := .empty
      debondingQueue := ∅
      totalSupply := 100
      commonPool := 0
      lastBlockFees := 0
      governanceDeposits := 0 }

/-- An upgrade at epoch 100. -/
def upgradeAt100 : ProposalContent := .upgrade ⟨true, 100⟩

/-- The proposal account `2` submits in epoch 5. -/
def zeroPeriodProposal : StoredProposal ℕ :=
  { id := 0, closesAt := 5, content := upgradeAt100, createdAt := 5, deposit := 10,
    state := .active, results := none, invalidVotes := 0, submitter := 2 }

/-- The state after the submission: the proposal stored, its deposit moved. -/
def zeroPeriodSubmitted : AppState ℕ where
  governance := { lifecycleStart.governance.setProposal zeroPeriodProposal with nextProposalID := 1 }
  staking :=
    { lifecycleStart.staking.setAccount 2 { general := { balance := 90 } } with
      governanceDeposits := 10 }

/-- A proposal submitted with a voting period of zero, in a block of epoch 5 that
does not change the epoch, from a state and with parameters that pass their checks:
it is stored as active and closing at epoch 5, whose epoch change is past, so no
later `BeginBlock` and `EndBlock` touch it, and `checkGovernance` fails at every
later epoch. -/
theorem activeProposal_never_closes (others : OtherModules) (order : IterOrder ℕ)
    (voteOrder : IterOrder Vote) (validators : List ℕ) :
    zeroVotingPeriodParameters.sanityCheck = .ok () ∧
    checkGovernance Staking.natAddressSpace lifecycleStart 5 = .ok () ∧
    ∃ st p, submitProposal Staking.natAddressSpace others lifecycleStart 5 2 upgradeAt100 =
        .ok (st, p) ∧
      p.state = .active ∧ p.closesAt = 5 ∧ st.governance.proposals.get p.id = some p ∧
      endBlock others order voteOrder validators st false 5 = .ok st ∧
      (∀ epoch, epoch ≠ 5 →
        beginBlock st.governance true epoch = .ok st.governance ∧
        endBlock others order voteOrder validators st true epoch = .ok st) ∧
      ∀ epoch, 5 < epoch →
        checkGovernance Staking.natAddressSpace st epoch = .error (.activePastClosing p.id) := by
  have hlist : zeroPeriodSubmitted.governance.proposalList = [zeroPeriodProposal] := rfl
  refine ⟨rfl, rfl, zeroPeriodSubmitted, zeroPeriodProposal, rfl, rfl, rfl, rfl, rfl, ?_, ?_⟩
  · intro epoch hne
    refine ⟨beginBlock_of_not_pending rfl (by simp), ?_⟩
    apply endBlock_of_closingProposals_eq_nil
    rw [GovernanceState.closingProposals_eq_nil_iff, hlist]
    rintro p hp -
    rw [List.mem_singleton.mp hp]
    exact fun h => hne h.symm
  · intro epoch hlt
    refine checkGovernance_of_sanityCheckProposals_error _ ?_ ?_
    · rfl
    rw [hlist]
    apply sanityCheckProposals_cons_error
    exact sanityCheckProposal_activePastClosing _ 0 (UInt64.le_of_lt hlt) rfl rfl hlt

/-- At epoch 6, the first epoch change after the submission. -/
theorem activeProposal_never_closes_at_six :
    ∃ st p, submitProposal Staking.natAddressSpace (fun _ => none) lifecycleStart 5 2 upgradeAt100 =
        .ok (st, p) ∧ (6 : EpochTime) ≠ 5 ∧
      endBlock (fun _ => none) (.sorted (· ≤ ·)) voteConstOrder [1] st true 6 = .ok st ∧
      checkGovernance Staking.natAddressSpace st 6 = .error (.activePastClosing p.id) := by
  obtain ⟨-, -, st, p, hsubmit, -, -, -, -, hlater, hcheck⟩ :=
    activeProposal_never_closes (fun _ => none) (.sorted (· ≤ ·)) voteConstOrder [1]
  exact ⟨st, p, hsubmit, by decide, (hlater 6 (by decide)).2, hcheck 6 (by decide)⟩

end Governance

end OasisCore
