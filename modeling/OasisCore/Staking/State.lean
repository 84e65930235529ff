import OasisCore.Misc.FinMap
import OasisCore.Staking.SharePool
import OasisCore.Staking.Commission

/-!
# The staking ledger

The account and parameter types of `go/staking/api/api.go` and the state of the
staking application, `go/consensus/cometbft/apps/staking/state/state.go`.

The application keeps its state in an MKVS tree under key formats; here each key
format is a `FinMap`: accounts by address, delegations by (escrow, delegator),
debonding delegations by (delegator, escrow, end epoch), the debonding queue as
the set of its keys, and the four global balances. A getter of an absent key
answers the empty value, as `Account`, `Delegation` and `LastBlockFees` do.
`SetDelegation` removes a delegation without shares, so a stored delegation has
shares; a debonding delegation is removed when it is released.

Addresses are opaque: `AddressSpace` says which addresses are well formed and
which are reserved, and names the burn address.

`LedgerInvariant` is the invariant the supplementary sanity checker
(`go/consensus/cometbft/apps/supplementarysanity/checks.go:158-296`) asserts after
every block. The storage layer never fails here, so the state accessors do not
return its `UnavailableStateError`.
-/

namespace OasisCore

namespace Staking

/-- What the staking model needs of addresses (`go/staking/api/address.go`):
well-formedness, the reserved addresses of `NewReservedAddress`, and the burn
address, which is one of them. -/
structure AddressSpace (Addr : Type) where
  wellFormed : Addr → Bool
  isReserved : Addr → Bool
  burnAddress : Addr
  burn_reserved : isReserved burnAddress = true

/-- `Address.IsValid` (`address.go:85-88`): well formed and not reserved. -/
def AddressSpace.isValid {Addr : Type} (space : AddressSpace Addr) (a : Addr) : Bool :=
  space.wellFormed a && !space.isReserved a

/-- `ThresholdKind` (`api.go:722-742`). -/
inductive ThresholdKind where
  | entity
  | nodeValidator
  | nodeCompute
  | nodeObserver
  | nodeKeyManager
  | runtimeCompute
  | runtimeKeyManager
  | keyManagerChurp
  deriving DecidableEq, Repr

/-- `ThresholdKinds` (`api.go:744-756`): `KindKeyManagerChurp` is left out. -/
def thresholdKinds : List ThresholdKind :=
  [.entity, .nodeValidator, .nodeCompute, .nodeObserver, .nodeKeyManager, .runtimeCompute,
    .runtimeKeyManager]

/-- `RewardStep` (`go/staking/api/rewards.go:13-17`); `Until` is a keyword here. -/
structure RewardStep where
  untilEpoch : EpochTime
  scale : ℕ
  deriving DecidableEq, Repr

/-- `EpochInvalid` (`go/beacon/api/api.go:19-20`). -/
def epochInvalid : EpochTime := 0xffffffffffffffff

/-- `RewardAmountDenominator` (`rewards.go:10-26`). -/
def rewardAmountDenominator : ℕ := 100000000

/-- The fields of `ConsensusParameters` (`api.go:1230-1282`) that the modelled
functions read. -/
structure ConsensusParameters (Addr : Type) where
  thresholds : ThresholdKind → Option ℕ
  debondingInterval : EpochTime
  rewardSchedule : List RewardStep
  signingRewardThresholdNumerator : UInt64
  signingRewardThresholdDenominator : UInt64
  commissionScheduleRules : CommissionScheduleRules
  minDelegationAmount : ℕ
  minTransferAmount : ℕ
  minTransactBalance : ℕ
  disableTransfers : Bool
  disableDelegation : Bool
  undisableTransfersFrom : Addr → Bool
  allowEscrowMessages : Bool
  maxAllowances : UInt32
  feeSplitWeightPropose : ℕ
  feeSplitWeightVote : ℕ
  feeSplitWeightNextPropose : ℕ
  rewardFactorEpochSigned : ℕ
  rewardFactorBlockProposed : ℕ
  debugBypassStake : Bool

/-- `HookDestination` (`api.go:996-1000`). -/
structure HookDestination where
  module : String
  deriving DecidableEq, Repr

/-- `GeneralAccount` (`api.go:1002-1012`). `Hooks` has one kind, `HookKindWithdraw`,
so it is the optional withdraw hook. -/
structure GeneralAccount (Addr : Type) where
  balance : ℕ := 0
  nonce : UInt64 := 0
  allowances : FinMap Addr ℕ := .empty
  withdrawHook : Option HookDestination := none

/-- `StakeAccumulator` (`api.go:1076-1080`): the names of the stake claims. What a
claim requires is read only by the registry, which is not modelled. -/
structure StakeAccumulator where
  claims : List String := []
  deriving DecidableEq, Repr

/-- `EscrowAccount` (`api.go:1051-1057`). -/
structure EscrowAccount where
  active : SharePool := ⟨0, 0⟩
  debonding : SharePool := ⟨0, 0⟩
  commissionSchedule : CommissionSchedule := {}
  stakeAccumulator : StakeAccumulator := {}

/-- `Account` (`api.go:1135-1139`). -/
structure Account (Addr : Type) where
  general : GeneralAccount Addr := {}
  escrow : EscrowAccount := {}

instance {Addr : Type} : Inhabited (Account Addr) := ⟨{}⟩

/-- `Delegation` (`api.go:1156-1159`). -/
structure Delegation where
  shares : ℕ := 0
  deriving DecidableEq, Repr

instance : Inhabited Delegation := ⟨{}⟩

/-- `DebondingDelegation` (`api.go:1169-1173`). -/
structure DebondingDelegation where
  shares : ℕ := 0
  debondEndTime : EpochTime := 0
  deriving DecidableEq, Repr

instance : Inhabited DebondingDelegation := ⟨{}⟩

/-- The error of `DebondingDelegation.Merge`: "cannot merge debonding delegations,
end time doesn't match". -/
inductive MergeError where
  | endTimeMismatch
  deriving DecidableEq, Repr

/-- `DebondingDelegation.Merge` (`api.go:1175-1185`): `d` with the shares of
`other` added, when both end at the same epoch. -/
def DebondingDelegation.merge (d other : DebondingDelegation) :
    Except MergeError DebondingDelegation :=
  if d.debondEndTime ≠ other.debondEndTime then .error .endTimeMismatch
  else .ok { d with shares := d.shares + other.shares }

/-- `Genesis` (`api.go:1198-1227`). The Go maps are stores: the ledger by address,
delegations by escrow then delegator, debonding delegations by escrow then
delegator, each with its list of descriptors. -/
structure Genesis (Addr : Type) where
  parameters : ConsensusParameters Addr
  tokenSymbol : String
  tokenValueExponent : UInt8
  totalSupply : ℕ
  commonPool : ℕ
  lastBlockFees : ℕ
  governanceDeposits : ℕ
  ledger : FinMap Addr (Account Addr)
  delegations : FinMap Addr (FinMap Addr Delegation)
  debondingDelegations : FinMap Addr (FinMap Addr (List DebondingDelegation))

/-- The staking application state. -/
structure StakingState (Addr : Type) where
  parameters : ConsensusParameters Addr
  accounts : FinMap Addr (Account Addr)
  /-- `delegationKeyFmt`: (escrow, delegator) to shares. The reverse index
  `delegationKeyReverseFmt` always holds the same entries and is not kept. -/
  delegations : FinMap (Addr × Addr) ℕ
  /-- `debondingDelegationKeyFmt`: (delegator, escrow, end epoch). -/
  debondingDelegations : FinMap (Addr × Addr × EpochTime) DebondingDelegation
  /-- The keys of `debondingQueueKeyFmt`: (end epoch, delegator, escrow). -/
  debondingQueue : Finset (EpochTime × Addr × Addr)
  totalSupply : ℕ
  commonPool : ℕ
  lastBlockFees : ℕ
  governanceDeposits : ℕ

namespace StakingState

variable {Addr : Type} [DecidableEq Addr]

/-- `SetAccount` (`state.go:612-625`); the commission schedule address index it also
maintains is read by no modelled function. -/
def setAccount (s : StakingState Addr) (addr : Addr) (a : Account Addr) : StakingState Addr :=
  { s with accounts := s.accounts.set addr a }

/-- `Delegation` (`state.go:281-298`): the delegation of `delegator` to `escrow`,
with no shares when none is stored. -/
def delegation (s : StakingState Addr) (delegator escrow : Addr) : Delegation :=
  ⟨s.delegations.get (escrow, delegator)⟩

/-- `DelegationsTo` (`state.go:331-360`): the delegations to `escrow`, by delegator. -/
def delegationsTo (s : StakingState Addr) (escrow : Addr) : FinMap Addr Delegation where
  keys := (s.delegations.keys.filter (·.1 = escrow)).image Prod.snd
  get delegator := ⟨s.delegations.get (escrow, delegator)⟩
  get_eq_default := by
    intro delegator hd
    have hk : (escrow, delegator) ∉ s.delegations.keys := fun hk =>
      hd (Finset.mem_image.mpr ⟨(escrow, delegator), Finset.mem_filter.mpr ⟨hk, rfl⟩, rfl⟩)
    rw [s.delegations.get_eq_default _ hk]
    rfl

/-- `DelegationsFor` (`state.go:300-329`): the delegations of `delegator`, by escrow
account, as the reverse index holds them. -/
def delegationsFor (s : StakingState Addr) (delegator : Addr) : FinMap Addr Delegation where
  keys := (s.delegations.keys.filter (·.2 = delegator)).image Prod.fst
  get escrow := ⟨s.delegations.get (escrow, delegator)⟩
  get_eq_default := by
    intro escrow he
    have hk : (escrow, delegator) ∉ s.delegations.keys := fun hk =>
      he (Finset.mem_image.mpr ⟨(escrow, delegator), Finset.mem_filter.mpr ⟨hk, rfl⟩, rfl⟩)
    rw [s.delegations.get_eq_default _ hk]
    rfl

theorem mem_delegationsFor_keys (s : StakingState Addr) (delegator escrow : Addr) :
    escrow ∈ (s.delegationsFor delegator).keys ↔ (escrow, delegator) ∈ s.delegations.keys := by
  simp only [delegationsFor, Finset.mem_image, Finset.mem_filter]
  constructor
  · rintro ⟨⟨e, d⟩, ⟨hk, rfl⟩, rfl⟩
    exact hk
  · intro hk
    exact ⟨(escrow, delegator), ⟨hk, rfl⟩, rfl⟩

@[simp] theorem delegationsFor_get (s : StakingState Addr) (delegator escrow : Addr) :
    ((s.delegationsFor delegator).get escrow).shares = s.delegations.get (escrow, delegator) :=
  rfl

/-- `DebondingDelegationsTo` (`state.go:443-471`): the debonding delegations to
`escrow`, by delegator, each list in the order of the end epochs. -/
def debondingDelegationsTo (s : StakingState Addr) (escrow : Addr) :
    FinMap Addr (List DebondingDelegation) where
  keys := (s.debondingDelegations.keys.filter (·.2.1 = escrow)).image Prod.fst
  get delegator :=
    (FinMap.sortedElems (· ≤ ·) ((s.debondingDelegations.keys.filter
      fun k => k.1 = delegator ∧ k.2.1 = escrow).image (·.2.2))).map
      fun epoch => s.debondingDelegations.get (delegator, escrow, epoch)
  get_eq_default := by
    intro delegator hd
    have hempty : (s.debondingDelegations.keys.filter
        fun k => k.1 = delegator ∧ k.2.1 = escrow) = ∅ := by
      apply Finset.filter_eq_empty_iff.mpr
      rintro ⟨d, e, epoch⟩ hk ⟨rfl, rfl⟩
      exact hd (Finset.mem_image.mpr ⟨(d, e, epoch), Finset.mem_filter.mpr ⟨hk, rfl⟩, rfl⟩)
    rw [hempty]
    rfl

/-- `SetDelegation` (`state.go:662-682`): stores the delegation, or removes it when
it has no shares. -/
def setDelegation (s : StakingState Addr) (delegator escrow : Addr) (d : Delegation) :
    StakingState Addr :=
  if d.shares = 0 then { s with delegations := s.delegations.erase (escrow, delegator) }
  else { s with delegations := s.delegations.set (escrow, delegator) d.shares }

/-- `SetDebondingDelegation` (`state.go:684-737`): with no descriptor it removes the
one stored under (delegator, escrow, epoch); otherwise it merges the descriptor
with the stored one, if any, queues it for release at its end epoch and stores it. -/
def setDebondingDelegation (s : StakingState Addr) (delegatorAddr escrowAddr : Addr)
    (epoch : EpochTime) : Option DebondingDelegation → Except MergeError (StakingState Addr)
  | none => .ok { s with
      debondingDelegations := s.debondingDelegations.erase (delegatorAddr, escrowAddr, epoch) }
  | some d => do
    let key := (delegatorAddr, escrowAddr, epoch)
    let debDel ← if key ∈ s.debondingDelegations.keys then d.merge (s.debondingDelegations.get key)
      else pure d
    pure { s with
      debondingQueue := insert (d.debondEndTime, delegatorAddr, escrowAddr) s.debondingQueue
      debondingDelegations := s.debondingDelegations.set key debDel }

/-- `TransferToGovernanceDeposits` (`state.go:1073-1110`): moves `amount` from the
general balance of `fromAddr` to the governance deposits. -/
def transferToGovernanceDeposits (s : StakingState Addr) (fromAddr : Addr) (amount : ℕ) :
    Except QuantityError (StakingState Addr) := do
  let fromAccount := s.accounts.get fromAddr
  let (deposits, balance) ← Quantity.move s.governanceDeposits fromAccount.general.balance amount
  pure { s.setAccount fromAddr { fromAccount with general := { fromAccount.general with balance } }
    with governanceDeposits := deposits }

/-- `TransferFromGovernanceDeposits` (`state.go:1112-1148`): moves `amount` from the
governance deposits to the general balance of `toAddr`. -/
def transferFromGovernanceDeposits (s : StakingState Addr) (toAddr : Addr) (amount : ℕ) :
    Except QuantityError (StakingState Addr) := do
  let toAccount := s.accounts.get toAddr
  let (balance, deposits) ← Quantity.move toAccount.general.balance s.governanceDeposits amount
  pure { s.setAccount toAddr { toAccount with general := { toAccount.general with balance } }
    with governanceDeposits := deposits }

/-- `DiscardGovernanceDeposit` (`state.go:1150-1184`): moves `amount` from the
governance deposits to the common pool. -/
def discardGovernanceDeposit (s : StakingState Addr) (amount : ℕ) :
    Except QuantityError (StakingState Addr) := do
  let (commonPool, deposits) ← Quantity.move s.commonPool s.governanceDeposits amount
  pure { s with commonPool, governanceDeposits := deposits }

@[simp] theorem accounts_setAccount (s : StakingState Addr) (addr : Addr) (a : Account Addr) :
    (s.setAccount addr a).accounts = s.accounts.set addr a := rfl

/-- Storing two different accounts in either order gives the same state. -/
theorem setAccount_comm (s : StakingState Addr) {addr addr' : Addr} (h : addr ≠ addr')
    (a a' : Account Addr) :
    (s.setAccount addr a).setAccount addr' a' = (s.setAccount addr' a').setAccount addr a := by
  simp only [setAccount, FinMap.set_comm _ h]

@[simp] theorem delegations_setAccount (s : StakingState Addr) (addr : Addr) (a : Account Addr) :
    (s.setAccount addr a).delegations = s.delegations := rfl

@[simp] theorem debondingDelegations_setAccount (s : StakingState Addr) (addr : Addr)
    (a : Account Addr) :
    (s.setAccount addr a).debondingDelegations = s.debondingDelegations := rfl

@[simp] theorem accounts_setDelegation (s : StakingState Addr) (delegator escrow : Addr)
    (d : Delegation) : (s.setDelegation delegator escrow d).accounts = s.accounts := by
  unfold setDelegation
  split <;> rfl

@[simp] theorem debondingDelegations_setDelegation (s : StakingState Addr)
    (delegator escrow : Addr) (d : Delegation) :
    (s.setDelegation delegator escrow d).debondingDelegations = s.debondingDelegations := by
  unfold setDelegation
  split <;> rfl

@[simp] theorem debondingQueue_setAccount (s : StakingState Addr) (addr : Addr) (a : Account Addr) :
    (s.setAccount addr a).debondingQueue = s.debondingQueue := rfl

@[simp] theorem debondingQueue_setDelegation (s : StakingState Addr) (delegator escrow : Addr)
    (d : Delegation) : (s.setDelegation delegator escrow d).debondingQueue = s.debondingQueue := by
  unfold setDelegation
  split <;> rfl

/-- Storing a descriptor queues its end epoch, and the stored descriptor, merged or
not, keeps that end epoch. -/
theorem setDebondingDelegation_some_eq_ok {s s' : StakingState Addr}
    {delegatorAddr escrowAddr : Addr} {epoch : EpochTime} {d : DebondingDelegation}
    (h : s.setDebondingDelegation delegatorAddr escrowAddr epoch (some d) = .ok s') :
    s'.debondingQueue = insert (d.debondEndTime, delegatorAddr, escrowAddr) s.debondingQueue ∧
      (s'.debondingDelegations.get (delegatorAddr, escrowAddr, epoch)).debondEndTime =
        d.debondEndTime ∧ s'.accounts = s.accounts := by
  unfold setDebondingDelegation at h
  dsimp only at h
  split at h
  · -- A descriptor is stored under the key already: the two are merged.
    obtain ⟨debDel, hmerge, h⟩ := Except.bind_eq_ok.mp h
    cases Except.pure_eq_ok.mp h
    refine ⟨rfl, ?_, rfl⟩
    rw [FinMap.get_set_self]
    unfold DebondingDelegation.merge at hmerge
    split at hmerge
    · cases hmerge
    · cases hmerge
      rfl
  · cases Except.pure_eq_ok.mp h
    exact ⟨rfl, by rw [FinMap.get_set_self], rfl⟩

/-! ## The ledger invariant -/

/-- General, active escrow and debonding escrow balances of all accounts. -/
def accountBalances (s : StakingState Addr) : ℕ :=
  s.accounts.sum fun _ a => a.general.balance + a.escrow.active.balance +
    a.escrow.debonding.balance

/-- The shares of all delegations to `escrow`. -/
def delegatedShares (s : StakingState Addr) (escrow : Addr) : ℕ :=
  s.delegations.sum fun k shares => if k.1 = escrow then shares else 0

/-- The shares of all debonding delegations to `escrow`. -/
def debondingShares (s : StakingState Addr) (escrow : Addr) : ℕ :=
  s.debondingDelegations.sum fun k d => if k.2.1 = escrow then d.shares else 0

/-- No delegation to `escrow` is stored. -/
def NoDelegations (s : StakingState Addr) (escrow : Addr) : Prop :=
  ∀ k ∈ s.delegations.keys, k.1 ≠ escrow

/-- No debonding delegation to `escrow` is stored. -/
def NoDebondingDelegations (s : StakingState Addr) (escrow : Addr) : Prop :=
  ∀ k ∈ s.debondingDelegations.keys, k.2.1 ≠ escrow

instance (s : StakingState Addr) (escrow : Addr) : Decidable (s.NoDelegations escrow) := by
  unfold NoDelegations
  infer_instance

instance (s : StakingState Addr) (escrow : Addr) :
    Decidable (s.NoDebondingDelegations escrow) := by
  unfold NoDebondingDelegations
  infer_instance

/-- The staking ledger invariant, which `checkStaking` asserts
(`supplementarysanity/checks.go:158-296`): the total supply is exactly the
balances of the accounts, the common pool, the last block fees and the
governance deposits; every escrow pool's shares are those of its delegation
records; and an account without (debonding) delegations holds no (debonding)
escrow. -/
structure LedgerInvariant (s : StakingState Addr) : Prop where
  supply : s.accountBalances + s.commonPool + s.lastBlockFees + s.governanceDeposits =
    s.totalSupply
  activeShares : ∀ a, (s.accounts.get a).escrow.active.totalShares = s.delegatedShares a
  debondingShares : ∀ a, (s.accounts.get a).escrow.debonding.totalShares = s.debondingShares a
  activeEmpty : ∀ a, s.NoDelegations a → (s.accounts.get a).escrow.active.balance = 0
  debondingEmpty : ∀ a, s.NoDebondingDelegations a →
    (s.accounts.get a).escrow.debonding.balance = 0

end StakingState

end Staking

end OasisCore
