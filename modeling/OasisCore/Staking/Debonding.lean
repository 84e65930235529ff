import Mathlib.Data.Prod.Lex
import OasisCore.Misc.List
import OasisCore.Staking.Genesis
import OasisCore.Staking.SanityCheck

/-!
# Debonding

Reclaiming escrow starts debonding, and the epoch change releases it:
`reclaimEscrow` (`go/consensus/cometbft/apps/staking/transactions.go:376-530`) moves
the value of reclaimed shares from the escrow's active pool to its debonding pool and
records a debonding delegation ending `DebondingInterval` epochs later, queued under
its end epoch; `onEpochChange` (`staking.go:245-324`) walks `ExpiredDebondingQueue`
(`state/state.go:481-509`) and pays each expired delegation out to its delegator.

The queue is a set of keys (end epoch, delegator, escrow) whose encoding is
big-endian, so that the store walks it in the order of the end epochs; the walk stops
at the first key past the epoch, which is why it finds exactly the expired entries
(`expiredDebondingQueue_keys`). Addresses compare as their bytes, which is the order
of `Addr`.

The end epoch is `epoch + DebondingInterval` in `uint64`, and no check bounds the
interval: `SanityCheck` and parameter changes accept any. For an interval close to
`2^64` the end epoch wraps below the current one, and the next epoch change pays the
debonding out at once (`debonding_released_early`).
-/

namespace OasisCore

namespace Staking

/-- `ReclaimEscrow` (`go/staking/api/api.go:499-502`). -/
structure ReclaimEscrow (Addr : Type) where
  account : Addr
  shares : ℕ
  deriving DecidableEq, Repr

/-- `DebondingQueueEntry` (`state.go:474-479`). -/
structure DebondingQueueEntry (Addr : Type) where
  epoch : EpochTime
  delegatorAddr : Addr
  escrowAddr : Addr
  delegation : DebondingDelegation
  deriving DecidableEq, Repr

/-- The order of the keys of `debondingQueueKeyFmt`: the end epoch big-endian, then
the delegator and the escrow address as bytes. -/
def DebondingQueueKey.le {Addr : Type} [LinearOrder Addr] (a b : EpochTime × Addr × Addr) :
    Prop :=
  toLex (a.1.toNat, toLex a.2) ≤ toLex (b.1.toNat, toLex b.2)

section Order

variable {Addr : Type} [LinearOrder Addr]

instance : DecidableRel (@DebondingQueueKey.le Addr _) := fun a b => by
  unfold DebondingQueueKey.le
  infer_instance

instance : IsTrans (EpochTime × Addr × Addr) DebondingQueueKey.le where
  trans _ _ _ := le_trans

instance : Std.Total (@DebondingQueueKey.le Addr _) where
  total _ _ := le_total _ _

instance : Std.Antisymm (@DebondingQueueKey.le Addr _) where
  antisymm a b hab hba := by
    have h := le_antisymm hab hba
    simp only [toLex_inj, Prod.mk.injEq, UInt64.toNat_inj] at h
    exact Prod.ext h.1 h.2

/-- Keys in queue order come in the order of their end epochs. -/
theorem DebondingQueueKey.le_epoch {a b : EpochTime × Addr × Addr}
    (h : DebondingQueueKey.le a b) : a.1 ≤ b.1 := by
  rw [UInt64.le_iff_toNat_le]
  exact (Prod.Lex.le_iff.mp h).elim (fun hlt => le_of_lt hlt) (fun heq => le_of_eq heq.1)

end Order

/-- The errors of `reclaimEscrow`. -/
inductive ReclaimEscrowError where
  | staking (e : StakingError)
  /-- "failed to set debonding delegation: %w" of a merge that failed. -/
  | merge (e : MergeError)
  deriving DecidableEq, Repr

/-- The errors of the debonding release of `onEpochChange`. -/
inductive ReleaseError where
  /-- "cometbft/staking: failed to redeem debonding shares: %w" of the withdrawal. -/
  | redeem (e : StakingError)
  /-- The same text, of the move to the general balance. -/
  | move (e : QuantityError)
  /-- "failed to set debonding delegation: %w". -/
  | setDebondingDelegation (e : MergeError)
  deriving DecidableEq, Repr

namespace StakingState

section Reclaim

variable {Addr : Type} [DecidableEq Addr]

/-- `DebondingDelegation` (`state.go:392-410`): the descriptor stored under (delegator,
escrow, end epoch), empty when there is none. -/
def debondingDelegation (s : StakingState Addr) (delegatorAddr escrowAddr : Addr)
    (epoch : EpochTime) : DebondingDelegation :=
  s.debondingDelegations.get (delegatorAddr, escrowAddr, epoch)

/-- `reclaimEscrow` (`transactions.go:376-530`) by `toAddr` at `epoch`. The shares
come off the delegation to `reclaim.account` and its active pool; their value goes
into the debonding pool, for a debonding delegation that ends at
`epoch + DebondingInterval`. When the caller reclaims from its own escrow, `to` and
`from` are one account. -/
def reclaimEscrow (space : AddressSpace Addr) (s : StakingState Addr) (epoch : EpochTime)
    (toAddr : Addr) (reclaim : ReclaimEscrow Addr) (runtimeMsg : Bool) :
    Except ReclaimEscrowError (StakingState Addr) := do
  if reclaim.shares = 0 then throw (.staking .invalidArgument)
  if runtimeMsg && !s.parameters.allowEscrowMessages then throw (.staking .forbidden)
  if space.isReserved toAddr then throw (.staking .forbidden)
  let toAccount := s.accounts.get toAddr
  if toAddr ≠ reclaim.account && s.parameters.disableDelegation then throw (.staking .forbidden)
  let fromAccount := if toAddr = reclaim.account then toAccount else s.accounts.get reclaim.account
  let delegation := s.delegation toAddr reclaim.account
  let debondEndTime := epoch + s.parameters.debondingInterval
  let (active, baseUnits, delegationShares) ←
    (fromAccount.escrow.active.withdraw 0 delegation.shares reclaim.shares).mapError .staking
  let stakeAmount := baseUnits
  let (debonding, debShares, baseUnits, _) ←
    (fromAccount.escrow.debonding.deposit 0 baseUnits stakeAmount).mapError .staking
  if baseUnits ≠ 0 then throw (.staking .invalidArgument)
  let fromAccount := { fromAccount with escrow := { fromAccount.escrow with active, debonding } }
  let s ← (s.setDebondingDelegation toAddr reclaim.account debondEndTime
    (some ⟨debShares, debondEndTime⟩)).mapError .merge
  let s := s.setDelegation toAddr reclaim.account ⟨delegationShares⟩
  if toAddr = reclaim.account then pure (s.setAccount toAddr fromAccount)
  else pure ((s.setAccount toAddr toAccount).setAccount reclaim.account fromAccount)

/-- A successful reclaim queues a debonding delegation under the end epoch
`epoch + DebondingInterval`, in `uint64` arithmetic, and stores its descriptor with
that end epoch. -/
theorem reclaimEscrow_queues {space : AddressSpace Addr} {s s' : StakingState Addr}
    {epoch : EpochTime} {toAddr : Addr} {reclaim : ReclaimEscrow Addr} {runtimeMsg : Bool}
    (h : s.reclaimEscrow space epoch toAddr reclaim runtimeMsg = .ok s') :
    (epoch + s.parameters.debondingInterval, toAddr, reclaim.account) ∈ s'.debondingQueue ∧
      (s'.debondingDelegation toAddr reclaim.account
        (epoch + s.parameters.debondingInterval)).debondEndTime =
        epoch + s.parameters.debondingInterval := by
  unfold reclaimEscrow at h
  simp only [Except.throw_bind, Except.ite_error_eq_ok, Except.bind_eq_ok] at h
  obtain ⟨-, -, -, -, w, -, d, -, -, s₁, hset, hfinal⟩ := h
  obtain ⟨hqueue, hend, -⟩ := setDebondingDelegation_some_eq_ok (Except.mapError_eq_ok.mp hset)
  -- The delegation and account writes keep the queue and the descriptors.
  have hkeep : s'.debondingQueue = s₁.debondingQueue ∧
      s'.debondingDelegations = s₁.debondingDelegations := by
    split at hfinal <;> cases Except.pure_eq_ok.mp hfinal <;> simp
  unfold debondingDelegation
  rw [hkeep.1, hkeep.2, hqueue, hend]
  exact ⟨Finset.mem_insert_self _ _, rfl⟩

end Reclaim

variable {Addr : Type} [LinearOrder Addr]

/-- The keys of the debonding queue in the order the store walks them. -/
def debondingQueueKeys (s : StakingState Addr) : List (EpochTime × Addr × Addr) :=
  FinMap.sortedElems DebondingQueueKey.le s.debondingQueue

/-- `ExpiredDebondingQueue` (`state.go:481-509`): the walk of the queue up to its first
key past `epoch`, with the descriptor of each key. -/
def expiredDebondingQueue (s : StakingState Addr) (epoch : EpochTime) :
    List (DebondingQueueEntry Addr) :=
  (s.debondingQueueKeys.takeWhile (·.1 ≤ epoch)).map fun k =>
    ⟨k.1, k.2.1, k.2.2, s.debondingDelegation k.2.1 k.2.2 k.1⟩

/-- The release of one expired debonding delegation in `onEpochChange`
(`staking.go:255-316`): its shares are withdrawn from the escrow's debonding pool,
their value is moved to the delegator's general balance, and the queue key and the
descriptor are removed. When delegator and escrow are one account, both changes land
in it. -/
def releaseDebonding (s : StakingState Addr) (e : DebondingQueueEntry Addr) :
    Except ReleaseError (StakingState Addr) := do
  let deb := e.delegation
  let shareAmount := deb.shares
  let delegator := s.accounts.get e.delegatorAddr
  let escrow := if e.delegatorAddr = e.escrowAddr then delegator else s.accounts.get e.escrowAddr
  let (debonding, baseUnits, _) ←
    (escrow.escrow.debonding.withdraw 0 deb.shares shareAmount).mapError .redeem
  let escrow := { escrow with escrow := { escrow.escrow with debonding } }
  let stakeAmount := baseUnits
  let delegator := if e.delegatorAddr = e.escrowAddr then escrow else delegator
  let (balance, _) ← (Quantity.move delegator.general.balance baseUnits stakeAmount).mapError .move
  let delegator := { delegator with general := { delegator.general with balance } }
  let s := { s with debondingQueue := s.debondingQueue.erase (e.epoch, e.delegatorAddr, e.escrowAddr) }
  let s ← (s.setDebondingDelegation e.delegatorAddr e.escrowAddr e.delegation.debondEndTime
    none).mapError .setDebondingDelegation
  let s := s.setAccount e.delegatorAddr delegator
  if e.delegatorAddr = e.escrowAddr then pure s else pure (s.setAccount e.escrowAddr escrow)

/-- The delegation unbonding of `onEpochChange` (`staking.go:245-324`) at an epoch
change to `epoch`: every expired entry, walked as `ExpiredDebondingQueue` found them
before the first release. -/
def releaseExpired (s : StakingState Addr) (epoch : EpochTime) :
    Except ReleaseError (StakingState Addr) :=
  (s.expiredDebondingQueue epoch).foldlM releaseDebonding s

/-! ## The expired entries and their release -/

/-- The queue walk stops at its first key past `epoch`, and the keys come in the
order of their end epochs: it finds exactly the keys that end by `epoch`, in queue
order. -/
theorem expiredDebondingQueue_keys (s : StakingState Addr) (epoch : EpochTime) :
    (s.expiredDebondingQueue epoch).map (fun e => (e.epoch, e.delegatorAddr, e.escrowAddr)) =
      s.debondingQueueKeys.filter (·.1 ≤ epoch) := by
  unfold expiredDebondingQueue
  rw [List.map_map]
  have hkey : ((fun e : DebondingQueueEntry Addr => (e.epoch, e.delegatorAddr, e.escrowAddr)) ∘
      fun k : EpochTime × Addr × Addr =>
        (⟨k.1, k.2.1, k.2.2, s.debondingDelegation k.2.1 k.2.2 k.1⟩ : DebondingQueueEntry Addr)) =
      id := rfl
  rw [hkey, List.map_id]
  refine takeWhile_eq_filter_of_pairwise ?_ (FinMap.pairwise_sortedElems DebondingQueueKey.le _)
  intro a b hab hb
  simp only [decide_eq_true_eq] at hb ⊢
  exact UInt64.le_trans (DebondingQueueKey.le_epoch hab) hb

/-- A queue key is expired at `epoch` exactly when it ends by `epoch`. -/
theorem mem_expiredDebondingQueue_keys (s : StakingState Addr) (epoch : EpochTime)
    (k : EpochTime × Addr × Addr) :
    k ∈ (s.expiredDebondingQueue epoch).map (fun e => (e.epoch, e.delegatorAddr, e.escrowAddr)) ↔
      k ∈ s.debondingQueue ∧ k.1 ≤ epoch := by
  rw [expiredDebondingQueue_keys, List.mem_filter, decide_eq_true_eq]
  exact and_congr_left' (FinMap.mem_sortedElems _)

/-- After a reclaim at `epoch`, an epoch change to `epoch'` releases the debonding
delegation exactly when its end epoch `epoch + DebondingInterval`, in `uint64`
arithmetic, is at most `epoch'`. -/
theorem reclaimEscrow_expired_iff {space : AddressSpace Addr} {s s' : StakingState Addr}
    {epoch : EpochTime} {toAddr : Addr} {reclaim : ReclaimEscrow Addr} {runtimeMsg : Bool}
    (h : s.reclaimEscrow space epoch toAddr reclaim runtimeMsg = .ok s') (epoch' : EpochTime) :
    (epoch + s.parameters.debondingInterval, toAddr, reclaim.account) ∈
        (s'.expiredDebondingQueue epoch').map (fun e => (e.epoch, e.delegatorAddr, e.escrowAddr)) ↔
      epoch + s.parameters.debondingInterval ≤ epoch' := by
  rw [mem_expiredDebondingQueue_keys]
  exact ⟨And.right, fun hle => ⟨(reclaimEscrow_queues h).1, hle⟩⟩

end StakingState

/-- Without wrap-around the end epoch is the sum, so a debonding delegation is
released at the first epoch change to an epoch at least `epoch + DebondingInterval`
(`reclaimEscrow_expired_iff`). -/
theorem debondEndTime_le_iff {epoch interval epoch' : EpochTime}
    (hfit : epoch.toNat + interval.toNat < 2 ^ 64) :
    epoch + interval ≤ epoch' ↔ epoch.toNat + interval.toNat ≤ epoch'.toNat := by
  rw [UInt64.le_iff_toNat_le, UInt64.toNat_add, Nat.mod_eq_of_lt hfit]

/-! ## A debonding delegation released early -/

/-- Parameters that `SanityCheck` accepts, with a debonding interval of `2^64 - 5`
epochs. -/
def longDebondingParameters : ConsensusParameters ℕ :=
  { zeroShareParameters with debondingInterval := 0xfffffffffffffffb }

/-- Account `2` delegates 100 shares to account `1`, whose active pool holds the whole
supply of 100 in them. -/
def debondingStart : StakingState ℕ where
  parameters := longDebondingParameters
  accounts := FinMap.empty.set 1 { escrow := { active := ⟨100, 100⟩ } }
  delegations := FinMap.empty.set (1, 2) 100
  debondingDelegations := .empty
  debondingQueue := ∅
  totalSupply := 100
  commonPool := 0
  lastBlockFees := 0
  governanceDeposits := 0

/-- After account `2` reclaims its 100 shares at epoch 10: the debonding delegation
ends at epoch `10 + (2^64 - 5)`, which is 5 in `uint64`. -/
def debondingReclaimed : StakingState ℕ :=
  let s := { debondingStart with
    debondingDelegations := debondingStart.debondingDelegations.set (2, 1, 5) ⟨100, 5⟩
    debondingQueue := insert (5, 2, 1) ∅ }
  ((s.setDelegation 2 1 ⟨0⟩).setAccount 2 (debondingStart.accounts.get 2)).setAccount 1
    { escrow := { active := ⟨0, 0⟩, debonding := ⟨100, 100⟩ } }

/-- After the epoch change to 11: the 100 tokens are paid out to account `2`. -/
def debondingReleased : StakingState ℕ :=
  let s := { debondingReclaimed with
    debondingQueue := debondingReclaimed.debondingQueue.erase (5, 2, 1)
    debondingDelegations := debondingReclaimed.debondingDelegations.erase (2, 1, 5) }
  (s.setAccount 2 { general := { balance := 100 } }).setAccount 1
    { escrow := { active := ⟨0, 0⟩, debonding := ⟨0, 0⟩ } }

/-- With a debonding interval of `2^64 - 5`, which `SanityCheck` accepts, escrow
reclaimed at epoch 10 is queued to end at epoch 5 and paid out at the very next
epoch change, to 11, long before epoch `10 + (2^64 - 5)`; nothing is left queued. -/
theorem debonding_released_early :
    longDebondingParameters.sanityCheck false = .ok () ∧
      debondingStart.reclaimEscrow natAddressSpace 10 2 ⟨1, 100⟩ false = .ok debondingReclaimed ∧
      (5, 2, 1) ∈ debondingReclaimed.debondingQueue ∧
      debondingReclaimed.releaseExpired 11 = .ok debondingReleased ∧
      (debondingReleased.accounts.get 2).general.balance = 100 ∧
      debondingReleased.debondingQueue = ∅ ∧
      11 < 10 + longDebondingParameters.debondingInterval.toNat := by
  refine ⟨rfl, rfl, by decide, rfl, rfl, by decide, by decide⟩

end Staking

end OasisCore
