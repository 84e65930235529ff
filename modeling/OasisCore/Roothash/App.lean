import Mathlib.Data.List.Chain
import OasisCore.Roothash.Pool

/-!
# The roothash application

The state the roothash application of `go/consensus/cometbft/apps/roothash` keeps
for one compute runtime, and the events that change it: executor commit
transactions (`transactions.go`), the finalization of rounds at the end of a block
and on a round timeout (`finalization.go`, `timeout.go`), and the committee
change at an epoch transition, which may suspend the runtime (`roothash.go`).

Every handler runs in its own transaction of the consensus state: a handler that
fails leaves the stored runtime state as it was, and `apply` is the state after an
event either way. A nil dereference of the Go code, a run-time panic, is the error
`nilPointer`.

The liveness statistics, round timeouts, heights, round results, slashing and
runtime messages of the Go state are read or written only by code that decides
none of the transitions modelled here, and are left out, except where they steer
a transition: the check of the processed incoming messages is an input of the
event (`MessagesCheck`), and the re-armed timeout of discrepancy resolution is
computed from the runtime's round timeout and the current height.
-/

namespace OasisCore

namespace Roothash

open Scheduler

/-- What the application reads of the per-epoch runtime descriptor
(`registry.Runtime`): the executor parameters and the runtime's checks of a
commitment. -/
structure Runtime (N H M : Type) where
  allowedStragglers : UInt16
  roundTimeout : Int64
  verifier : Verifier N H M

/-- `RuntimeState` (`go/roothash/api/api.go:387-416`). -/
structure RuntimeState (N H M : Type) where
  runtime : Runtime N H M
  suspended : Bool
  lastBlock : Block H
  committee : Option (Committee N)
  commitmentPool : Option (Pool N H M)

/-- The errors of the application's handlers. -/
inductive RoothashError where
  | runtimeSuspended
  | noCommittee
  | noExecutorPool
  | commitment (e : CommitmentError)
  /-- "failed to query primary scheduler, no workers in committee". -/
  | noWorkers
  /-- Fetching or removing the incoming messages a round processed failed. -/
  | messages
  /-- Not an error value: a nil dereference is a run-time panic. -/
  | nilPointer
  deriving DecidableEq, Repr

/-- How the incoming messages that a finalized commitment processed check out
against the queue (`fetchRuntimeMessages` and `verifyRuntimeMessages`,
`finalization.go:156-169`). -/
inductive MessagesCheck where
  | ok
  /-- They do not hash to the commitment's `InMessagesHash`: the round fails. -/
  | mismatch
  /-- Reading or removing them failed. -/
  | failed
  deriving DecidableEq, Repr

/-- `backupWorkerTimeoutFactorNumerator` (`timeout.go:13-17`). -/
def backupWorkerTimeoutFactorNumerator : Int64 := 15

/-- `backupWorkerTimeoutFactorDenominator`. -/
def backupWorkerTimeoutFactorDenominator : Int64 := 10

variable {N H M : Type} [DecidableEq N] [DecidableEq H] (hashing : BlockHashing H)
  (resultsHash : ComputeResultsHeader H → H) (order : Finset H → List H)

namespace RuntimeState

/-- `getRuntimeState` (`transactions.go:19-42`): a runtime that takes commitments has
a committee and a pool, and is not suspended. -/
def getRuntimeState (s : RuntimeState N H M) : Except RoothashError (Committee N × Pool N H M) :=
  if s.suspended then .error .runtimeSuspended
  else
    match s.committee, s.commitmentPool with
    | none, _ => .error .noCommittee
    | some _, none => .error .noExecutorPool
    | some c, some p => .ok (c, p)

/-- The roots of a normal block, taken from the finalized results header
(`finalization.go:302-308`); each is dereferenced. -/
def withRoots (blk : Block H) : Option (ComputeResultsHeader H) → Except RoothashError (Block H)
  | none => .error .nilPointer
  | some hdr =>
    match hdr.ioRoot, hdr.stateRoot, hdr.messagesHash, hdr.inMessagesHash with
    | some ioRoot, some stateRoot, some messagesHash, some inMessagesHash =>
      .ok ⟨{ blk.header with
        ioRoot := ioRoot, stateRoot := stateRoot, messagesHash := messagesHash,
        inMessagesHash := inMessagesHash }⟩
    | _, _, _, _ => .error .nilPointer

/-- `finalizeBlock` (`finalization.go:298-349`): the empty block after the latest,
with the results' roots in a normal block, becomes the latest block, and the
pool is reset, or dropped when the runtime is suspended. -/
def finalizeBlock (s : RuntimeState N H M) (now : UInt64) (hdrType : HeaderType)
    (hdr : Option (ComputeResultsHeader H)) : Except RoothashError (RuntimeState N H M) :=
  let blk := newEmptyBlock hashing s.lastBlock now hdrType
  match (if hdrType = .normal then withRoots blk hdr else .ok blk) with
  | .error e => .error e
  | .ok blk =>
    .ok { s with
      lastBlock := blk
      -- Reset scheduler commitments.
      commitmentPool := if hdrType = .suspended then none else some .new }

/-- `failRound` (`finalization.go:351-383`): the round ends in an empty block. -/
def failRound (s : RuntimeState N H M) (c : Committee N) (now : UInt64) :
    Except RoothashError (RuntimeState N H M) :=
  match c.schedulerIdx (s.lastBlock.header.round + 1) 0 with
  | none => .error .noWorkers
  | some _ => s.finalizeBlock hashing now .roundFailed none

/-- The calls of `ProcessCommitments` in `tryFinalizeRoundInsideTx`
(`finalization.go:80-116`): on a detected discrepancy the round timeout is re-armed
for the backup workers, at `height + roundTimeout * 15 / 10`, and the pool is
processed again, as timed out when that is the current height. -/
def processRound (p : Pool N H M) (c : Committee N) (rt : Runtime N H M) (timeout : Bool)
    (height : Int64) : Pool N H M × Except CommitmentError (SchedulerCommitment N H M) :=
  match p.processCommitmentsAndSwitch resultsHash order c rt.allowedStragglers timeout with
  | (p, .error .discrepancyDetected) =>
    let nextTimeout := height + rt.roundTimeout * backupWorkerTimeoutFactorNumerator /
      backupWorkerTimeoutFactorDenominator
    p.processCommitmentsAndSwitch resultsHash order c rt.allowedStragglers (nextTimeout == height)
  | r => r

/-- The end of `tryFinalizeRoundInsideTx` for a round that has a result
(`finalization.go:138-296`): the processed incoming messages are checked, then the
block is finalized with the scheduler's results. -/
def finalizeNormal (s : RuntimeState N H M) (c : Committee N) (sc : SchedulerCommitment N H M)
    (now : UInt64) (messages : MessagesCheck) : Except RoothashError (RuntimeState N H M) :=
  match sc.commitment with
  | none => .error .nilPointer
  | some commitment =>
    match messages with
    | .failed => .error .messages
    | .mismatch => s.failRound hashing c now
    | .ok =>
      match c.schedulerIdx (s.lastBlock.header.round + 1) 0 with
      | none => .error .noWorkers
      | some _ => s.finalizeBlock hashing now .normal (some commitment.header.header)

/-- `tryFinalizeRoundInsideTx` (`finalization.go:69-296`). -/
def tryFinalizeRoundInsideTx (s : RuntimeState N H M) (c : Committee N) (p : Pool N H M)
    (timeout : Bool) (height : Int64) (now : UInt64) (messages : MessagesCheck) :
    Except RoothashError (RuntimeState N H M) :=
  let (p, r) := processRound resultsHash order p c s.runtime timeout height
  let s := { s with commitmentPool := some p }
  match r with
  | .ok sc => s.finalizeNormal hashing c sc now messages
  -- Need more commits.
  | .error .stillWaiting => .ok s
  -- Emit empty block and fail the round.
  | .error .noSchedulerCommitment | .error .badSchedulerCommitment | .error .insufficientVotes =>
    s.failRound hashing c now
  | .error e => .error (.commitment e)

/-- `tryFinalizeRound` (`finalization.go:39-67`), at the end of a block or on a round
timeout. -/
def tryFinalizeRound (s : RuntimeState N H M) (timeout : Bool) (height : Int64) (now : UInt64)
    (messages : MessagesCheck) : Except RoothashError (RuntimeState N H M) :=
  match s.getRuntimeState with
  | .error e => .error e
  | .ok (c, p) => s.tryFinalizeRoundInsideTx hashing resultsHash order c p timeout height now messages

/-- One commitment of `executorCommit` (`transactions.go:97-116`): verified against
the latest block, then added to the pool. -/
def addCommit (s : RuntimeState N H M) (c : Committee N) (p : Pool N H M)
    (commit : ExecutorCommitment N H M) : Except RoothashError (Pool N H M) :=
  match verifyExecutorCommitment hashing s.runtime.verifier s.lastBlock commit with
  | .error e => .error (.commitment e)
  | .ok () =>
    match p.addVerifiedExecutorCommitment resultsHash c commit with
    | (_, .error e) => .error (.commitment e)
    | (p, .ok ()) => .ok p

/-- `executorCommit` (`transactions.go:44-174`) when the transaction is delivered:
the pool with every commitment of the transaction added, stored only when all of
them were. -/
def executorCommit (s : RuntimeState N H M) (commits : List (ExecutorCommitment N H M)) :
    Except RoothashError (RuntimeState N H M) :=
  -- Return early if there are no commitments.
  if commits.isEmpty then .ok s
  else
    match s.getRuntimeState with
    | .error e => .error e
    | .ok (c, p) =>
      match commits.foldlM (s.addCommit hashing resultsHash c) p with
      | .error e => .error e
      | .ok p => .ok { s with commitmentPool := some p }

/-- `onRuntimeCommitteeChanged` (`roothash.go:129-243`) for a compute runtime: with no
committee, or when the owner's stake no longer covers its deposits (`stakeOk`
false; the debug flags make it true), the runtime is suspended by an empty block;
otherwise an empty block marks the epoch transition. -/
def onRuntimeCommitteeChanged (s : RuntimeState N H M) (rt : Runtime N H M)
    (committee : Option (Committee N)) (stakeOk : Bool) (now : UInt64) :
    Except RoothashError (RuntimeState N H M) :=
  if committee.isNone || !stakeOk then
    match s.finalizeBlock hashing now .suspended none with
    | .error e => .error e
    | .ok s => .ok { s with suspended := true, committee := none, runtime := rt }
  else
    match s.finalizeBlock hashing now .epochTransition none with
    | .error e => .error e
    | .ok s => .ok { s with suspended := false, committee := committee, runtime := rt }

end RuntimeState

/-- `onNewRuntime` (`roothash.go:336-414`) outside `InitChain`: the runtime starts
suspended at its genesis block, of the runtime's genesis round and state root. -/
def onNewRuntime (rt : Runtime N H M) (id : List UInt8) (now genesisRound : UInt64)
    (genesisStateRoot : H) : RuntimeState N H M :=
  let genesisBlock := newGenesisBlock hashing id now
  { runtime := rt, suspended := true,
    lastBlock := ⟨{ genesisBlock.header with round := genesisRound, stateRoot := genesisStateRoot }⟩,
    committee := none, commitmentPool := none }

/-- The events of one runtime; heights and times are those of the consensus block
they happen in. -/
inductive Event (N H M : Type) where
  /-- A delivered `ExecutorCommit` transaction. -/
  | executorCommit (commits : List (ExecutorCommitment N H M))
  /-- `tryFinalizeRound` at the end of a block (`timeout` false) or when the round
  times out. -/
  | finalizeRound (timeout : Bool) (height : Int64) (now : UInt64) (messages : MessagesCheck)
  /-- The committee change of an epoch transition, with the new runtime descriptor. -/
  | committeeChanged (rt : Runtime N H M) (committee : Option (Committee N)) (stakeOk : Bool)
      (now : UInt64)

namespace RuntimeState

/-- The handler of an event. -/
def step (s : RuntimeState N H M) : Event N H M → Except RoothashError (RuntimeState N H M)
  | .executorCommit commits => s.executorCommit hashing resultsHash commits
  | .finalizeRound timeout height now messages =>
    s.tryFinalizeRound hashing resultsHash order timeout height now messages
  | .committeeChanged rt committee stakeOk now =>
    s.onRuntimeCommitteeChanged hashing rt committee stakeOk now

/-- The stored state after an event: a failed handler's transaction is discarded. -/
def apply (s : RuntimeState N H M) (e : Event N H M) : RuntimeState N H M :=
  match s.step hashing resultsHash order e with
  | .ok s' => s'
  | .error _ => s

/-- The stored state after a sequence of events. -/
def run (s : RuntimeState N H M) (es : List (Event N H M)) : RuntimeState N H M :=
  es.foldl (apply hashing resultsHash order) s

/-- The blocks a sequence of events produces, in order: an event produces a block
when the latest block changes. -/
def produced (s : RuntimeState N H M) : List (Event N H M) → List (Block H)
  | [] => []
  | e :: es =>
    let s' := s.apply hashing resultsHash order e
    (if s'.lastBlock = s.lastBlock then [] else [s'.lastBlock]) ++ s'.produced es

end RuntimeState

/-! ## The chain of blocks

What the application promises of the blocks it finalizes: each follows the latest
block, the pool of the new round starts empty, and a normal block carries the roots
of a scheduler's commitment that `ProcessCommitments` accepted and that was
computed on the latest block. The last needs the invariant `Fresh`: the stored pool
holds only commitments verified against the latest block. -/

/-- `child` follows `parent`: it is of the next round, and links to the parent's
header by its hash. -/
def ChildOf (parent child : Block H) : Prop :=
  child.header.round = parent.header.round + 1 ∧
    child.header.previousHash = hashing.encodedHash parent.header

instance (parent child : Block H) : Decidable (ChildOf hashing parent child) :=
  inferInstanceAs (Decidable (_ ∧ _))

/-- The block carries the four roots of the results header `r`. -/
def CarriesRoots (blk : Block H) (r : ComputeResultsHeader H) : Prop :=
  r.ioRoot = some blk.header.ioRoot ∧ r.stateRoot = some blk.header.stateRoot ∧
    r.messagesHash = some blk.header.messagesHash ∧
    r.inMessagesHash = some blk.header.inMessagesHash

/-- `ProcessCommitments` accepts `sc` in a round on the pool `p`: on `p` itself, or on
`p` switched to discrepancy resolution by the call before. -/
def Accepted (c : Committee N) (allowedStragglers : UInt16) (p : Pool N H M)
    (sc : SchedulerCommitment N H M) : Prop :=
  ∃ timeout, p.processCommitments resultsHash order c allowedStragglers timeout = .ok sc ∨
    ∃ timeout₀, Pool.processCommitments resultsHash order
      (p.processCommitmentsAndSwitch resultsHash order c allowedStragglers timeout₀).1 c
      allowedStragglers timeout = .ok sc

namespace RuntimeState

/-- What a step from `s` to `s'` did when it finalized a block. -/
structure Finalized (s s' : RuntimeState N H M) : Prop where
  childOf : ChildOf hashing s.lastBlock s'.lastBlock
  poolReset : s'.commitmentPool =
    if s'.lastBlock.header.headerType = .suspended then none else some .new
  normal : s'.lastBlock.header.headerType = .normal → ∃ c p sc ec,
    s.committee = some c ∧ s.commitmentPool = some p ∧
    Accepted resultsHash order c s.runtime.allowedStragglers p sc ∧ sc.commitment = some ec ∧
    ec.header.header.isParentOf hashing s.lastBlock.header = true ∧
    CarriesRoots s'.lastBlock ec.header.header

/-- The invariant: the stored pool is reached from an empty pool by commitments
verified against the latest block and by processing, for the stored committee and
runtime. -/
def Fresh (s : RuntimeState N H M) : Prop :=
  ∀ c p, s.committee = some c → s.commitmentPool = some p →
    p.Reachable resultsHash c hashing s.runtime.verifier s.lastBlock order s.runtime.allowedStragglers

/-- Every commitment of `commits`, from the pool `p` on, is verified against the latest
block and added to the pool with success; `q` is the pool after all of them. -/
def AddsAll (s : RuntimeState N H M) (c : Committee N) :
    Pool N H M → List (ExecutorCommitment N H M) → Pool N H M → Prop
  | p, [], q => q = p
  | p, ec :: ecs, q =>
    verifyExecutorCommitment hashing s.runtime.verifier s.lastBlock ec = .ok () ∧
      (p.addVerifiedExecutorCommitment resultsHash c ec).2 = .ok () ∧
      AddsAll s c (p.addVerifiedExecutorCommitment resultsHash c ec).1 ecs q

end RuntimeState

end Roothash

end OasisCore
