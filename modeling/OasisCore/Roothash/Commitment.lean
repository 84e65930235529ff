import OasisCore.Misc.FinMap
import OasisCore.Misc.Except
import OasisCore.Roothash.Block

/-!
# Executor commitments

`go/roothash/api/commitment/executor.go` and `votes.go`, and
`VerifyExecutorCommitment` of `pool.go`: what an executor worker commits to, the
vote it counts as, and the checks a commitment passes before it enters a pool.

A commitment's vote is the encoded hash of its compute results header; the hash
function is a parameter, as are the checks of `VerifyExecutorCommitment` that rest
on signatures, the node registry and runtime messages (`Verifier`). Node keys are
values of a type `N`, runtime messages of a type `M`.
-/

namespace OasisCore

namespace Roothash

/-- The errors of the commitment package (`pool.go:23-45`), by their Go names. -/
inductive CommitmentError where
  | noRuntime
  | noCommittee
  | invalidCommitteeKind
  | rakSigInvalid
  | notInCommittee
  | alreadyCommitted
  | notBasedOnCorrectBlock
  | discrepancyDetected
  | stillWaiting
  | insufficientVotes
  | badExecutorCommitment
  | invalidMessages
  | timeoutNotCorrectRound
  | invalidRound
  | noSchedulerCommitment
  | badSchedulerCommitment
  /-- The signature check's error, which `VerifyExecutorCommitment` returns as a
  permanent error. -/
  | signatureInvalid
  /-- An error of the message validator, returned unchanged. -/
  | messageValidation
  /-- Not an error value: a nil `Commitment` dereferenced in discrepancy resolution
  is a run-time panic. -/
  | nilCommitment
  deriving DecidableEq, Repr

/-- `ComputeResultsHeader` (`executor.go:29-56`). -/
structure ComputeResultsHeader (H : Type) where
  round : UInt64
  previousHash : H
  ioRoot : Option H
  stateRoot : Option H
  messagesHash : Option H
  inMessagesHash : Option H
  inMessagesCount : UInt32
  deriving DecidableEq, Repr

/-- `FailureNone` (`executor.go:72-80`); the failure reason is a `uint8` on the wire. -/
def failureNone : UInt8 := 0

/-- `FailureUnknown`. -/
def failureUnknown : UInt8 := 1

/-- `FailureStateUnavailable`. -/
def failureStateUnavailable : UInt8 := 2

/-- `ExecutorCommitmentHeader` (`executor.go:82-95`). -/
structure ExecutorCommitmentHeader (N H : Type) where
  schedulerID : N
  header : ComputeResultsHeader H
  failure : UInt8
  rakSignature : Option (List UInt8)
  deriving DecidableEq, Repr

/-- `ExecutorCommitment` (`executor.go:146-160`); its signature is checked by the
`Verifier`. -/
structure ExecutorCommitment (N H M : Type) where
  nodeID : N
  header : ExecutorCommitmentHeader N H
  messages : List M

/-- The texts of `ValidateBasic` (`executor.go:184-236`). -/
inductive ValidateError where
  | missingIORoot
  | missingStateRoot
  | missingMessagesHash
  | missingInMessagesHash
  | badRuntimeMessage (index : ℕ)
  | failureIncludesIORoot
  | failureIncludesStateRoot
  | failureIncludesMessagesHash
  | failureIncludesInMessages
  | failureIncludesRakSignature
  | failureIncludesMessages
  | invalidFailure (failure : UInt8)
  deriving DecidableEq, Repr

variable {N H M : Type}

/-- `ComputeResultsHeader.IsParentOf` (`executor.go:59-67`). -/
def ComputeResultsHeader.isParentOf [DecidableEq H] (hashing : BlockHashing H)
    (h : ComputeResultsHeader H) (child : Header H) : Bool :=
  h.round = child.round + 1 && h.previousHash = hashing.encodedHash child

namespace ExecutorCommitment

/-- `IsIndicatingFailure` (`executor.go:247-250`). -/
def isIndicatingFailure (c : ExecutorCommitment N H M) : Bool :=
  c.header.failure ≠ failureNone

/-- `ToVote` (`executor.go:262-265`): the encoded hash of the compute results header. -/
def toVote (resultsHash : ComputeResultsHeader H → H) (c : ExecutorCommitment N H M) : H :=
  resultsHash c.header.header

/-- The message loop of `ValidateBasic`, from message `i` on. -/
def validateMessages (validMessage : M → Bool) : ℕ → List M → Except ValidateError Unit
  | _, [] => .ok ()
  | i, msg :: msgs => if !validMessage msg then .error (.badRuntimeMessage i)
    else validateMessages validMessage (i + 1) msgs

/-- `ValidateBasic` (`executor.go:184-236`): a commitment carries its roots unless it
indicates a failure, in which case it carries none of them, no RAK signature and
no messages. -/
def validateBasic (validMessage : M → Bool) (c : ExecutorCommitment N H M) :
    Except ValidateError Unit :=
  let header := c.header.header
  if c.header.failure = failureNone then
    if header.ioRoot.isNone then .error .missingIORoot
    else if header.stateRoot.isNone then .error .missingStateRoot
    else if header.messagesHash.isNone then .error .missingMessagesHash
    else if header.inMessagesHash.isNone then .error .missingInMessagesHash
    else validateMessages validMessage 0 c.messages
  else if c.header.failure = failureUnknown ∨ c.header.failure = failureStateUnavailable then
    if header.ioRoot.isSome then .error .failureIncludesIORoot
    else if header.stateRoot.isSome then .error .failureIncludesStateRoot
    else if header.messagesHash.isSome then .error .failureIncludesMessagesHash
    else if header.inMessagesHash.isSome ∨ header.inMessagesCount ≠ 0 then
      .error .failureIncludesInMessages
    else if c.header.rakSignature.isSome then .error .failureIncludesRakSignature
    else if c.messages ≠ [] then .error .failureIncludesMessages
    else .ok ()
  else .error (.invalidFailure c.header.failure)

end ExecutorCommitment

/-- What `VerifyExecutorCommitment` reads besides the commitment and the block: the
signature check (`ExecutorCommitment.Verify`), `ValidateBasic` of a runtime message,
the node registry's RAK attestation check (nothing to check without a TEE), the
runtime's message limit, `MessagesHash` and the optional message validator. -/
structure Verifier (N H M : Type) where
  verifySignature : ExecutorCommitment N H M → Bool
  validMessage : M → Bool
  verifyRak : ExecutorCommitment N H M → Except CommitmentError Unit
  maxMessages : UInt32
  messagesHash : List M → H
  msgValidator : List M → Except CommitmentError Unit

/-- `VerifyExecutorCommitment` (`pool.go:86-222`) against the latest block `blk`. -/
def verifyExecutorCommitment [DecidableEq N] [DecidableEq H] (hashing : BlockHashing H)
    (v : Verifier N H M) (blk : Block H) (commit : ExecutorCommitment N H M) :
    Except CommitmentError Unit :=
  if !v.verifySignature commit then .error .signatureInvalid
  else if (commit.validateBasic v.validMessage).isOk = false then .error .badExecutorCommitment
  else if !commit.header.header.isParentOf hashing blk.header then .error .notBasedOnCorrectBlock
  else if commit.isIndicatingFailure then
    -- Schedulers may not submit failures.
    if commit.nodeID = commit.header.schedulerID then .error .badExecutorCommitment else .ok ()
  else v.verifyRak commit >>= fun _ => checkMessages
where
  /-- The runtime messages of a commitment that does not indicate a failure
  (`pool.go:186-219`): only the scheduler may emit them. -/
  checkMessages : Except CommitmentError Unit :=
    if commit.nodeID = commit.header.schedulerID then
      if UInt32.ofNat commit.messages.length > v.maxMessages then .error .invalidMessages
      else if some (v.messagesHash commit.messages) ≠ commit.header.header.messagesHash then
        .error .invalidMessages
      else if commit.messages ≠ [] then v.msgValidator commit.messages
      else .ok ()
    else if commit.messages ≠ [] then .error .invalidMessages
    else .ok ()

/-- What a verified commitment brings to the pool: it is for the round after the
latest block, and it indicates a failure only when it is not the scheduler's own. -/
theorem verifyExecutorCommitment_ok [DecidableEq N] [DecidableEq H] {hashing : BlockHashing H}
    {v : Verifier N H M} {blk : Block H} {commit : ExecutorCommitment N H M}
    (h : verifyExecutorCommitment hashing v blk commit = .ok ()) :
    commit.header.header.round = blk.header.round + 1 ∧
      (commit.nodeID = commit.header.schedulerID → commit.isIndicatingFailure = false) := by
  unfold verifyExecutorCommitment at h
  simp only [Except.ite_error_eq_ok, Bool.not_eq_true'] at h
  obtain ⟨-, -, hparent, hrest⟩ := h
  have hround : commit.header.header.round = blk.header.round + 1 := by
    simp only [ComputeResultsHeader.isParentOf, Bool.not_eq_false, Bool.and_eq_true,
      decide_eq_true_eq] at hparent
    exact hparent.1
  refine ⟨hround, fun hsched => ?_⟩
  -- A failure passes only when the node is not the scheduler.
  cases hfail : commit.isIndicatingFailure with
  | false => rfl
  | true => simp [hfail, hsched] at hrest

/-- A verified commitment was computed on the latest block. -/
theorem isParentOf_of_verifyExecutorCommitment [DecidableEq N] [DecidableEq H]
    {hashing : BlockHashing H} {v : Verifier N H M} {blk : Block H} {commit : ExecutorCommitment N H M}
    (h : verifyExecutorCommitment hashing v blk commit = .ok ()) :
    commit.header.header.isParentOf hashing blk.header = true := by
  unfold verifyExecutorCommitment at h
  simp only [Except.ite_error_eq_ok, Bool.not_eq_true'] at h
  obtain ⟨-, -, hparent, -⟩ := h
  simpa using hparent

/-- `SchedulerCommitment` (`votes.go:8-17`): the scheduler's commitment, once it has
sent it, and the votes by node; a vote of `none` is a failure. -/
structure SchedulerCommitment (N H M : Type) where
  commitment : Option (ExecutorCommitment N H M) := none
  votes : FinMap N (Option H) := .empty

instance : Inhabited (SchedulerCommitment N H M) := ⟨{}⟩

/-- `SchedulerCommitment.Add` (`votes.go:19-47`): records the node's vote, and the
commitment itself when the node is the scheduler. -/
def SchedulerCommitment.add [DecidableEq N] (resultsHash : ComputeResultsHeader H → H)
    (sc : SchedulerCommitment N H M) (ec : ExecutorCommitment N H M) :
    Except CommitmentError (SchedulerCommitment N H M) :=
  if ec.nodeID ∈ sc.votes.keys then .error .alreadyCommitted
  else
    let vote := if ec.isIndicatingFailure then none else some (ec.toVote resultsHash)
    let sc := { sc with votes := sc.votes.set ec.nodeID vote }
    .ok (if ec.nodeID = ec.header.schedulerID then { sc with commitment := some ec } else sc)

namespace SchedulerCommitment

variable [DecidableEq N] {resultsHash : ComputeResultsHeader H → H}
  {sc sc' : SchedulerCommitment N H M} {ec : ExecutorCommitment N H M}

/-- `Add` succeeds for a node that has not voted, records its vote, and keeps the
commitment when the node is the scheduler. -/
theorem add_eq_ok : sc.add resultsHash ec = .ok sc' ↔
    ec.nodeID ∉ sc.votes.keys ∧
      sc' = { commitment := if ec.nodeID = ec.header.schedulerID then some ec else sc.commitment,
              votes := sc.votes.set ec.nodeID
                (if ec.isIndicatingFailure then none else some (ec.toVote resultsHash)) } := by
  unfold add
  by_cases hvoted : ec.nodeID ∈ sc.votes.keys
  · simp [hvoted]
  · simp only [hvoted, if_false, Except.ok.injEq, not_false_eq_true, true_and]
    by_cases hsched : ec.nodeID = ec.header.schedulerID
    · rw [if_pos hsched, if_pos hsched]
      exact eq_comm
    · rw [if_neg hsched, if_neg hsched]
      exact eq_comm

/-- `Add` fails only for a node that has voted already. -/
theorem mem_votes_of_add_eq_error {e : CommitmentError} (h : sc.add resultsHash ec = .error e) :
    ec.nodeID ∈ sc.votes.keys := by
  unfold add at h
  by_contra hvoted
  simp [hvoted] at h

end SchedulerCommitment

end Roothash

end OasisCore
