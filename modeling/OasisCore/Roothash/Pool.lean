import OasisCore.Misc.List
import OasisCore.Roothash.Commitment
import OasisCore.Scheduler.Committee

/-!
# The executor commitment pool

`Pool` of `go/roothash/api/commitment/pool.go:58-452`: the commitments of one
round, grouped by the rank of the scheduler whose proposal they commit to, and
the discrepancy detection and resolution that decide when the round's result is
final.

The pool is mutated in place by Go: `AddVerifiedExecutorCommitment` updates the
highest rank and drops commitments before it adds the vote, so a call that ends
in an error may still have changed the pool. The model returns the pool after
every call together with its result.

`ProcessCommitments` walks the members of the committee in order and the map of
distinct votes in Go's map order, which the model takes as a parameter `order`:
any enumeration of a set of hashes.
-/

namespace OasisCore

namespace Roothash

open Scheduler

/-- `Pool` (`pool.go:58-75`). -/
structure Pool (N H M : Type) where
  highestRank : UInt64
  schedulerCommitments : FinMap UInt64 (SchedulerCommitment N H M)
  discrepancy : Bool

/-- `math.MaxUint64`, the rank of no scheduler. -/
def maxRank : UInt64 := 0xffffffffffffffff

variable {N H M : Type}

/-- `NewPool` (`pool.go:77-82`). -/
def Pool.new : Pool N H M :=
  ⟨maxRank, .empty, false⟩

/-- The counters of the vote gathering loop of `processCommitments`
(`pool.go:343-347`); `votes` counts the nodes by the hash they voted for. -/
structure VoteTally (H : Type) where
  total : ℕ := 0
  commits : ℕ := 0
  failures : ℕ := 0
  votes : FinMap H ℕ := .empty

/-- The role whose votes count: workers in discrepancy detection, backup workers in
resolution. -/
def countedRole (discrepancy : Bool) : Role :=
  if discrepancy then .backupWorker else .worker

/-- Counting one member's vote (`pool.go:357-367`); a vote of `none` is a failure. -/
def VoteTally.record [DecidableEq H] (t : VoteTally H) (vote : Option H) : VoteTally H :=
  match vote with
  | none => { t with failures := t.failures + 1, commits := t.commits + 1 }
  | some v => { t with votes := t.votes.set v (t.votes.get v + 1), commits := t.commits + 1 }

/-- One member of the gathering loop without its early exit (`pool.go:350-367`): a
member of the counted role is counted, and its vote if it sent one. -/
def VoteTally.count [DecidableEq N] [DecidableEq H] (counted : Role) (votes : FinMap N (Option H))
    (t : VoteTally H) (n : CommitteeNode N) : VoteTally H :=
  if n.role ≠ counted then t
  else
    match votes.lookup n.publicKey with
    | none => { t with total := t.total + 1 }
    | some vote => { t with total := t.total + 1 }.record vote

namespace Pool

variable [DecidableEq N] [DecidableEq H] (resultsHash : ComputeResultsHeader H → H)

/-- The prioritisation of `AddVerifiedExecutorCommitment` (`pool.go:281-294`): a
scheduler committing to its own proposal with a better rank takes the lead, and the
commitments ranked after it are dropped. -/
def updateHighestRank (p : Pool N H M) (rank : UInt64) (ec : ExecutorCommitment N H M) :
    Pool N H M :=
  if rank < p.highestRank ∧ ec.nodeID = ec.header.schedulerID then
    { p with highestRank := rank, schedulerCommitments := p.schedulerCommitments.filter (· ≤ rank) }
  else p

/-- The end of `AddVerifiedExecutorCommitment` (`pool.go:296-306`): Go stores an
empty entry for `rank` first and `Add` fills it in place, so a failed `Add` still
leaves the entry. -/
def addVote (p : Pool N H M) (rank : UInt64) (ec : ExecutorCommitment N H M) :
    Pool N H M × Except CommitmentError Unit :=
  let sc := p.schedulerCommitments.get rank
  match sc.add resultsHash ec with
  | .error e => ({ p with schedulerCommitments := p.schedulerCommitments.set rank sc }, .error e)
  | .ok sc => ({ p with schedulerCommitments := p.schedulerCommitments.set rank sc }, .ok ())

/-- `AddVerifiedExecutorCommitment` (`pool.go:224-307`): the pool after the call and
the call's result. -/
def addVerifiedExecutorCommitment (p : Pool N H M) (c : Committee N)
    (ec : ExecutorCommitment N H M) : Pool N H M × Except CommitmentError Unit :=
  if !p.discrepancy && !c.isMember ec.nodeID then (p, .error .notInCommittee)
  else if p.discrepancy && !c.isBackupWorker ec.nodeID then (p, .error .badExecutorCommitment)
  else
    match c.schedulerRank ec.header.header.round ec.header.schedulerID with
    | none => (p, .error .badExecutorCommitment)
    | some rank =>
      if rank > p.highestRank then (p, .error .badExecutorCommitment)
      else if rank ≠ p.highestRank ∧ p.discrepancy then (p, .error .badExecutorCommitment)
      else (p.updateHighestRank rank ec).addVote resultsHash rank ec

/-- The vote gathering loop of `processCommitments` (`pool.go:343-389`) from a member
on: counts the members of the role under consideration, their votes and their
failures, and stops with `ErrDiscrepancyDetected` as soon as detection is
certain. -/
def gatherVotes (p : Pool N H M) (sc : SchedulerCommitment N H M) (allowedStragglers : UInt16)
    (timeout : Bool) : List (CommitteeNode N) → VoteTally H → Except CommitmentError (VoteTally H)
  | [], t => .ok t
  | n :: ns, t =>
    if (!p.discrepancy && n.role ≠ .worker) || (p.discrepancy && n.role ≠ .backupWorker) then
      gatherVotes p sc allowedStragglers timeout ns t
    else
      let t := { t with total := t.total + 1 }
      match sc.votes.lookup n.publicKey with
      | none => gatherVotes p sc allowedStragglers timeout ns t
      | some vote =>
        let t := t.record vote
        -- Early discrepancy detection; backup schedulers wait for the timeout.
        if p.discrepancy then gatherVotes p sc allowedStragglers timeout ns t
        else if t.votes.keys.card ≤ 1 ∧ t.failures ≤ allowedStragglers.toNat then
          gatherVotes p sc allowedStragglers timeout ns t
        else if p.highestRank > 0 ∧ !timeout then gatherVotes p sc allowedStragglers timeout ns t
        else .error .discrepancyDetected

/-- The search for the hash with the most votes in discrepancy resolution
(`pool.go:413-424`): the first strict maximum in the order of the walk. Go starts
from the zero hash with no votes; `none` stands for it, and it is compared only
when some hash has votes. -/
def bestVote (votes : FinMap H ℕ) : List H → Option H × ℕ → Option H × ℕ
  | [], acc => acc
  | h :: hs, (hash, best) =>
    if votes.get h > best then bestVote votes hs (some h, votes.get h)
    else bestVote votes hs (hash, best)

/-- Discrepancy detection once the votes are gathered (`pool.go:392-410`): the
workers must be unanimous, and all but the stragglers must have voted. -/
def checkDetection (allowedStragglers : UInt16) (timeout : Bool) (t : VoteTally H) :
    Except CommitmentError Unit :=
  if t.votes.keys.card > 1 ∨ t.failures > allowedStragglers.toNat then .error .stillWaiting
  else
    let required : ℤ := t.total - allowedStragglers.toNat - t.votes.sum fun _ v => v
    if required > 0 ∧ timeout then .error .discrepancyDetected
    else if required > 0 then .error .stillWaiting
    else .ok ()

/-- Discrepancy resolution once the votes are gathered (`pool.go:411-446`): the
scheduler's commitment must have a majority of the backup workers. -/
def checkResolution (order : Finset H → List H) (sc : SchedulerCommitment N H M) (timeout : Bool)
    (t : VoteTally H) : Except CommitmentError Unit :=
  let required : ℤ := t.total / 2 + 1
  let remaining : ℤ := t.total - t.commits
  let (hash, best) := bestVote t.votes (order t.votes.keys) (none, 0)
  if best + remaining < required then .error .insufficientVotes
  else if best < required ∧ timeout then .error .insufficientVotes
  else if best < required then .error .stillWaiting
  else
    match sc.commitment with
    | none => .error .nilCommitment
    | some commitment =>
      if hash ≠ some (commitment.toVote resultsHash) then .error .badSchedulerCommitment
      else .ok ()

/-- `processCommitments` (`pool.go:328-452`). -/
def processCommitments (order : Finset H → List H) (p : Pool N H M) (c : Committee N)
    (allowedStragglers : UInt16) (timeout : Bool) :
    Except CommitmentError (SchedulerCommitment N H M) :=
  -- Ensure we have at least the scheduler's vote.
  if p.highestRank ∉ p.schedulerCommitments.keys then
    if timeout then .error .noSchedulerCommitment else .error .stillWaiting
  else do
    let sc := p.schedulerCommitments.get p.highestRank
    let t ← gatherVotes p sc allowedStragglers timeout c.members {}
    (if !p.discrepancy then checkDetection allowedStragglers timeout t
      else checkResolution resultsHash order sc timeout t)
    pure sc

/-- `ProcessCommitments` (`pool.go:309-326`): on a detected discrepancy the pool
switches to resolution and keeps only the highest-ranked commitments. -/
def processCommitmentsAndSwitch (order : Finset H → List H) (p : Pool N H M) (c : Committee N)
    (allowedStragglers : UInt16) (timeout : Bool) :
    Pool N H M × Except CommitmentError (SchedulerCommitment N H M) :=
  match processCommitments resultsHash order p c allowedStragglers timeout with
  | .error .discrepancyDetected =>
    ({ p with discrepancy := true,
              schedulerCommitments := p.schedulerCommitments.filter (· = p.highestRank) },
      .error .discrepancyDetected)
  | r => (p, r)

end Pool

/-- A call on the pool of one round. -/
inductive PoolCall (N H M : Type) where
  | add (ec : ExecutorCommitment N H M)
  | process (timeout : Bool)

namespace Pool

variable [DecidableEq N] [DecidableEq H] (resultsHash : ComputeResultsHeader H → H)
  (order : Finset H → List H) (c : Committee N) (allowedStragglers : UInt16)

/-- The pool after one call, whatever the call returned. -/
def call (p : Pool N H M) : PoolCall N H M → Pool N H M
  | .add ec => (p.addVerifiedExecutorCommitment resultsHash c ec).1
  | .process timeout =>
    (p.processCommitmentsAndSwitch resultsHash order c allowedStragglers timeout).1

/-- The pool after a sequence of calls. -/
def run (p : Pool N H M) (calls : List (PoolCall N H M)) : Pool N H M :=
  calls.foldl (call resultsHash order c allowedStragglers) p

end Pool

/-! ## Counting the votes

Without its early exit the gathering loop counts, over the members of the counted
role, the members, their failures and the votes for each hash; `gatherVotes_eq_ok`
says that a loop that does not exit counts the same. -/

section Tally

variable [DecidableEq N] [DecidableEq H] {counted : Role} {votes : FinMap N (Option H)}

namespace VoteTally

@[simp] theorem record_total (t : VoteTally H) (vote : Option H) :
    (t.record vote).total = t.total := by
  cases vote <;> rfl

theorem record_failures (t : VoteTally H) (vote : Option H) :
    (t.record vote).failures = t.failures + if vote = none then 1 else 0 := by
  cases vote <;> simp [record]

theorem record_get (t : VoteTally H) (vote : Option H) (h : H) :
    (t.record vote).votes.get h = t.votes.get h + if vote = some h then 1 else 0 := by
  cases vote with
  | none => simp [record]
  | some v =>
    by_cases hv : h = v
    · simp [record, hv]
    · simp [record, hv, Ne.symm hv]

theorem mem_record_keys (t : VoteTally H) (vote : Option H) (h : H) :
    h ∈ (t.record vote).votes.keys ↔ h ∈ t.votes.keys ∨ vote = some h := by
  cases vote with
  | none => simp [record]
  | some v =>
    simp only [record, FinMap.keys_set, Finset.mem_insert, Option.some.injEq]
    rw [@eq_comm _ v]
    exact or_comm

theorem count_total (t : VoteTally H) (n : CommitteeNode N) :
    (t.count counted votes n).total = t.total + if n.role = counted then 1 else 0 := by
  unfold count
  by_cases hrole : n.role = counted
  · cases votes.lookup n.publicKey <;> simp [hrole]
  · simp [hrole]

theorem count_failures (t : VoteTally H) (n : CommitteeNode N) :
    (t.count counted votes n).failures = t.failures +
      if n.role = counted ∧ votes.lookup n.publicKey = some none then 1 else 0 := by
  unfold count
  by_cases hrole : n.role = counted
  · cases votes.lookup n.publicKey <;> simp [hrole, record_failures]
  · simp [hrole]

theorem count_get (t : VoteTally H) (n : CommitteeNode N) (h : H) :
    (t.count counted votes n).votes.get h = t.votes.get h +
      if n.role = counted ∧ votes.lookup n.publicKey = some (some h) then 1 else 0 := by
  unfold count
  by_cases hrole : n.role = counted
  · cases votes.lookup n.publicKey <;> simp [hrole, record_get]
  · simp [hrole]

theorem mem_count_keys (t : VoteTally H) (n : CommitteeNode N) (h : H) :
    h ∈ (t.count counted votes n).votes.keys ↔
      h ∈ t.votes.keys ∨ (n.role = counted ∧ votes.lookup n.publicKey = some (some h)) := by
  unfold count
  by_cases hrole : n.role = counted
  · cases votes.lookup n.publicKey <;> simp [hrole, mem_record_keys]
  · simp [hrole]

end VoteTally

/-- The counts over the members `ns`, from the empty tally. -/
def tally (counted : Role) (votes : FinMap N (Option H)) (ns : List (CommitteeNode N)) :
    VoteTally H :=
  ns.foldl (VoteTally.count counted votes) {}

theorem tally_total (ns : List (CommitteeNode N)) :
    (tally counted votes ns).total = ns.countP (·.role = counted) := by
  have hrun := foldl_counter VoteTally.total (VoteTally.count counted votes) (·.role = counted)
    VoteTally.count_total ns {}
  simpa [tally] using hrun

theorem tally_failures (ns : List (CommitteeNode N)) :
    (tally counted votes ns).failures =
      ns.countP (fun n => n.role = counted ∧ votes.lookup n.publicKey = some none) := by
  have hrun := foldl_counter VoteTally.failures (VoteTally.count counted votes)
    (fun n => n.role = counted ∧ votes.lookup n.publicKey = some none)
    VoteTally.count_failures ns {}
  simpa [tally] using hrun

theorem tally_get (ns : List (CommitteeNode N)) (h : H) :
    (tally counted votes ns).votes.get h =
      ns.countP (fun n => n.role = counted ∧ votes.lookup n.publicKey = some (some h)) := by
  have hrun := foldl_counter (fun t : VoteTally H => t.votes.get h) (VoteTally.count counted votes)
    (fun n => n.role = counted ∧ votes.lookup n.publicKey = some (some h))
    (fun t n => VoteTally.count_get t n h) ns {}
  simpa [tally] using hrun

theorem mem_tally_keys (ns : List (CommitteeNode N)) (h : H) :
    h ∈ (tally counted votes ns).votes.keys ↔
      ∃ n ∈ ns, n.role = counted ∧ votes.lookup n.publicKey = some (some h) := by
  have hrun := foldl_accumulates (fun t : VoteTally H => h ∈ t.votes.keys)
    (VoteTally.count counted votes)
    (fun n => n.role = counted ∧ votes.lookup n.publicKey = some (some h))
    (fun t n => VoteTally.mem_count_keys t n h) ns {}
  simpa [tally] using hrun

theorem skip_iff_ne_countedRole (d : Bool) (role : Role) :
    ((!d && decide (role ≠ .worker)) || (d && decide (role ≠ .backupWorker))) = true ↔
      role ≠ countedRole d := by
  cases d <;> simp [countedRole]

/-- A gathering loop that does not exit early counts as the loop without the exit:
every branch that does not exit goes on with the tally of one more member. -/
theorem gatherVotes_eq_ok {p : Pool N H M} {sc : SchedulerCommitment N H M} {s : UInt16}
    {timeout : Bool} : ∀ {ns : List (CommitteeNode N)} {t t' : VoteTally H},
      Pool.gatherVotes p sc s timeout ns t = .ok t' →
        t' = ns.foldl (VoteTally.count (countedRole p.discrepancy) sc.votes) t
  | [], t, t', h => by
    simp only [Pool.gatherVotes, Except.ok.injEq] at h
    simp [h]
  | n :: ns, t, t', h => by
    rw [List.foldl_cons]
    unfold Pool.gatherVotes at h
    by_cases hrole : n.role = countedRole p.discrepancy
    · rw [if_neg (by rw [skip_iff_ne_countedRole]; exact not_not.mpr hrole)] at h
      cases hlook : sc.votes.lookup n.publicKey with
      | none =>
        rw [hlook] at h
        have hcount : VoteTally.count (countedRole p.discrepancy) sc.votes t n =
            { t with total := t.total + 1 } := by
          simp [VoteTally.count, hrole, hlook]
        rw [hcount]
        exact gatherVotes_eq_ok h
      | some vote =>
        rw [hlook] at h
        have hcount : VoteTally.count (countedRole p.discrepancy) sc.votes t n =
            { t with total := t.total + 1 }.record vote := by
          simp [VoteTally.count, hrole, hlook]
        rw [hcount]
        dsimp only at h
        split at h
        · exact gatherVotes_eq_ok h
        split at h
        · exact gatherVotes_eq_ok h
        split at h
        · exact gatherVotes_eq_ok h
        · cases h
    · rw [if_pos (by rw [skip_iff_ne_countedRole]; exact hrole)] at h
      have hcount : VoteTally.count (countedRole p.discrepancy) sc.votes t n = t := by
        simp [VoteTally.count, hrole]
      rw [hcount]
      exact gatherVotes_eq_ok h

end Tally

/-! ## A successful `processCommitments` -/

namespace Pool

variable {resultsHash : ComputeResultsHeader H → H}

/-- The hash the search ends with has the number of votes it ends with. -/
theorem bestVote_get (votes : FinMap H ℕ) : ∀ (hs : List H) (acc : Option H × ℕ),
    (∀ h, acc.1 = some h → votes.get h = acc.2) →
      ∀ h, (bestVote votes hs acc).1 = some h → votes.get h = (bestVote votes hs acc).2
  | [], _, hacc => hacc
  | x :: hs, (hash, best), hacc => by
    unfold bestVote
    split
    · apply bestVote_get votes hs
      rintro h ⟨⟩
      rfl
    · exact bestVote_get votes hs _ hacc

theorem checkDetection_eq_ok {s : UInt16} {timeout : Bool} {t : VoteTally H}
    (h : checkDetection s timeout t = .ok ()) :
    t.votes.keys.card ≤ 1 ∧ t.failures ≤ s.toNat ∧
      (t.total : ℤ) ≤ s.toNat + t.votes.sum (fun _ v => v) := by
  unfold checkDetection at h
  simp only [Except.ite_error_eq_ok, not_or, not_lt] at h
  obtain ⟨⟨hcard, hfail⟩, -, hreq, -⟩ := h
  exact ⟨hcard, hfail, by omega⟩

theorem checkResolution_eq_ok [DecidableEq H] {order : Finset H → List H} {sc : SchedulerCommitment N H M}
    {timeout : Bool} {t : VoteTally H} (h : checkResolution resultsHash order sc timeout t = .ok ()) :
    ∃ ec, sc.commitment = some ec ∧
      (bestVote t.votes (order t.votes.keys) (none, 0)).1 = some (ec.toVote resultsHash) ∧
      (t.total : ℤ) / 2 + 1 ≤ (bestVote t.votes (order t.votes.keys) (none, 0)).2 := by
  unfold checkResolution at h
  generalize bestVote t.votes (order t.votes.keys) (none, 0) = r at h ⊢
  obtain ⟨hash, best⟩ := r
  simp only [Except.ite_error_eq_ok, not_lt] at h
  obtain ⟨-, -, hbest, hcommit⟩ := h
  cases hsc : sc.commitment with
  | none => simp [hsc] at hcommit
  | some ec =>
    simp only [hsc, Except.ite_error_eq_ok, not_not] at hcommit
    exact ⟨ec, rfl, hcommit.1, hbest⟩

/-- `processCommitments` succeeds with the entry of the highest rank, after a
gathering loop that did not exit and the check of the pool's mode. -/
theorem processCommitments_eq_ok [DecidableEq N] [DecidableEq H] {order : Finset H → List H} {p : Pool N H M} {c : Committee N}
    {s : UInt16} {timeout : Bool} {sc : SchedulerCommitment N H M}
    (h : p.processCommitments resultsHash order c s timeout = .ok sc) :
    p.highestRank ∈ p.schedulerCommitments.keys ∧ sc = p.schedulerCommitments.get p.highestRank ∧
      ∃ t, p.gatherVotes sc s timeout c.members {} = .ok t ∧
        (p.discrepancy = false → checkDetection s timeout t = .ok ()) ∧
        (p.discrepancy = true → checkResolution resultsHash order sc timeout t = .ok ()) := by
  unfold processCommitments at h
  by_cases hmem : p.highestRank ∈ p.schedulerCommitments.keys
  · rw [if_neg (not_not.mpr hmem)] at h
    obtain ⟨t, ht, hrest⟩ := Except.bind_eq_ok.mp h
    obtain ⟨u, hcheck, hpure⟩ := Except.bind_eq_ok.mp hrest
    obtain rfl := Except.pure_eq_ok.mp hpure
    refine ⟨hmem, rfl, t, ht, fun hd => ?_, fun hd => ?_⟩
    · simpa [hd] using hcheck
    · simpa [hd] using hcheck
  · rw [if_pos hmem] at h
    split at h <;> cases h

end Pool

/-! ## What the votes of an accepted entry say -/

section Agreement

variable [DecidableEq N] [DecidableEq H]

/-- The workers of a committee agree on `v`: every vote of a worker that is not a
failure is `v`, at most `allowedStragglers` workers are missing or failed, and all
workers but `allowedStragglers` voted `v`. Members count as often as they are
listed. -/
def WorkersAgree (c : Committee N) (votes : FinMap N (Option H)) (v : H)
    (allowedStragglers : ℕ) : Prop :=
  (∀ n ∈ c.members, n.role = .worker → ∀ h, votes.lookup n.publicKey = some (some h) → h = v) ∧
  c.members.countP (fun n => n.role = .worker ∧
      (votes.lookup n.publicKey = none ∨ votes.lookup n.publicKey = some none)) ≤
    allowedStragglers ∧
  c.members.countP (·.role = .worker) ≤
    c.members.countP (fun n => n.role = .worker ∧ votes.lookup n.publicKey = some (some v)) +
      allowedStragglers

/-- Strictly more than half of the backup workers of a committee voted `v`. -/
def BackupMajority (c : Committee N) (votes : FinMap N (Option H)) (v : H) : Prop :=
  c.members.countP (·.role = .backupWorker) <
    2 * c.members.countP (fun n => n.role = .backupWorker ∧ votes.lookup n.publicKey = some (some v))

/-- A member whose votes agree with `v` but for failures voted `v` or is missing or
failed: the workers split into these two kinds. -/
theorem countP_worker_split {c : Committee N} {votes : FinMap N (Option H)} {v : H}
    (hagree : ∀ n ∈ c.members, n.role = .worker → ∀ h,
      votes.lookup n.publicKey = some (some h) → h = v) :
    c.members.countP (·.role = .worker) =
      c.members.countP (fun n => n.role = .worker ∧ votes.lookup n.publicKey = some (some v)) +
      c.members.countP (fun n => n.role = .worker ∧
        (votes.lookup n.publicKey = none ∨ votes.lookup n.publicKey = some none)) := by
  rw [List.countP_eq_countP_filter_add c.members _
    (fun n => decide (votes.lookup n.publicKey = some (some v))), List.countP_filter,
    List.countP_filter]
  congr 1
  · apply List.countP_congr
    intro n _
    simp
  · apply List.countP_congr
    intro n hn
    simp only [Bool.and_eq_true, decide_eq_true_eq, Bool.not_eq_true', decide_eq_false_iff_not]
    constructor
    · rintro ⟨hrole, hne⟩
      refine ⟨hrole, ?_⟩
      -- a vote that is neither missing nor a failure is for some hash, which is `v`
      rcases hlook : votes.lookup n.publicKey with _ | _ | h
      · exact .inl rfl
      · exact .inr rfl
      · exact absurd (hlook.trans (by rw [hagree n hn hrole h hlook])) hne
    · rintro ⟨hrole, hmiss | hfail⟩
      · exact ⟨hrole, by simp [hmiss]⟩
      · exact ⟨hrole, by simp [hfail]⟩

/-- Discrepancy detection accepts only votes on which the workers agree, given that
some worker voted `v`. -/
theorem workersAgree_of_checkDetection {c : Committee N} {votes : FinMap N (Option H)} {v : H}
    {s : UInt16} {timeout : Bool}
    (hv : ∃ n ∈ c.members, n.role = .worker ∧ votes.lookup n.publicKey = some (some v))
    (h : Pool.checkDetection s timeout (tally .worker votes c.members) = .ok ()) :
    WorkersAgree c votes v s.toNat := by
  obtain ⟨hcard, -, hreq⟩ := Pool.checkDetection_eq_ok h
  have hvmem : v ∈ (tally .worker votes c.members).votes.keys := (mem_tally_keys _ v).mpr hv
  -- The workers voted for one hash only, and `v` is it.
  have honly : ∀ h ∈ (tally .worker votes c.members).votes.keys, h = v :=
    fun h hh => Finset.card_le_one.mp hcard h hh v hvmem
  have hkeys : (tally .worker votes c.members).votes.keys = {v} :=
    Finset.eq_singleton_iff_unique_mem.mpr ⟨hvmem, honly⟩
  have hsum : (tally .worker votes c.members).votes.sum (fun _ x => x) =
      (tally .worker votes c.members).votes.get v := by
    simp [FinMap.sum, hkeys]
  have hagree : ∀ n ∈ c.members, n.role = .worker → ∀ h,
      votes.lookup n.publicKey = some (some h) → h = v :=
    fun n hn hrole h hlook => honly h ((mem_tally_keys _ h).mpr ⟨n, hn, hrole, hlook⟩)
  have hvoted := hreq
  rw [tally_total, hsum, tally_get] at hvoted
  have hsplit := countP_worker_split hagree
  exact ⟨hagree, by omega, by omega⟩

/-- Discrepancy resolution accepts only a scheduler's commitment that a majority of
the backup workers voted for. -/
theorem backupMajority_of_checkResolution {resultsHash : ComputeResultsHeader H → H}
    {c : Committee N} {sc : SchedulerCommitment N H M} {order : Finset H → List H}
    {timeout : Bool} {ec : ExecutorCommitment N H M} (hec : sc.commitment = some ec)
    (h : Pool.checkResolution resultsHash order sc timeout
      (tally .backupWorker sc.votes c.members) = .ok ()) :
    BackupMajority c sc.votes (ec.toVote resultsHash) := by
  obtain ⟨ec', hec', hbest, hreq⟩ := Pool.checkResolution_eq_ok h
  obtain rfl : ec = ec' := Option.some.inj (hec.symm.trans hec')
  -- The best vote is the scheduler's, with as many votes as were found for it.
  have hget := Pool.bestVote_get _ _ (none, 0) (by simp) _ hbest
  rw [tally_get] at hget
  rw [tally_total] at hreq
  unfold BackupMajority
  omega

end Agreement

/-! ## The pool invariant

Over the calls of one round whose ranks do not wrap, the entry of the highest rank
holds the commitment of the scheduler of that rank and its vote; a pool whose
highest rank is not `maxRank` has that entry; and a scheduler that voted in the
entry of its own rank ranks no better than the lead, since it took the lead when it
voted. -/

section Invariant

variable [DecidableEq N] (resultsHash : ComputeResultsHeader H → H)
  (c : Committee N) (round : UInt64)

/-- The scheduler of `rank` committed `ec` to the entry `sc` and voted for it. -/
def LeadsEntry (rank : UInt64) (sc : SchedulerCommitment N H M) (ec : ExecutorCommitment N H M) :
    Prop :=
  sc.commitment = some ec ∧ ec.nodeID = ec.header.schedulerID ∧
    c.schedulerRank round ec.header.schedulerID = some rank ∧
    sc.votes.lookup ec.nodeID = some (some (ec.toVote resultsHash))

/-- The invariant of the pool of round `round`. -/
structure Pool.Inv (p : Pool N H M) : Prop where
  lead : p.highestRank ∈ p.schedulerCommitments.keys →
    ∃ ec, LeadsEntry resultsHash c round p.highestRank
      (p.schedulerCommitments.get p.highestRank) ec
  leadKept : p.highestRank ≠ maxRank → p.highestRank ∈ p.schedulerCommitments.keys
  voted : ∀ k ∈ p.schedulerCommitments.keys, ∀ n ∈ (p.schedulerCommitments.get k).votes.keys,
    c.schedulerRank round n = some k → p.highestRank ≤ k

/-- A commitment of round `round` that does not indicate a failure when it is the
scheduler's own, as a verified commitment is (`verifyExecutorCommitment_ok`). -/
def Admissible (ec : ExecutorCommitment N H M) : Prop :=
  ec.header.header.round = round ∧
    (ec.nodeID = ec.header.schedulerID → ec.isIndicatingFailure = false)

variable {resultsHash c round}

/-- Without wrapping no scheduler has the rank `maxRank`. -/
theorem schedulerRank_ne_maxRank {id : N} {rank : UInt64} (hno : c.NoRankOverflow round)
    (h : c.schedulerRank round id = some rank) : rank ≠ maxRank := by
  have hlt := Committee.schedulerRank_lt hno h
  unfold Committee.NoRankOverflow at hno
  rintro rfl
  have hmax : maxRank.toNat = 2 ^ 64 - 1 := rfl
  omega

omit [DecidableEq N] in
/-- An entry with a vote is stored: the empty entry read for a missing rank has none. -/
theorem mem_keys_of_mem_votes {m : FinMap UInt64 (SchedulerCommitment N H M)} {k : UInt64} {n : N}
    (hn : n ∈ (m.get k).votes.keys) : k ∈ m.keys := by
  by_contra hk
  rw [m.get_eq_default k hk] at hn
  simp [default] at hn

theorem Pool.inv_new : (Pool.new : Pool N H M).Inv resultsHash c round where
  lead := by simp [Pool.new]
  leadKept := by simp [Pool.new]
  voted := by simp [Pool.new]

namespace Pool

/-- The two ways an `AddVerifiedExecutorCommitment` goes: rejected before it touches the
pool, or the vote added to the entry of the commitment's rank, no worse than the lead,
after the prioritisation. -/
theorem addVerifiedExecutorCommitment_cases (p : Pool N H M) (ec : ExecutorCommitment N H M) :
    (∃ e, p.addVerifiedExecutorCommitment resultsHash c ec = (p, .error e)) ∨
      ∃ rank, c.schedulerRank ec.header.header.round ec.header.schedulerID = some rank ∧
        rank ≤ p.highestRank ∧
        p.addVerifiedExecutorCommitment resultsHash c ec =
          (p.updateHighestRank rank ec).addVote resultsHash rank ec := by
  unfold addVerifiedExecutorCommitment
  split
  · exact .inl ⟨_, rfl⟩
  split
  · exact .inl ⟨_, rfl⟩
  cases hrank : c.schedulerRank ec.header.header.round ec.header.schedulerID with
  | none => exact .inl ⟨_, rfl⟩
  | some rank =>
    dsimp only
    split
    · exact .inl ⟨_, rfl⟩
    split
    · exact .inl ⟨_, rfl⟩
    · rename_i hgt _
      exact .inr ⟨rank, rfl, UInt64.not_lt.mp hgt, rfl⟩

/-- What an `AddVerifiedExecutorCommitment` can do to the pool: nothing, or add the
vote to the entry of the commitment's rank, no worse than the lead, after the
prioritisation. -/
theorem addVerifiedExecutorCommitment_fst (p : Pool N H M) (ec : ExecutorCommitment N H M) :
    (p.addVerifiedExecutorCommitment resultsHash c ec).1 = p ∨
      ∃ rank, c.schedulerRank ec.header.header.round ec.header.schedulerID = some rank ∧
        rank ≤ p.highestRank ∧
        (p.addVerifiedExecutorCommitment resultsHash c ec).1 =
          ((p.updateHighestRank rank ec).addVote resultsHash rank ec).1 := by
  rcases addVerifiedExecutorCommitment_cases p ec with ⟨e, h⟩ | ⟨rank, hrank, hle, h⟩
  · exact .inl (by rw [h])
  · exact .inr ⟨rank, hrank, hle, by rw [h]⟩

variable (resultsHash) in
/-- `addVote` writes the entry of `rank` only: back as it was when the node has
voted already, or with the vote added. -/
theorem addVote_fst (p : Pool N H M) (rank : UInt64) (ec : ExecutorCommitment N H M) :
    ∃ sc', (p.addVote resultsHash rank ec).1 =
        { p with schedulerCommitments := p.schedulerCommitments.set rank sc' } ∧
      ((ec.nodeID ∈ (p.schedulerCommitments.get rank).votes.keys ∧
          sc' = p.schedulerCommitments.get rank) ∨
        (p.schedulerCommitments.get rank).add resultsHash ec = .ok sc') := by
  unfold addVote
  dsimp only
  split
  · rename_i hadd
    exact ⟨_, rfl, .inl ⟨SchedulerCommitment.mem_votes_of_add_eq_error hadd, rfl⟩⟩
  · rename_i sc' hadd
    exact ⟨sc', rfl, .inr hadd⟩

variable (resultsHash) in
/-- A failed `addVote` met a node that has voted in the entry of `rank`, and writes that
entry back as it was. -/
theorem addVote_error {p : Pool N H M} {rank : UInt64} {ec : ExecutorCommitment N H M}
    {e : CommitmentError} (h : (p.addVote resultsHash rank ec).2 = .error e) :
    ec.nodeID ∈ (p.schedulerCommitments.get rank).votes.keys ∧
      (p.addVote resultsHash rank ec).1 =
        { p with schedulerCommitments :=
            p.schedulerCommitments.set rank (p.schedulerCommitments.get rank) } := by
  unfold addVote at h ⊢
  dsimp only at h ⊢
  split at h
  · rename_i hadd
    exact ⟨SchedulerCommitment.mem_votes_of_add_eq_error hadd, rfl⟩
  · cases h

/-- A scheduler committing to its own proposal with a better rank takes the lead: it
has not voted in its entry yet, since it would have taken the lead then. -/
theorem Inv.addVote_takeLead {p : Pool N H M} {ec : ExecutorCommitment N H M} {rank : UInt64}
    (hinv : p.Inv resultsHash c round)
    (hrank : c.schedulerRank round ec.header.schedulerID = some rank)
    (hlt : rank < p.highestRank) (hown : ec.nodeID = ec.header.schedulerID)
    (hfail : ec.isIndicatingFailure = false) :
    ((p.updateHighestRank rank ec).addVote resultsHash rank ec).1.Inv resultsHash c round := by
  have hupdate : p.updateHighestRank rank ec =
      { p with highestRank := rank,
               schedulerCommitments := p.schedulerCommitments.filter (· ≤ rank) } := by
    simp [updateHighestRank, hlt, hown]
  rw [hupdate]
  have hfresh : ec.nodeID ∉ (p.schedulerCommitments.get rank).votes.keys := by
    intro hmem
    have hled := hinv.voted rank (mem_keys_of_mem_votes hmem) ec.nodeID hmem (hown ▸ hrank)
    exact absurd hled (UInt64.not_le.mpr hlt)
  obtain ⟨sc', hp', hcase⟩ := addVote_fst resultsHash
    { p with highestRank := rank,
             schedulerCommitments := p.schedulerCommitments.filter (· ≤ rank) }
    rank ec
  have hadd : (p.schedulerCommitments.get rank).add resultsHash ec = .ok sc' := by
    simpa [hfresh] using hcase
  obtain ⟨-, rfl⟩ := SchedulerCommitment.add_eq_ok.mp hadd
  rw [hp']
  constructor
  · intro _
    exact ⟨ec, by simp [LeadsEntry, hown, hfail, ← hown ▸ hrank]⟩
  · intro _
    simp
  · intro k hk n hn hnk
    by_cases hkr : k = rank
    · exact UInt64.le_of_eq hkr.symm
    -- An older entry kept below the new lead would have a scheduler ranked ahead of
    -- the old lead.
    simp only [FinMap.keys_set, Finset.mem_insert, hkr, false_or, FinMap.keys_filter,
      Finset.mem_filter] at hk
    simp only [FinMap.get_set, hkr, if_false, FinMap.get_filter, hk.2, if_true] at hn
    have hled := hinv.voted k hk.1 n hn hnk
    exact absurd (UInt64.lt_of_le_of_lt hk.2 hlt) (UInt64.not_lt.mpr hled)

/-- A commitment for the lead's own rank leaves the lead's commitment and vote in
its entry: the lead's scheduler cannot commit again. -/
theorem Inv.addVote_lead {p : Pool N H M} {ec : ExecutorCommitment N H M}
    (hinv : p.Inv resultsHash c round) (hno : c.NoRankOverflow round)
    (hrank : c.schedulerRank round ec.header.schedulerID = some p.highestRank) :
    (p.addVote resultsHash p.highestRank ec).1.Inv resultsHash c round := by
  have hmem := hinv.leadKept (schedulerRank_ne_maxRank hno hrank)
  obtain ⟨ec0, hcommit, hown0, hrank0, hvote0⟩ := hinv.lead hmem
  have hvoted0 := FinMap.mem_keys_of_lookup_eq_some hvote0
  obtain ⟨sc', hp', hcase⟩ := addVote_fst resultsHash p p.highestRank ec
  have hentry : LeadsEntry resultsHash c round p.highestRank sc' ec0 := by
    rcases hcase with ⟨-, rfl⟩ | hadd
    · exact ⟨hcommit, hown0, hrank0, hvote0⟩
    obtain ⟨hfresh, rfl⟩ := SchedulerCommitment.add_eq_ok.mp hadd
    -- The node is new to the entry, so it is not the lead's scheduler, which is the
    -- only scheduler of that rank.
    have hsched : ec.header.schedulerID = ec0.nodeID :=
      hown0 ▸ Committee.schedulerRank_injective hno hrank hrank0
    have hne0 : ec0.nodeID ≠ ec.nodeID := fun h => hfresh (h ▸ hvoted0)
    have hnotown : ec.nodeID ≠ ec.header.schedulerID := hsched ▸ hne0.symm
    exact ⟨by simp [hnotown, hcommit], hown0, hrank0, by simp [hne0, hvote0]⟩
  rw [hp']
  constructor
  · intro _
    exact ⟨ec0, by simpa using hentry⟩
  · intro _
    simp
  · intro k hk n hn hnk
    by_cases hkr : k = p.highestRank
    · exact UInt64.le_of_eq hkr.symm
    simp only [FinMap.keys_set, Finset.mem_insert, hkr, false_or] at hk
    simp only [FinMap.get_set, hkr, if_false] at hn
    exact hinv.voted k hk n hn hnk

/-- A vote for a better-ranked scheduler that has not committed leaves the lead
alone. -/
theorem Inv.addVote_ahead {p : Pool N H M} {ec : ExecutorCommitment N H M} {rank : UInt64}
    (hinv : p.Inv resultsHash c round) (hno : c.NoRankOverflow round)
    (hrank : c.schedulerRank round ec.header.schedulerID = some rank)
    (hlt : rank < p.highestRank) (hnotown : ec.nodeID ≠ ec.header.schedulerID) :
    (p.addVote resultsHash rank ec).1.Inv resultsHash c round := by
  obtain ⟨sc', hp', hcase⟩ := addVote_fst resultsHash p rank ec
  have hvotes : ∀ n ∈ sc'.votes.keys,
      n = ec.nodeID ∨ n ∈ (p.schedulerCommitments.get rank).votes.keys := by
    intro n hn
    rcases hcase with ⟨-, rfl⟩ | hadd
    · exact .inr hn
    obtain ⟨-, rfl⟩ := SchedulerCommitment.add_eq_ok.mp hadd
    simpa using hn
  have hne : p.highestRank ≠ rank := (UInt64.ne_of_lt hlt).symm
  rw [hp']
  constructor
  · intro hmem
    simp only [FinMap.keys_set, Finset.mem_insert, hne, false_or] at hmem
    simpa [hne] using hinv.lead hmem
  · intro hmax
    simp [hinv.leadKept hmax]
  · intro k hk n hn hnk
    by_cases hkr : k = rank
    · subst hkr
      simp only [FinMap.get_set, if_true] at hn
      rcases hvotes n hn with rfl | hold
      -- The node is not the scheduler, so it does not have the scheduler's rank.
      · exact absurd (Committee.schedulerRank_injective hno hnk hrank) hnotown
      · exact hinv.voted k (mem_keys_of_mem_votes hold) n hold hnk
    simp only [FinMap.keys_set, Finset.mem_insert, hkr, false_or] at hk
    simp only [FinMap.get_set, hkr, if_false] at hn
    exact hinv.voted k hk n hn hnk

/-- `AddVerifiedExecutorCommitment` keeps the invariant for an admissible commitment. -/
theorem Inv.addVerifiedExecutorCommitment {p : Pool N H M} {ec : ExecutorCommitment N H M}
    (hinv : p.Inv resultsHash c round) (hno : c.NoRankOverflow round) (hadm : Admissible round ec) :
    (p.addVerifiedExecutorCommitment resultsHash c ec).1.Inv resultsHash c round := by
  rcases addVerifiedExecutorCommitment_fst p ec with hsame | ⟨rank, hrank, hle, hp'⟩
  · rw [hsame]
    exact hinv
  rw [hp']
  rw [hadm.1] at hrank
  by_cases hup : rank < p.highestRank ∧ ec.nodeID = ec.header.schedulerID
  · exact hinv.addVote_takeLead hrank hup.1 hup.2 (hadm.2 hup.2)
  have hsame : p.updateHighestRank rank ec = p := by
    simp only [updateHighestRank, hup, if_false]
  rw [hsame]
  rcases UInt64.lt_or_eq_of_le hle with hlt | heq
  · exact hinv.addVote_ahead hno hrank hlt (fun hown => hup ⟨hlt, hown⟩)
  · rw [heq] at hrank ⊢
    exact hinv.addVote_lead hno hrank

/-- On a pool with the invariant, a failed `AddVerifiedExecutorCommitment` of an
admissible commitment leaves the pool as it was: a scheduler that would take the lead
has no vote in its entry yet, so its `Add` cannot fail, and any other failed `Add`
writes a stored entry back unchanged. -/
theorem Inv.addVerifiedExecutorCommitment_error {p : Pool N H M} {ec : ExecutorCommitment N H M}
    {e : CommitmentError} (hinv : p.Inv resultsHash c round) (hadm : Admissible round ec)
    (herr : (p.addVerifiedExecutorCommitment resultsHash c ec).2 = .error e) :
    (p.addVerifiedExecutorCommitment resultsHash c ec).1 = p := by
  rcases addVerifiedExecutorCommitment_cases p ec with ⟨e', h⟩ | ⟨rank, hrank, -, h⟩
  · rw [h]
  rw [h] at herr ⊢
  obtain ⟨hvoted, hp'⟩ := addVote_error resultsHash herr
  rw [hadm.1] at hrank
  have hup : p.updateHighestRank rank ec = p := by
    by_cases hlead : rank < p.highestRank ∧ ec.nodeID = ec.header.schedulerID
    · have hmem : ec.nodeID ∈ (p.schedulerCommitments.get rank).votes.keys := by
        simpa [updateHighestRank, hlead] using hvoted
      have hled := hinv.voted rank (mem_keys_of_mem_votes hmem) ec.nodeID hmem
        (hlead.2 ▸ hrank)
      exact absurd hled (UInt64.not_le.mpr hlead.1)
    · simp only [updateHighestRank, hlead, if_false]
  rw [hup] at hvoted hp' ⊢
  rw [hp', FinMap.set_get_of_mem (mem_keys_of_mem_votes hvoted)]

/-- `ProcessCommitments` keeps the invariant: the switch to resolution keeps the
entry of the lead. -/
theorem Inv.processCommitmentsAndSwitch [DecidableEq H] {p : Pool N H M} {order : Finset H → List H}
    {s : UInt16} {timeout : Bool} (hinv : p.Inv resultsHash c round) :
    (p.processCommitmentsAndSwitch resultsHash order c s timeout).1.Inv resultsHash c round := by
  unfold Pool.processCommitmentsAndSwitch
  split
  · constructor
    · intro hmem
      simp only [FinMap.keys_filter, Finset.mem_filter] at hmem
      simpa using hinv.lead hmem.1
    · intro hmax
      simpa using hinv.leadKept hmax
    · intro k hk n hn hnk
      simp only [FinMap.keys_filter, Finset.mem_filter] at hk
      exact UInt64.le_of_eq hk.2.symm
  · exact hinv

/-- The invariant over a whole run of admissible calls. -/
theorem Inv.run [DecidableEq H] {order : Finset H → List H} {s : UInt16} (hno : c.NoRankOverflow round) :
    ∀ {p : Pool N H M} {calls : List (PoolCall N H M)}, p.Inv resultsHash c round →
      (∀ ec, PoolCall.add ec ∈ calls → Admissible round ec) →
        (p.run resultsHash order c s calls).Inv resultsHash c round
  | _, [], hinv, _ => hinv
  | p, call :: calls, hinv, hcalls => by
    have hstep : (p.call resultsHash order c s call).Inv resultsHash c round := by
      cases call with
      | add ec => exact hinv.addVerifiedExecutorCommitment hno (hcalls ec (by simp))
      | process timeout => exact hinv.processCommitmentsAndSwitch
    have hrest : ((p.call resultsHash order c s call).run resultsHash order c s calls).Inv
        resultsHash c round :=
      Inv.run hno hstep (fun ec hec => hcalls ec (List.mem_cons_of_mem _ hec))
    exact hrest

/-- What a successful `processCommitments` on a pool with the invariant returns. -/
theorem Inv.processCommitments_eq_ok [DecidableEq H] {p : Pool N H M} {order : Finset H → List H} {s : UInt16}
    {timeout : Bool} {sc : SchedulerCommitment N H M} (hinv : p.Inv resultsHash c round)
    (hok : p.processCommitments resultsHash order c s timeout = .ok sc) :
    ∃ ec, LeadsEntry resultsHash c round p.highestRank sc ec ∧
      (p.discrepancy = false → WorkersAgree c sc.votes (ec.toVote resultsHash) s.toNat) ∧
      (p.discrepancy = true → BackupMajority c sc.votes (ec.toVote resultsHash)) := by
  obtain ⟨hmem, rfl, t, ht, hdet, hres⟩ := Pool.processCommitments_eq_ok hok
  obtain ⟨ec, hcommit, hown, hrank, hvote⟩ := hinv.lead hmem
  have htally := gatherVotes_eq_ok ht
  refine ⟨ec, ⟨hcommit, hown, hrank, hvote⟩, fun hd => ?_, fun hd => ?_⟩
  · -- The scheduler is a worker of the committee, and voted for its own commitment.
    obtain ⟨n, hn, hrole, hkey⟩ := Committee.schedulerRank_worker hrank
    have hcheck := hdet hd
    rw [htally, hd] at hcheck
    exact workersAgree_of_checkDetection ⟨n, hn, hrole, by rw [hkey, ← hown]; exact hvote⟩ hcheck
  · have hcheck := hres hd
    rw [htally, hd] at hcheck
    exact backupMajority_of_checkResolution hcommit hcheck

variable (resultsHash c) in
/-- The pools that verified commitments and processing calls reach from the empty
pool, the commitments verified against the latest block `blk`. -/
def Reachable [DecidableEq H] (hashing : BlockHashing H) (v : Verifier N H M) (blk : Block H)
    (order : Finset H → List H) (s : UInt16) (p : Pool N H M) : Prop :=
  ∃ calls : List (PoolCall N H M),
    (∀ ec, PoolCall.add ec ∈ calls → verifyExecutorCommitment hashing v blk ec = .ok ()) ∧
      Pool.new.run resultsHash order c s calls = p

/-- A reachable pool of a round whose ranks do not wrap has the invariant. -/
theorem Reachable.inv [DecidableEq H] {hashing : BlockHashing H} {v : Verifier N H M}
    {blk : Block H} {order : Finset H → List H} {s : UInt16} {p : Pool N H M}
    (hno : c.NoRankOverflow (blk.header.round + 1))
    (hreach : p.Reachable resultsHash c hashing v blk order s) :
    p.Inv resultsHash c (blk.header.round + 1) := by
  obtain ⟨calls, hcalls, rfl⟩ := hreach
  exact Inv.run hno inv_new fun ec hec => verifyExecutorCommitment_ok (hcalls ec hec)

/-- Safety of the pool of a round whose ranks do not wrap: whatever verified
commitments arrive, in any order and interleaved with any processing, a successful
`ProcessCommitments` returns the entry of the lead, holding the commitment of the
scheduler of that rank, on which the workers agree in discrepancy detection and a
majority of the backup workers in resolution. -/
theorem processCommitments_safe [DecidableEq H] {hashing : BlockHashing H}
    {v : Verifier N H M} {blk : Block H} {order : Finset H → List H} {s : UInt16}
    {timeout : Bool} {p : Pool N H M} {sc : SchedulerCommitment N H M}
    (hno : c.NoRankOverflow (blk.header.round + 1))
    (hreach : p.Reachable resultsHash c hashing v blk order s)
    (hok : p.processCommitments resultsHash order c s timeout = .ok sc) :
    ∃ ec, LeadsEntry resultsHash c (blk.header.round + 1) p.highestRank sc ec ∧
      (p.discrepancy = false → WorkersAgree c sc.votes (ec.toVote resultsHash) s.toNat) ∧
      (p.discrepancy = true → BackupMajority c sc.votes (ec.toVote resultsHash)) := by
  exact (hreach.inv hno).processCommitments_eq_ok hok

/-- On a reachable pool of a round whose ranks do not wrap, a verified commitment that
`AddVerifiedExecutorCommitment` rejects leaves the pool as it was. -/
theorem addVerifiedExecutorCommitment_error_unchanged [DecidableEq H]
    {hashing : BlockHashing H} {v : Verifier N H M} {blk : Block H}
    {order : Finset H → List H} {s : UInt16} {p : Pool N H M} {ec : ExecutorCommitment N H M}
    {e : CommitmentError} (hno : c.NoRankOverflow (blk.header.round + 1))
    (hreach : p.Reachable resultsHash c hashing v blk order s)
    (hver : verifyExecutorCommitment hashing v blk ec = .ok ())
    (herr : (p.addVerifiedExecutorCommitment resultsHash c ec).2 = .error e) :
    (p.addVerifiedExecutorCommitment resultsHash c ec).1 = p :=
  (hreach.inv hno).addVerifiedExecutorCommitment_error (verifyExecutorCommitment_ok hver) herr

end Pool

end Invariant

/-! ## The commitments a pool holds

A commitment is held in an entry of the pool only after a call added it, so what
holds of every commitment a run adds holds of every commitment a pool of the run
holds: for a reachable pool, that it was verified against the latest block. -/

section Commitments

variable [DecidableEq N] [DecidableEq H] {resultsHash : ComputeResultsHeader H → H}
  {c : Committee N} (P : ExecutorCommitment N H M → Prop)

namespace Pool

/-- Every commitment held in an entry of `p` satisfies `P`. -/
def AllCommitments (p : Pool N H M) : Prop :=
  ∀ k ec, (p.schedulerCommitments.get k).commitment = some ec → P ec

omit [DecidableEq N] [DecidableEq H] in
theorem allCommitments_new : (Pool.new : Pool N H M).AllCommitments P := by
  intro k ec h
  simp [Pool.new, default] at h

omit [DecidableEq N] [DecidableEq H] in
/-- Filtering the entries adds no commitment. -/
theorem commitment_of_get_filter {m : FinMap UInt64 (SchedulerCommitment N H M)}
    {q : UInt64 → Prop} [DecidablePred q] {k : UInt64} {ec : ExecutorCommitment N H M}
    (h : ((m.filter q).get k).commitment = some ec) : (m.get k).commitment = some ec := by
  rw [FinMap.get_filter] at h
  split at h
  · exact h
  · simp [default] at h

variable {P}

omit [DecidableEq H] in
theorem AllCommitments.addVerifiedExecutorCommitment {p : Pool N H M}
    {ec : ExecutorCommitment N H M} (hp : p.AllCommitments P) (hec : P ec) :
    (p.addVerifiedExecutorCommitment resultsHash c ec).1.AllCommitments P := by
  rcases addVerifiedExecutorCommitment_fst p ec with hsame | ⟨rank, -, -, hp'⟩
  · rw [hsame]
    exact hp
  -- The prioritisation only drops entries; the vote then rewrites the entry of `rank`.
  have hup : (p.updateHighestRank rank ec).AllCommitments P := by
    unfold updateHighestRank
    split
    · exact fun k ec' h => hp k ec' (commitment_of_get_filter h)
    · exact hp
  obtain ⟨sc', hvote, hcase⟩ := addVote_fst resultsHash (p.updateHighestRank rank ec) rank ec
  rw [hp', hvote]
  intro k ec' h
  rw [FinMap.get_set] at h
  split at h
  · next hk =>
    subst hk
    rcases hcase with ⟨-, rfl⟩ | hadd
    · exact hup k ec' h
    obtain ⟨-, rfl⟩ := SchedulerCommitment.add_eq_ok.mp hadd
    dsimp only at h
    split at h
    · cases h
      exact hec
    · exact hup k ec' h
  · exact hup k ec' h

theorem AllCommitments.processCommitmentsAndSwitch {p : Pool N H M} {order : Finset H → List H}
    {s : UInt16} {timeout : Bool} (hp : p.AllCommitments P) :
    (p.processCommitmentsAndSwitch resultsHash order c s timeout).1.AllCommitments P := by
  unfold Pool.processCommitmentsAndSwitch
  split
  · exact fun k ec h => hp k ec (commitment_of_get_filter h)
  · exact hp

/-- The commitments of a run's pool satisfy what all the commitments it adds satisfy. -/
theorem AllCommitments.run {order : Finset H → List H} {s : UInt16} {p : Pool N H M}
    {calls : List (PoolCall N H M)} (hp : p.AllCommitments P)
    (hcalls : ∀ ec, PoolCall.add ec ∈ calls → P ec) :
    (p.run resultsHash order c s calls).AllCommitments P := by
  unfold Pool.run
  refine foldl_inv calls (fun _ (q : Pool N H M) => q.AllCommitments P) ?_ hp
  intro done call rest q hl hq
  cases call with
  | add ec => exact hq.addVerifiedExecutorCommitment (hcalls ec (hl ▸ by simp))
  | process timeout => exact hq.processCommitmentsAndSwitch

theorem processCommitmentsAndSwitch_snd {order : Finset H → List H} {p : Pool N H M}
    {s : UInt16} {timeout : Bool} :
    (p.processCommitmentsAndSwitch resultsHash order c s timeout).2 =
      p.processCommitments resultsHash order c s timeout := by
  unfold Pool.processCommitmentsAndSwitch
  split
  · next h => exact h.symm
  · rfl

variable {hashing : BlockHashing H} {v : Verifier N H M} {blk : Block H}
  {order : Finset H → List H} {s : UInt16}

theorem reachable_new : (Pool.new : Pool N H M).Reachable resultsHash c hashing v blk order s :=
  ⟨[], by simp, rfl⟩

/-- A reachable pool stays reachable after a call, a commitment added only once it is
verified. -/
theorem Reachable.call {p : Pool N H M} (hp : p.Reachable resultsHash c hashing v blk order s)
    {call : PoolCall N H M} (hcall : ∀ ec, call = .add ec → verifyExecutorCommitment hashing v blk ec = .ok ()) :
    (p.call resultsHash order c s call).Reachable resultsHash c hashing v blk order s := by
  obtain ⟨calls, hcalls, rfl⟩ := hp
  refine ⟨calls ++ [call], fun ec hec => ?_, by simp [Pool.run]⟩
  rcases List.mem_append.mp hec with hold | hnew
  · exact hcalls ec hold
  · exact hcall ec (List.mem_singleton.mp hnew).symm

/-- Every commitment a reachable pool holds was verified against the latest block. -/
theorem Reachable.allCommitments {p : Pool N H M}
    (hp : p.Reachable resultsHash c hashing v blk order s) :
    p.AllCommitments fun ec => verifyExecutorCommitment hashing v blk ec = .ok () := by
  obtain ⟨calls, hcalls, rfl⟩ := hp
  exact (allCommitments_new _).run hcalls

/-- The scheduler's commitment that `ProcessCommitments` accepts on a reachable pool was
computed on the latest block. -/
theorem Reachable.isParentOf_of_processCommitments {p : Pool N H M}
    (hp : p.Reachable resultsHash c hashing v blk order s) {s' : UInt16} {timeout : Bool}
    {sc : SchedulerCommitment N H M} {ec : ExecutorCommitment N H M}
    (hok : p.processCommitments resultsHash order c s' timeout = .ok sc)
    (hec : sc.commitment = some ec) : ec.header.header.isParentOf hashing blk.header = true := by
  obtain ⟨-, rfl, -⟩ := processCommitments_eq_ok hok
  exact isParentOf_of_verifyExecutorCommitment (hp.allCommitments _ ec hec)

end Pool

end Commitments

/-- Headers that all hash to `0`. -/
def constHashing : BlockHashing ℕ := ⟨fun _ => 0, 0⟩

/-- Results that all hash to `7`. -/
def constResultsHash : ComputeResultsHeader ℕ → ℕ := fun _ => 7

/-- A runtime without a TEE whose messages, of type `Unit`, all validate. -/
def openVerifier : Verifier ℕ ℕ Unit :=
  ⟨fun _ => true, fun _ => true, fun _ => .ok (), 0, fun _ => 0, fun _ => .ok ()⟩

/-- A committee of one worker. -/
def soloCommittee : Committee ℕ := ⟨[⟨.worker, 10⟩]⟩

/-- The genesis block of round 0. -/
def soloBlock : Block ℕ := ⟨⟨0, [], 0, 0, .normal, 0, 0, 0, 0, 0⟩⟩

/-- The worker commits to its own proposal for round 1. -/
def soloOwn : ExecutorCommitment ℕ ℕ Unit :=
  ⟨10, ⟨10, ⟨1, 0, some 1, some 1, some 0, some 1, 0⟩, 0, none⟩, []⟩

/-- The pool after the worker's commitment. -/
def soloPool : Pool ℕ ℕ Unit :=
  Pool.new.run constResultsHash (fun _ => []) soloCommittee 0 [.add soloOwn]

theorem processCommitments_safe_solo :
    soloCommittee.NoRankOverflow (soloBlock.header.round + 1) ∧
    soloPool.Reachable constResultsHash soloCommittee constHashing openVerifier soloBlock
      (fun _ => []) 0 ∧
    soloPool.processCommitments constResultsHash (fun _ => []) soloCommittee 0 false =
      .ok (soloPool.schedulerCommitments.get 0) ∧
    ∃ ec, LeadsEntry constResultsHash soloCommittee (soloBlock.header.round + 1)
        soloPool.highestRank (soloPool.schedulerCommitments.get 0) ec ∧
      (soloPool.discrepancy = false → WorkersAgree soloCommittee
        (soloPool.schedulerCommitments.get 0).votes (ec.toVote constResultsHash) (0 : UInt16).toNat) ∧
      (soloPool.discrepancy = true → BackupMajority soloCommittee
        (soloPool.schedulerCommitments.get 0).votes (ec.toVote constResultsHash)) := by
  have hno : soloCommittee.NoRankOverflow (soloBlock.header.round + 1) := by decide
  have hreach : soloPool.Reachable constResultsHash soloCommittee constHashing openVerifier
      soloBlock (fun _ => []) 0 := by
    refine ⟨[.add soloOwn], fun ec hec => ?_, rfl⟩
    obtain rfl : ec = soloOwn := by simpa using hec
    decide
  have hok : soloPool.processCommitments constResultsHash (fun _ => []) soloCommittee 0 false =
      .ok (soloPool.schedulerCommitments.get 0) := by
    rfl
  exact ⟨hno, hreach, hok, Pool.processCommitments_safe hno hreach hok⟩

/-! ## Rounds at the end of the `uint64` range

A committee of three workers `10`, `11` and `12`, and the commitments of round
`2^64 - 1` after a block of round `2^64 - 2`, for the runtime of `openVerifier`. -/

/-- Three workers. -/
def wrapCommittee : Committee ℕ :=
  ⟨[⟨.worker, 10⟩, ⟨.worker, 11⟩, ⟨.worker, 12⟩]⟩

/-- The latest block, of round `2^64 - 2`. -/
def wrapBlock : Block ℕ :=
  ⟨⟨0, [], 0xfffffffffffffffe, 0, .normal, 0, 0, 0, 0, 0⟩⟩

def wrapResults : ComputeResultsHeader ℕ :=
  ⟨0xffffffffffffffff, 0, some 1, some 1, some 0, some 1, 0⟩

/-- Worker `11` votes for the proposal of `10`. -/
def wrapVote : ExecutorCommitment ℕ ℕ Unit := ⟨11, ⟨10, wrapResults, 0, none⟩, []⟩

/-- Worker `11` commits to its own proposal. -/
def wrapOwn : ExecutorCommitment ℕ ℕ Unit := ⟨11, ⟨11, wrapResults, 0, none⟩, []⟩

/-- At round `2^64 - 1` the ranks wrap, and `10` and `11` share rank 0. Both
commitments pass verification; `11`'s own then takes the lead and its `Add` fails,
as `11` voted in the entry of rank 0 already, so that `ProcessCommitments`
accepts that entry with no commitment in it, with two stragglers allowed among
three workers. -/
theorem processCommitments_nil_commitment_of_wrapped_rank :
    ¬ wrapCommittee.NoRankOverflow (wrapBlock.header.round + 1) ∧
    wrapCommittee.schedulerRank (wrapBlock.header.round + 1) 10 = some 0 ∧
    wrapCommittee.schedulerRank (wrapBlock.header.round + 1) 11 = some 0 ∧
    verifyExecutorCommitment constHashing openVerifier wrapBlock wrapVote = .ok () ∧
    verifyExecutorCommitment constHashing openVerifier wrapBlock wrapOwn = .ok () ∧
    ((Pool.new.addVerifiedExecutorCommitment constResultsHash wrapCommittee wrapVote).1
      |>.addVerifiedExecutorCommitment constResultsHash wrapCommittee wrapOwn).2 =
        .error .alreadyCommitted ∧
    ∃ sc, (Pool.new.run constResultsHash (fun _ => []) wrapCommittee 2
        [.add wrapVote, .add wrapOwn]).processCommitments constResultsHash (fun _ => [])
          wrapCommittee 2 false = .ok sc ∧
      sc.commitment = none := by
  refine ⟨by decide, by decide, by decide, by decide, by decide, by decide, _, rfl, ?_⟩
  rfl

/-- In the same round, `11`'s own commitment after its vote for `10` is rejected with
`ErrAlreadyCommitted`, yet the call has moved the lead from `MaxUint64` to rank 0 with
no commitment of its scheduler in the pool. -/
theorem addVerifiedExecutorCommitment_error_moves_highestRank :
    verifyExecutorCommitment constHashing openVerifier wrapBlock wrapVote = .ok () ∧
    verifyExecutorCommitment constHashing openVerifier wrapBlock wrapOwn = .ok () ∧
    ∃ p, (Pool.new : Pool ℕ ℕ Unit).addVerifiedExecutorCommitment constResultsHash
        wrapCommittee wrapVote = (p, .ok ()) ∧
      p.highestRank = maxRank ∧
      (p.addVerifiedExecutorCommitment constResultsHash wrapCommittee wrapOwn).2 =
        .error .alreadyCommitted ∧
      (p.addVerifiedExecutorCommitment constResultsHash wrapCommittee wrapOwn).1.highestRank = 0 ∧
      ((p.addVerifiedExecutorCommitment constResultsHash wrapCommittee wrapOwn).1
        |>.schedulerCommitments.get 0).commitment = none :=
  ⟨by decide, by decide, _, rfl, rfl, by decide, rfl, rfl⟩

/-- At round `2^64 - 1` the rotation wraps: `10` and `11` both have rank 0, where over the
integers `11` has rank `(2^64 - 1 + 1) % 3 = 1`, and `SchedulerIdx` of rank 0 is the index
of `10`, not of `11`. -/
theorem schedulerRank_wraps_at_last_round :
    wrapCommittee.schedulerRank 0xffffffffffffffff 10 = some 0 ∧
      wrapCommittee.schedulerRank 0xffffffffffffffff 11 = some 0 ∧
      ((0xffffffffffffffff : UInt64).toNat + 1) % 3 = 1 ∧
      wrapCommittee.schedulerIdx 0xffffffffffffffff 0 = some 0 := by
  decide

end Roothash

end OasisCore
