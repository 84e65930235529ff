import Mathlib.Data.Nat.ModEq
import Mathlib.Data.List.TakeWhile

/-!
# Executor committees

The committee of a runtime (`go/scheduler/api/api.go:79-262`): its members, each a
worker or a backup worker, and the scheduling order among the workers. The
election lists workers before backup workers; the lookups stop at the first
member of the other role, so they read the leading workers, or the trailing
backup workers, only.

`SchedulerRank` computes `(round + idx) % total` in `uint64`, so for rounds near
`2^64` the sum wraps and two workers can have the same rank. `SchedulerIdx`, its
inverse, reduces `round` modulo `total` first and does not wrap.

Node public keys are any type with decidable equality.
-/

namespace OasisCore

namespace Scheduler

/-- `Role` (`api.go:21-31`). -/
inductive Role where
  | invalid
  | worker
  | backupWorker
  deriving DecidableEq, Repr

/-- `CommitteeNode` (`api.go:78-85`). -/
structure CommitteeNode (N : Type) where
  role : Role
  publicKey : N
  deriving DecidableEq, Repr

/-- `Committee` (`api.go:137-150`); its kind, runtime and epoch are read by no
modelled function. -/
structure Committee (N : Type) where
  members : List (CommitteeNode N)
  deriving DecidableEq, Repr

namespace Committee

variable {N : Type} [DecidableEq N]

/-- `IsMember` (`api.go:152-160`). -/
def isMember (c : Committee N) (id : N) : Bool :=
  c.members.any (·.publicKey = id)

/-- The loop of `IsWorker` (`api.go:162-174`): stops at the first member that is not
a worker. -/
def isWorkerLoop (id : N) : List (CommitteeNode N) → Bool
  | [] => false
  | n :: ns => if n.role ≠ .worker then false else if n.publicKey = id then true
    else isWorkerLoop id ns

/-- `IsWorker` (`api.go:162-174`). -/
def isWorker (c : Committee N) (id : N) : Bool :=
  isWorkerLoop id c.members

/-- The loop of `IsBackupWorker` (`api.go:176-190`), from the last member back: stops
at the first member that is not a backup worker. -/
def isBackupWorkerLoop (id : N) : List (CommitteeNode N) → Bool
  | [] => false
  | n :: ns => if n.role ≠ .backupWorker then false else if n.publicKey = id then true
    else isBackupWorkerLoop id ns

/-- `IsBackupWorker` (`api.go:176-190`). -/
def isBackupWorker (c : Committee N) (id : N) : Bool :=
  isBackupWorkerLoop id c.members.reverse

/-- The loop of `SchedulerRank` (`api.go:238-253`) over the leading workers: the
number of workers counted so far, the index of the last one with key `id`, and
whether there was one. The counters are `uint64`. -/
def rankLoop (id : N) : List (CommitteeNode N) → UInt64 × UInt64 × Bool → UInt64 × UInt64 × Bool
  | [], acc => acc
  | n :: ns, (total, idx, isWorker) =>
    if n.role ≠ .worker then (total, idx, isWorker)
    else if n.publicKey = id then rankLoop id ns (total + 1, total, true)
    else rankLoop id ns (total + 1, idx, isWorker)

/-- `SchedulerRank` (`api.go:227-262`): the position of worker `id` in the
scheduling order of `round`, none for a node that is not a leading worker. -/
def schedulerRank (c : Committee N) (round : UInt64) (id : N) : Option UInt64 :=
  let (total, idx, isWorker) := rankLoop id c.members (0, 0, false)
  if !isWorker then none else some ((round + idx) % total)

/-- The worker count of `SchedulerIdx` (`api.go:208-215`), a `uint64`. -/
def workerTotal : List (CommitteeNode N) → UInt64
  | [] => 0
  | n :: ns => if n.role ≠ .worker then 0 else workerTotal ns + 1

/-- `SchedulerIdx` (`api.go:203-225`): the member index of the worker with rank
`rank` in the scheduling order of `round`. -/
def schedulerIdx (c : Committee N) (round rank : UInt64) : Option ℕ :=
  let total := workerTotal c.members
  if rank ≥ total then none else some ((rank + total - round % total) % total).toNat

/-! ## The scheduling order -/

/-- The leading workers, whom the scheduling order ranks. -/
def leadingWorkers (c : Committee N) : List (CommitteeNode N) :=
  c.members.takeWhile (·.role = .worker)

/-- The index of the last node with key `id`. -/
def lastIndexOf (id : N) : List (CommitteeNode N) → Option ℕ
  | [] => none
  | n :: ns =>
    match lastIndexOf id ns with
    | some j => some (j + 1)
    | none => if n.publicKey = id then some 0 else none

/-- What the rank loop computes from its counters: it adds the number of leading
workers to `total`, and moves `idx` to the last leading worker with key `id`. -/
theorem rankLoop_eq (id : N) (ns : List (CommitteeNode N)) (total idx : UInt64)
    (isWorker : Bool) :
    rankLoop id ns (total, idx, isWorker) =
      (total + UInt64.ofNat (ns.takeWhile (·.role = .worker)).length,
        ((lastIndexOf id (ns.takeWhile (·.role = .worker))).map
          fun j => total + UInt64.ofNat j).getD idx,
        isWorker || (lastIndexOf id (ns.takeWhile (·.role = .worker))).isSome) := by
  induction ns generalizing total idx isWorker with
  | nil => simp [rankLoop, lastIndexOf]
  | cons n ns ih =>
    by_cases hrole : n.role = .worker
    · have htake : (n :: ns).takeWhile (·.role = .worker) =
          n :: ns.takeWhile (·.role = .worker) := by
        simp [hrole]
      -- The counter moves one on, and the later workers are counted from there.
      have hcount : total + 1 + UInt64.ofNat (ns.takeWhile (·.role = .worker)).length =
          total + UInt64.ofNat (ns.takeWhile (·.role = .worker)).length.succ := by
        rw [Nat.succ_eq_add_one, UInt64.ofNat_add, UInt64.ofNat_one]
        ac_rfl
      rw [htake]
      cases hlast : lastIndexOf id (ns.takeWhile (·.role = .worker)) with
      | none =>
        by_cases hid : n.publicKey = id
        · simp [rankLoop, hrole, hid, ih, hlast, lastIndexOf, hcount]
        · simp [rankLoop, hrole, hid, ih, hlast, lastIndexOf, hcount]
      | some j =>
        have hidx : total + 1 + UInt64.ofNat j = total + UInt64.ofNat (j + 1) := by
          rw [UInt64.ofNat_add, UInt64.ofNat_one]
          ac_rfl
        by_cases hid : n.publicKey = id
        · simp [rankLoop, hrole, hid, ih, hlast, lastIndexOf, hcount, hidx]
        · simp [rankLoop, hrole, hid, ih, hlast, lastIndexOf, hcount, hidx]
    · simp [rankLoop, hrole, lastIndexOf]

/-- `SchedulerRank` in closed form: the last leading worker index of `id`, moved on
by the round, modulo the number of leading workers, all in `uint64`. -/
theorem schedulerRank_eq (c : Committee N) (round : UInt64) (id : N) :
    c.schedulerRank round id = (lastIndexOf id c.leadingWorkers).map
      fun j => (round + UInt64.ofNat j) % UInt64.ofNat c.leadingWorkers.length := by
  unfold schedulerRank leadingWorkers
  rw [rankLoop_eq]
  cases lastIndexOf id (c.members.takeWhile (·.role = .worker)) <;> simp

theorem lastIndexOf_spec {id : N} :
    ∀ {ns : List (CommitteeNode N)} {j : ℕ}, lastIndexOf id ns = some j →
      ∃ h : j < ns.length, (ns.get ⟨j, h⟩).publicKey = id
  | [], _, h => by simp [lastIndexOf] at h
  | n :: ns, j, h => by
    unfold lastIndexOf at h
    cases hlast : lastIndexOf id ns with
    | none =>
      rw [hlast] at h
      by_cases hid : n.publicKey = id
      · simp only [hid, if_true, Option.some.injEq] at h
        subst h
        exact ⟨by simp, by simpa using hid⟩
      · simp [hid] at h
    | some i =>
      rw [hlast] at h
      obtain ⟨hi, hget⟩ := lastIndexOf_spec hlast
      simp only [Option.some.injEq] at h
      subst h
      exact ⟨by simpa using hi, by simpa using hget⟩

/-- A node with a rank is a worker of the committee. -/
theorem schedulerRank_worker {c : Committee N} {round rank : UInt64} {id : N}
    (h : c.schedulerRank round id = some rank) :
    ∃ n ∈ c.members, n.role = .worker ∧ n.publicKey = id := by
  rw [schedulerRank_eq] at h
  obtain ⟨j, hj, -⟩ := Option.map_eq_some_iff.mp h
  obtain ⟨hlt, hkey⟩ := lastIndexOf_spec hj
  have hmem : c.leadingWorkers.get ⟨j, hlt⟩ ∈ c.leadingWorkers := List.get_mem _ _
  refine ⟨_, (List.takeWhile_sublist _).subset hmem, ?_, hkey⟩
  simpa using List.mem_takeWhile_imp hmem

/-- The ranks of a round do not wrap when the round plus the number of leading
workers stays below `2^64`. -/
def NoRankOverflow (c : Committee N) (round : UInt64) : Prop :=
  round.toNat + c.leadingWorkers.length < 2 ^ 64

instance (c : Committee N) (round : UInt64) : Decidable (c.NoRankOverflow round) :=
  inferInstanceAs (Decidable (_ < _))

/-- Without overflow a rank is the rotation `(round + idx) % total` over the
naturals. -/
theorem schedulerRank_toNat {c : Committee N} {round rank : UInt64} {id : N}
    (hno : c.NoRankOverflow round) (h : c.schedulerRank round id = some rank) :
    ∃ j, lastIndexOf id c.leadingWorkers = some j ∧ j < c.leadingWorkers.length ∧
      rank.toNat = (round.toNat + j) % c.leadingWorkers.length := by
  rw [schedulerRank_eq] at h
  obtain ⟨j, hj, hrank⟩ := Option.map_eq_some_iff.mp h
  obtain ⟨hlt, -⟩ := lastIndexOf_spec hj
  refine ⟨j, hj, hlt, ?_⟩
  unfold NoRankOverflow at hno
  have hlen : (UInt64.ofNat c.leadingWorkers.length).toNat = c.leadingWorkers.length :=
    UInt64.toNat_ofNat_of_lt' (by simp [UInt64.size]; omega)
  have hj' : (UInt64.ofNat j).toNat = j := UInt64.toNat_ofNat_of_lt' (by simp [UInt64.size]; omega)
  have hsum : (round + UInt64.ofNat j).toNat = round.toNat + j := by
    rw [UInt64.toNat_add, hj']
    exact Nat.mod_eq_of_lt (by omega)
  rw [← hrank, UInt64.toNat_mod, hsum, hlen]

/-- Without overflow a rank is below the number of leading workers. -/
theorem schedulerRank_lt {c : Committee N} {round rank : UInt64} {id : N}
    (hno : c.NoRankOverflow round) (h : c.schedulerRank round id = some rank) :
    rank.toNat < c.leadingWorkers.length := by
  obtain ⟨j, -, hlt, hrank⟩ := schedulerRank_toNat hno h
  rw [hrank]
  exact Nat.mod_lt _ (by omega)

/-- Without overflow the scheduling order is a rotation, so no two nodes share a
rank. -/
theorem schedulerRank_injective {c : Committee N} {round rank : UInt64} {a b : N}
    (hno : c.NoRankOverflow round) (ha : c.schedulerRank round a = some rank)
    (hb : c.schedulerRank round b = some rank) : a = b := by
  obtain ⟨i, hi, hilt, hrank⟩ := schedulerRank_toNat hno ha
  obtain ⟨j, hj, hjlt, hrank'⟩ := schedulerRank_toNat hno hb
  have hij : i = j := (Nat.ModEq.add_left_cancel' _ (hrank.symm.trans hrank')).eq_of_lt_of_lt hilt hjlt
  subst hij
  obtain ⟨h1, hkey⟩ := lastIndexOf_spec hi
  obtain ⟨h2, hkey'⟩ := lastIndexOf_spec hj
  rw [← hkey, ← hkey']

omit [DecidableEq N] in
/-- The worker count of `SchedulerIdx` is the number of leading workers, in `uint64`. -/
theorem workerTotal_eq : ∀ ns : List (CommitteeNode N),
    workerTotal ns = UInt64.ofNat (ns.takeWhile (·.role = .worker)).length
  | [] => rfl
  | n :: ns => by
    by_cases hrole : n.role = .worker
    · rw [workerTotal, if_neg (not_not.mpr hrole), workerTotal_eq ns]
      simp [hrole, UInt64.ofNat_add]
    · simp [workerTotal, hrole]

/-- Turning a rotation by `a` back: from `(a + j) % w` and `a`, `j` is recovered. -/
theorem rotate_sub_mod {w a j : ℕ} (ha : a < w) (hj : j < w) :
    ((a + j) % w + w - a) % w = j := by
  by_cases hlt : a + j < w
  · rw [Nat.mod_eq_of_lt hlt, show a + j + w - a = j + w by omega, Nat.add_mod_right,
      Nat.mod_eq_of_lt hj]
  · have hmod : (a + j) % w = a + j - w := by
      rw [Nat.mod_eq_sub_mod (by omega), Nat.mod_eq_of_lt (by omega)]
    rw [hmod, show a + j - w + w - a = j by omega, Nat.mod_eq_of_lt hj]

/-- Without overflow, `SchedulerIdx` turns a worker's rank back into its index among the
leading workers. -/
theorem schedulerIdx_schedulerRank {c : Committee N} {round rank : UInt64} {id : N}
    (hno : c.NoRankOverflow round) (hsize : 2 * c.leadingWorkers.length ≤ 2 ^ 64)
    (h : c.schedulerRank round id = some rank) :
    ∃ j, lastIndexOf id c.leadingWorkers = some j ∧ c.schedulerIdx round rank = some j := by
  obtain ⟨j, hj, hlt, hrank⟩ := schedulerRank_toNat hno h
  refine ⟨j, hj, ?_⟩
  unfold NoRankOverflow at hno
  have htotal : (workerTotal c.members).toNat = c.leadingWorkers.length := by
    rw [workerTotal_eq]
    exact UInt64.toNat_ofNat_of_lt' (by simp [UInt64.size, leadingWorkers] at hno ⊢; omega)
  have hpos : 0 < c.leadingWorkers.length := by omega
  have hrank_lt : rank.toNat < c.leadingWorkers.length := by
    rw [hrank]
    exact Nat.mod_lt _ hpos
  have hround : (round % workerTotal c.members).toNat = round.toNat % c.leadingWorkers.length := by
    rw [UInt64.toNat_mod, htotal]
  have hsum : (rank + workerTotal c.members).toNat = rank.toNat + c.leadingWorkers.length := by
    rw [UInt64.toNat_add, htotal]
    exact Nat.mod_eq_of_lt (by omega)
  have hround_le : round % workerTotal c.members ≤ rank + workerTotal c.members := by
    rw [UInt64.le_iff_toNat_le, hround, hsum]
    have := Nat.mod_lt round.toNat hpos
    omega
  unfold schedulerIdx
  have hin : ¬ rank ≥ workerTotal c.members :=
    UInt64.not_le.mpr (UInt64.lt_iff_toNat_lt.mpr (by rw [htotal]; exact hrank_lt))
  rw [if_neg hin, Option.some.injEq, UInt64.toNat_mod, UInt64.toNat_sub_of_le _ _ hround_le,
    hsum, hround, htotal, hrank, ← Nat.mod_add_mod]
  exact rotate_sub_mod (Nat.mod_lt _ hpos) hlt

end Committee

end Scheduler

end OasisCore
