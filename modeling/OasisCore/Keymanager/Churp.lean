import Mathlib.Data.List.Sort
import OasisCore.Misc.Except
import OasisCore.Misc.FinMap

/-!
# CHURP handoffs

The CHURP extension of the key manager application
(`go/consensus/cometbft/apps/keymanager/churp`): the `Status` of a scheme
(`go/keymanager/churp/status.go`), the transactions that create a scheme, apply for
the next committee and confirm a reconstructed share (`txs.go`), the finalization
and the reset of a handoff, and the epoch change that closes applications and ends
handoffs (`epoch.go`).

Epochs are `uint64`, and `HandoffsDisabled` is the invalid epoch `2^64 - 1`. Node
registration and the runtime attestation key signature are checked against the
registry; their verdict is an input of `apply` and `confirm`. Gas, simulation and
`CheckTx` runs change nothing and are left out, as are the identity, the suite and
the policy of a scheme, which no modelled check reads.

The committee is collected from a Go map and then sorted, so the order of the walk
over the applications is an `IterOrder`: every result holds for each order.
-/

namespace OasisCore

namespace Keymanager

namespace Churp

/-- `beacon.EpochTime`. -/
abbrev EpochTime := UInt64

/-- `HandoffsDisabled` (`status.go:14-16`): `beacon.EpochInvalid`. -/
def handoffsDisabled : EpochTime := 0xffffffffffffffff

/-- `maxThreshold` (`requests.go:13-17`). -/
def maxThreshold : UInt8 := 127

/-- `signature.PublicKey`: 32 bytes. -/
abbrev PublicKey := Vector UInt8 32

/-- The comparison of `tryFinalizeHandoff`'s sort (`txs.go:516-523`): the first
differing byte decides. -/
def keyLess (a b : PublicKey) : Bool :=
  match (List.finRange 32).find? (fun k => a[k] != b[k]) with
  | some k => a[k] < b[k]
  | none => false

/-- `HandoffKind` (`status.go:143-165`, `go/keymanager/churp/handoff.go`). -/
inductive HandoffKind where
  | dealingPhase
  | committeeUnchanged
  | committeeChanged
  deriving DecidableEq, Repr

/-- `Application` (`status.go:200-209`). -/
structure Application (H : Type) where
  checksum : H
  reconstructed : Bool
  deriving DecidableEq, Repr

instance {H : Type} [Inhabited H] : Inhabited (Application H) := ⟨⟨default, false⟩⟩

/-- `Status` (`status.go:60-141`): the handoff schedule of a scheme, with the
applications to the next committee as a Go map. -/
structure Status (H : Type) [Inhabited H] where
  threshold : UInt8
  extraShares : UInt8
  handoffInterval : EpochTime
  handoff : EpochTime
  checksum : Option H
  committee : List PublicKey
  nextHandoff : EpochTime
  nextChecksum : Option H
  applications : FinMap PublicKey (Application H)

/-- The errors of `create`, `apply` and `confirm`. -/
inductive ChurpError (H : Type) where
  | thresholdTooLarge (got : UInt8)
  | handoffsDisabled
  | submissionsClosed
  | invalidHandoff (got expected : EpochTime)
  | applicationAlreadySubmitted
  | confirmationsClosed
  | applicationNotFound
  | confirmationAlreadySubmitted
  | checksumMismatch (got expected : H)
  /-- The node is not a registered key manager, or its signature does not verify. -/
  | notAttested
  deriving DecidableEq, Repr

namespace Status

variable {H : Type} [Inhabited H]

/-- `HandoffsDisabled` (`status.go:194-198`): a zero handoff interval. -/
def handoffsDisabled (s : Status H) : Bool :=
  s.handoffInterval == 0

/-- `HandoffKind` (`status.go:143-165`): who applied, against the current committee. -/
def handoffKind (s : Status H) : HandoffKind :=
  if s.committee.length = 0 then .dealingPhase
  else if s.committee.length ≠ s.applications.keys.card then .committeeChanged
  else if s.committee.all (· ∈ s.applications.keys) then .committeeUnchanged
  else .committeeChanged

/-- `MinCommitteeSize` (`status.go:167-172`): `t + e + 1`. -/
def minCommitteeSize (s : Status H) : ℕ :=
  s.threshold.toNat + s.extraShares.toNat + 1

/-- `MinApplicants` (`status.go:174-192`). -/
def minApplicants (s : Status H) : ℕ :=
  let t := s.threshold.toNat
  let e := s.extraShares.toNat
  match s.handoffKind with
  | .dealingPhase => max (t + e + 1) (t + 2)
  | .committeeUnchanged => t + e + 1
  | .committeeChanged => max (t + e + 1) (2 * t + 1)

end Status

variable {H : Type} [Inhabited H] [DecidableEq H]

/-- `create` (`txs.go:23-127`) at epoch `now`: the first handoff is in the next
epoch, or never with a zero interval. -/
def create (now : EpochTime) (threshold extraShares : UInt8) (handoffInterval : EpochTime) :
    Except (ChurpError H) (Status H) :=
  if threshold > maxThreshold then .error (.thresholdTooLarge threshold)
  else .ok {
    threshold, extraShares, handoffInterval
    handoff := 0
    checksum := none
    committee := []
    nextHandoff := if handoffInterval = 0 then handoffsDisabled else now + 1
    nextChecksum := none
    applications := FinMap.empty }

/-- `apply` (`txs.go:232-315`) by `node` at epoch `now`: applications are open in the
epoch before the handoff, one per node. -/
def apply (s : Status H) (now : EpochTime) (node : PublicKey) (epoch : EpochTime)
    (checksum : H) (attested : Bool) : Except (ChurpError H) (Status H) :=
  if s.handoffsDisabled then .error .handoffsDisabled
  else if s.nextHandoff ≠ now + 1 then .error .submissionsClosed
  else if s.nextHandoff ≠ epoch then .error (.invalidHandoff epoch s.nextHandoff)
  else if node ∈ s.applications.keys then .error .applicationAlreadySubmitted
  else if !attested then .error .notAttested
  else .ok { s with applications := s.applications.set node ⟨checksum, false⟩ }

/-- The committee `tryFinalizeHandoff` collects (`txs.go:500-506`): the applicants that
confirmed, in the order of the walk over the map. -/
def collectCommittee (order : IterOrder PublicKey) (s : Status H) : List PublicKey :=
  (order.enum s.applications.keys).filter fun node => (s.applications.get node).reconstructed

/-- The next handoff `tryFinalizeHandoff` schedules (`txs.go:525-534`): one interval
after this one unless the previous handoff is within an interval of the end of time,
and with interval one an extra epoch when the handoff ends with the epoch. -/
def scheduleNextHandoff (s : Status H) (epochChange : Bool) : EpochTime :=
  let nextHandoff :=
    if s.handoff < handoffsDisabled - s.handoffInterval then s.nextHandoff + s.handoffInterval
    else handoffsDisabled
  if epochChange && s.handoffInterval == 1 && nextHandoff < handoffsDisabled then nextHandoff + 1
  else nextHandoff

/-- `tryFinalizeHandoff` (`txs.go:499-552`): with enough confirmed applicants (and,
within the handoff epoch, all of them) the confirmed ones become the committee and
the next handoff is scheduled; an overflow disables handoffs. The flag says whether
it finalized; otherwise the status is unchanged. -/
def tryFinalizeHandoff (order : IterOrder PublicKey) (s : Status H) (epochChange : Bool) :
    Status H × Bool :=
  let committee := collectCommittee order s
  if committee.length < s.minCommitteeSize then (s, false)
  else if !epochChange && committee.length ≠ s.applications.keys.card then (s, false)
  else
    let nextHandoff := scheduleNextHandoff s epochChange
    ({ s with
      handoffInterval := if nextHandoff = handoffsDisabled then 0 else s.handoffInterval
      handoff := s.nextHandoff
      checksum := s.nextChecksum
      committee := committee.mergeSort fun a b => !keyLess b a
      nextHandoff
      nextChecksum := none
      applications := FinMap.empty }, true)

/-- `resetHandoff` (`txs.go:554-558`). -/
def resetHandoff (s : Status H) (nextHandoff : EpochTime) : Status H :=
  { s with nextHandoff, nextChecksum := none, applications := FinMap.empty }

/-- `confirm` (`txs.go:317-429`) by `node` at epoch `now`: in the handoff epoch each
applicant confirms once, with the checksum of the first confirmation; the last
confirmation finalizes the handoff. -/
def confirm (order : IterOrder PublicKey) (s : Status H) (now : EpochTime) (node : PublicKey)
    (epoch : EpochTime) (checksum : H) (attested : Bool) : Except (ChurpError H) (Status H) :=
  if s.handoffsDisabled then .error .handoffsDisabled
  else if s.nextHandoff ≠ now then .error .confirmationsClosed
  else if s.nextHandoff ≠ epoch then .error (.invalidHandoff epoch s.nextHandoff)
  else match s.applications.lookup node with
    | none => .error .applicationNotFound
    | some app =>
      if app.reconstructed then .error .confirmationAlreadySubmitted
      else match s.nextChecksum with
        | some expected =>
          if checksum ≠ expected then .error (.checksumMismatch checksum expected)
          else if !attested then .error .notAttested
          else .ok (tryFinalizeHandoff order { s with
            applications := s.applications.set node ⟨app.checksum, true⟩ } false).1
        | none =>
          if !attested then .error .notAttested
          else .ok (tryFinalizeHandoff order { s with
            nextChecksum := some checksum
            applications := s.applications.set node ⟨app.checksum, true⟩ } false).1

/-- `onEpochChange` (`epoch.go:13-71`) of one status at the new `epoch`: at the handoff
epoch too few applicants restart the collection, and at the end of the handoff epoch
the handoff is finalized or restarted. -/
def onEpochChange (order : IterOrder PublicKey) (epoch : EpochTime) (s : Status H) : Status H :=
  if s.handoffsDisabled then s
  else if epoch = s.nextHandoff then
    if s.applications.keys.card ≥ s.minApplicants then s else resetHandoff s (epoch + 1)
  else if epoch = s.nextHandoff + 1 then
    let (s', completed) := tryFinalizeHandoff order s true
    if completed then s' else resetHandoff s' (epoch + 1)
  else s

/-! ## Runs -/

/-- What happens to a scheme: a transaction, or an epoch change to the next epoch. -/
inductive Event (H : Type) where
  | apply (node : PublicKey) (epoch : EpochTime) (checksum : H) (attested : Bool)
  | confirm (node : PublicKey) (epoch : EpochTime) (checksum : H) (attested : Bool)
  | epochChange

/-- One event at epoch `now`; a failed transaction changes nothing. -/
def step (order : IterOrder PublicKey) (st : EpochTime × Status H) : Event H →
    EpochTime × Status H
  | .apply node epoch checksum attested =>
    match apply st.2 st.1 node epoch checksum attested with
    | .ok s => (st.1, s)
    | .error _ => st
  | .confirm node epoch checksum attested =>
    match confirm order st.2 st.1 node epoch checksum attested with
    | .ok s => (st.1, s)
    | .error _ => st
  | .epochChange => (st.1 + 1, onEpochChange order (st.1 + 1) st.2)

/-- A run of events from epoch `now`. -/
def run (order : IterOrder PublicKey) (st : EpochTime × Status H) (events : List (Event H)) :
    EpochTime × Status H :=
  events.foldl (step order) st

/-! ## What a finalization does -/

namespace Status

/-- The applicants that confirmed. -/
def confirmed (s : Status H) : Finset PublicKey :=
  s.applications.keys.filter fun node => (s.applications.get node).reconstructed

/-- When `tryFinalizeHandoff` finalizes: at least `t + e + 1` confirmed applicants,
and within the handoff epoch every applicant confirmed. -/
def CanFinalize (s : Status H) (epochChange : Bool) : Prop :=
  s.minCommitteeSize ≤ s.confirmed.card ∧
    (epochChange = true ∨ s.confirmed.card = s.applications.keys.card)

instance (s : Status H) (epochChange : Bool) : Decidable (s.CanFinalize epochChange) :=
  inferInstanceAs (Decidable (_ ∧ _))

end Status

section Finalize

variable (order : IterOrder PublicKey) {s : Status H} {epochChange : Bool}

omit [DecidableEq H] in
theorem nodup_collectCommittee (s : Status H) : (collectCommittee order s).Nodup :=
  (order.nodup_enum _).filter _

omit [DecidableEq H] in
theorem mem_collectCommittee {node : PublicKey} :
    node ∈ collectCommittee order s ↔ node ∈ s.confirmed := by
  simp [collectCommittee, Status.confirmed, order.mem_enum]

omit [DecidableEq H] in
theorem length_collectCommittee (s : Status H) :
    (collectCommittee order s).length = s.confirmed.card := by
  rw [← List.toFinset_card_of_nodup (nodup_collectCommittee order s)]
  congr 1
  ext node
  rw [List.mem_toFinset, mem_collectCommittee]

omit [DecidableEq H] in
theorem tryFinalizeHandoff_of_not (h : ¬ s.CanFinalize epochChange) :
    tryFinalizeHandoff order s epochChange = (s, false) := by
  unfold tryFinalizeHandoff
  dsimp only
  rw [length_collectCommittee]
  by_cases hmin : s.confirmed.card < s.minCommitteeSize
  · rw [if_pos hmin]
  · have hall : (!epochChange && decide (s.confirmed.card ≠ s.applications.keys.card)) = true := by
      cases epochChange
      · simpa [Status.CanFinalize, not_lt.mp hmin] using h
      · simp [Status.CanFinalize, not_lt.mp hmin] at h
    rw [if_neg hmin, if_pos hall]

omit [DecidableEq H] in
theorem tryFinalizeHandoff_of_canFinalize (h : s.CanFinalize epochChange) :
    tryFinalizeHandoff order s epochChange =
      ({ s with
        handoffInterval :=
          if scheduleNextHandoff s epochChange = handoffsDisabled then 0 else s.handoffInterval
        handoff := s.nextHandoff
        checksum := s.nextChecksum
        committee := (collectCommittee order s).mergeSort fun a b => !keyLess b a
        nextHandoff := scheduleNextHandoff s epochChange
        nextChecksum := none
        applications := FinMap.empty }, true) := by
  obtain ⟨hmin, hall⟩ := h
  have hnot : (!epochChange && decide (s.confirmed.card ≠ s.applications.keys.card)) = false := by
    rcases hall with rfl | hall
    · rfl
    · simp [hall]
  unfold tryFinalizeHandoff
  dsimp only
  rw [length_collectCommittee, if_neg (not_lt.mpr hmin), if_neg (by rw [hnot]; decide)]

omit [DecidableEq H] in
/-- `tryFinalizeHandoff` finalizes exactly when it can. -/
theorem tryFinalizeHandoff_snd :
    (tryFinalizeHandoff order s epochChange).2 = true ↔ s.CanFinalize epochChange := by
  by_cases h : s.CanFinalize epochChange
  · simp [tryFinalizeHandoff_of_canFinalize order h, h]
  · simp [tryFinalizeHandoff_of_not order h, h]

omit [DecidableEq H] in
/-- The new committee holds each confirmed applicant once. -/
theorem committee_tryFinalizeHandoff (h : s.CanFinalize epochChange) :
    (tryFinalizeHandoff order s epochChange).1.committee.Nodup ∧
      ∀ node, node ∈ (tryFinalizeHandoff order s epochChange).1.committee ↔
        node ∈ s.confirmed := by
  rw [tryFinalizeHandoff_of_canFinalize order h]
  have hperm := List.mergeSort_perm (collectCommittee order s) fun a b => !keyLess b a
  refine ⟨hperm.nodup_iff.mpr (nodup_collectCommittee order s), fun node => ?_⟩
  rw [hperm.mem_iff, mem_collectCommittee]

omit [DecidableEq H] in
/-- Where the sum of the handoff and the interval fits in 64 bits, the scheduled handoff
is later than the finalized one, or handoffs end. -/
theorem scheduleNextHandoff_gt {s : Status H} (hint : s.handoffInterval ≠ 0)
    (hfit : s.nextHandoff.toNat + s.handoffInterval.toNat < 2 ^ 64 - 1) :
    scheduleNextHandoff s epochChange = handoffsDisabled ∨
      s.nextHandoff < scheduleNextHandoff s epochChange := by
  have hpos : 0 < s.handoffInterval.toNat := by
    rwa [Nat.pos_iff_ne_zero, ne_eq, ← UInt64.toNat_zero, UInt64.toNat_inj]
  have hsum : (s.nextHandoff + s.handoffInterval).toNat =
      s.nextHandoff.toNat + s.handoffInterval.toNat := by
    rw [UInt64.toNat_add, Nat.mod_eq_of_lt (by omega)]
  unfold scheduleNextHandoff
  by_cases hguard : s.handoff < handoffsDisabled - s.handoffInterval
  · rw [if_pos hguard]
    by_cases hextra : (epochChange && s.handoffInterval == 1 &&
        decide (s.nextHandoff + s.handoffInterval < handoffsDisabled)) = true
    · rw [if_pos hextra]
      right
      have hlt : (s.nextHandoff + s.handoffInterval).toNat + 1 < 2 ^ 64 := by
        rw [hsum]
        omega
      rw [UInt64.lt_iff_toNat_lt, UInt64.toNat_add, UInt64.toNat_one, Nat.mod_eq_of_lt hlt,
        hsum]
      omega
    · rw [if_neg hextra]
      right
      rw [UInt64.lt_iff_toNat_lt, hsum]
      omega
  · rw [if_neg hguard]
    left
    have hextra : (epochChange && s.handoffInterval == 1 &&
        decide (handoffsDisabled < handoffsDisabled)) = false := by
      simp
    rw [if_neg (by rw [hextra]; decide)]

end Finalize

/-! ## What a step can do -/

section Steps

variable (order : IterOrder PublicKey) {s s' : Status H} {now epoch : EpochTime}
  {node : PublicKey} {checksum : H} {attested : Bool}

omit [DecidableEq H] in
theorem apply_eq_ok :
    apply s now node epoch checksum attested = .ok s' ↔
      s.handoffInterval ≠ 0 ∧ s.nextHandoff = now + 1 ∧ s.nextHandoff = epoch ∧
        node ∉ s.applications.keys ∧ attested = true ∧
        s' = { s with applications := s.applications.set node ⟨checksum, false⟩ } := by
  simp only [apply, Status.handoffsDisabled, Except.ite_error_eq_ok, beq_iff_eq, ne_eq,
    not_not, Bool.not_eq_true', Bool.not_eq_false, Except.ok.injEq]
  constructor
  · rintro ⟨h1, h2, h3, h4, h5, rfl⟩
    exact ⟨h1, h2, h3, h4, h5, rfl⟩
  · rintro ⟨h1, h2, h3, h4, h5, rfl⟩
    exact ⟨h1, h2, h3, h4, h5, rfl⟩

/-- A successful confirmation comes in the handoff epoch from an applicant that has not
confirmed, with the checksum of the first confirmation; it marks the applicant and
then tries to finalize. -/
theorem confirm_eq_ok (h : confirm order s now node epoch checksum attested = .ok s') :
    s.handoffInterval ≠ 0 ∧ s.nextHandoff = now ∧ s.nextHandoff = epoch ∧ attested = true ∧
      (∀ c, s.nextChecksum = some c → checksum = c) ∧
      ∃ app, s.applications.lookup node = some app ∧ app.reconstructed = false ∧
        s' = (tryFinalizeHandoff order { s with
          nextChecksum := some (s.nextChecksum.getD checksum)
          applications := s.applications.set node ⟨app.checksum, true⟩ } false).1 := by
  unfold confirm at h
  simp only [Status.handoffsDisabled, Except.ite_error_eq_ok, beq_iff_eq, ne_eq, not_not] at h
  obtain ⟨hint, hnow, hepoch, h⟩ := h
  refine ⟨hint, hnow, hepoch, ?_⟩
  cases hlookup : s.applications.lookup node with
  | none => simp [hlookup] at h
  | some app =>
    rw [hlookup] at h
    simp only at h
    rw [Except.ite_error_eq_ok] at h
    obtain ⟨hfresh, h⟩ := h
    cases hnext : s.nextChecksum with
    | none =>
      rw [hnext] at h
      simp only [Except.ite_error_eq_ok, Bool.not_eq_true', Bool.not_eq_false,
        Except.ok.injEq] at h
      obtain ⟨hatt, rfl⟩ := h
      exact ⟨hatt, by simp, app, rfl, by simpa using hfresh, rfl⟩
    | some expected =>
      rw [hnext] at h
      simp only [Except.ite_error_eq_ok, not_not, Bool.not_eq_true', Bool.not_eq_false,
        Except.ok.injEq] at h
      obtain ⟨rfl, hatt, rfl⟩ := h
      exact ⟨hatt, by simp, app, rfl, by simpa using hfresh, rfl⟩

omit [DecidableEq H] in
/-- The epoch change at `epoch` leaves the status, restarts the collection in the next
epoch when too few applied by the handoff epoch, or at the end of the handoff epoch
finalizes the handoff if it can and restarts it otherwise. -/
theorem onEpochChange_cases (epoch : EpochTime) (s : Status H) :
    onEpochChange order epoch s = s ∨
      (s.handoffInterval ≠ 0 ∧ epoch = s.nextHandoff ∧
        s.applications.keys.card < s.minApplicants ∧
        onEpochChange order epoch s = resetHandoff s (epoch + 1)) ∨
      (s.handoffInterval ≠ 0 ∧ epoch = s.nextHandoff + 1 ∧ s.CanFinalize true ∧
        onEpochChange order epoch s = (tryFinalizeHandoff order s true).1) ∨
      (s.handoffInterval ≠ 0 ∧ epoch = s.nextHandoff + 1 ∧ ¬ s.CanFinalize true ∧
        onEpochChange order epoch s = resetHandoff s (epoch + 1)) := by
  unfold onEpochChange
  by_cases hdis : s.handoffsDisabled = true
  · exact .inl (if_pos hdis)
  have hint : s.handoffInterval ≠ 0 := by simpa [Status.handoffsDisabled] using hdis
  rw [if_neg hdis]
  by_cases hat : epoch = s.nextHandoff
  · rw [if_pos hat]
    by_cases henough : s.applications.keys.card ≥ s.minApplicants
    · exact .inl (if_pos henough)
    · exact .inr (.inl ⟨hint, hat, not_le.mp henough, if_neg henough⟩)
  · rw [if_neg hat]
    by_cases hend : epoch = s.nextHandoff + 1
    · rw [if_pos hend]
      by_cases hcan : s.CanFinalize true
      · refine .inr (.inr (.inl ⟨hint, hend, hcan, ?_⟩))
        simp [tryFinalizeHandoff_snd order, hcan]
      · refine .inr (.inr (.inr ⟨hint, hend, hcan, ?_⟩))
        simp [tryFinalizeHandoff_of_not order hcan]
    · exact .inl (if_neg hend)

omit [DecidableEq H] in
/-- Within the handoff epoch a finalization needs every applicant's confirmation. -/
theorem confirmed_eq_keys (h : s.CanFinalize false) : s.confirmed = s.applications.keys := by
  obtain ⟨-, hall⟩ := h
  have hcard : s.confirmed.card = s.applications.keys.card := by simpa using hall
  exact Finset.eq_of_subset_of_card_le (Finset.filter_subset _ _) hcard.ge

end Steps

/-! ## The schedule wraps around

The guard of `tryFinalizeHandoff` compares the previous handoff with
`HandoffsDisabled - HandoffInterval`, but the sum it protects is taken from the handoff
being finalized. In the first handoff the previous one is epoch 0, so the guard
passes for every interval below `2^64 - 1`, and a long interval wraps the next
handoff around to an epoch before the one just finalized, with handoffs still
enabled. -/

section Wrap

/-- Two key manager nodes. -/
def nodeA : PublicKey := Vector.replicate 32 1

def nodeB : PublicKey := Vector.replicate 32 2

/-- A handoff interval of `2^64 - 5` epochs. -/
def wrapInterval : EpochTime := 0xfffffffffffffffb

/-- The scheme created in epoch 10 with threshold and extra shares zero. -/
def wrapCreated : Status ℕ where
  threshold := 0
  extraShares := 0
  handoffInterval := wrapInterval
  handoff := 0
  checksum := none
  committee := []
  nextHandoff := 11
  nextChecksum := none
  applications := FinMap.empty

/-- Both nodes applied for the handoff of epoch 11. -/
def wrapApplied : Status ℕ :=
  { wrapCreated with
    applications := (FinMap.empty.set nodeA ⟨7, false⟩).set nodeB ⟨7, false⟩ }

/-- The first node confirmed. -/
def wrapConfirmed : Status ℕ :=
  { wrapApplied with
    nextChecksum := some 7
    applications := wrapApplied.applications.set nodeA ⟨7, true⟩ }

/-- In epoch 10 both nodes apply for the first handoff, the epoch changes to the handoff
epoch 11, and both confirm. -/
def wrapEvents : List (Event ℕ) :=
  [.apply nodeA 11 7 true, .apply nodeB 11 7 true, .epochChange,
    .confirm nodeA 11 7 true, .confirm nodeB 11 7 true]

/-- The run finalizes the handoff of epoch 11 and schedules the next one in epoch 6,
with handoffs enabled: neither disabled nor after the current epoch. -/
theorem nextHandoff_wraps (order : IterOrder PublicKey) :
    ∃ s₀ : Status ℕ, create 10 0 0 wrapInterval = .ok s₀ ∧
      (run order (10, s₀) wrapEvents).1 = 11 ∧
      (run order (10, s₀) wrapEvents).2.handoff = 11 ∧
      (run order (10, s₀) wrapEvents).2.handoffInterval = wrapInterval ∧
      (run order (10, s₀) wrapEvents).2.nextHandoff = 6 := by
  have hcreate : create 10 0 0 wrapInterval = .ok wrapCreated := rfl
  have hfirst : confirm order wrapApplied 11 nodeA 11 7 true =
      .ok (tryFinalizeHandoff order wrapConfirmed false).1 := rfl
  have hsecond : confirm order wrapConfirmed 11 nodeB 11 7 true =
      .ok (tryFinalizeHandoff order { wrapConfirmed with
        applications := wrapConfirmed.applications.set nodeB ⟨7, true⟩ } false).1 := rfl
  -- The applications and the epoch change evaluate; the confirmations go through the
  -- finalization lemmas, as the committee depends on the walk over the map.
  have hrun : run order (10, wrapCreated) wrapEvents =
      step order (step order (11, wrapApplied) (.confirm nodeA 11 7 true))
        (.confirm nodeB 11 7 true) := rfl
  rw [tryFinalizeHandoff_of_not order (by decide)] at hfirst
  rw [tryFinalizeHandoff_of_canFinalize order (by decide)] at hsecond
  refine ⟨wrapCreated, hcreate, ?_⟩
  rw [hrun]
  simp only [step, hfirst, hsecond]
  decide

end Wrap

end Churp

end Keymanager

end OasisCore
