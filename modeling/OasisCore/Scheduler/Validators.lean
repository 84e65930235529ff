import Mathlib.Data.Nat.Sqrt
import OasisCore.Misc.FinMap
import OasisCore.Misc.Except
import OasisCore.Misc.List
import OasisCore.Staking.SharePool

/-!
# Validator set updates

At an epoch change the scheduler application elects the validators and records them as
pending, each with its voting power (`go/consensus/cometbft/apps/scheduler/scheduler.go:
589-631`). At the end of the next block it hands CometBFT the difference between the set
it handed over last and the pending one (`scheduler.go:334-397`): power 0 for each
current validator that is not pending, and the pending power of each pending validator
that is new or whose power changed. Each of the two loops ranges over a Go map, each in
an `IterOrder` of its own.

CometBFT applies the updates one by one: power 0 removes the validator, any other power
adds it or sets its power. `applyValidatorUpdates` states that reading of the list; it is
CometBFT's behaviour, not code of this repository. `VotingPowerFromStake` never returns
a power of 0, so every elected power is positive; the difference then names each key
once, and applied in any order it gives the pending set. So over any run of elections
and block ends, the set CometBFT holds is the one the state records.

The state getters and setters fail only on storage errors, which the model leaves out;
of a `Validator` only the voting power is read.
-/

namespace OasisCore

namespace Scheduler

/-! ## Voting power -/

/-- `VotingPowerDistribution` (`go/scheduler/api/api.go:281-291`), a `uint8`. -/
abbrev VotingPowerDistribution := UInt8

/-- `VotingPowerDistributionLinear`. -/
def votingPowerDistributionLinear : VotingPowerDistribution := 0

/-- `VotingPowerDistributionSqrt`. -/
def votingPowerDistributionSqrt : VotingPowerDistribution := 1

/-- `BaseUnitsPerVotingPower`, set to 16 at start-up (`api.go:476-480`). -/
def baseUnitsPerVotingPower : ℕ := 16

/-- The errors `VotingPowerFromStake` returns. -/
inductive VotingPowerError where
  | quo (e : QuantityError)
  | tooManyBaseUnits
  deriving DecidableEq, Repr

/-- `VotingPowerFromStake` (`api.go:300-333`): the stake divided by
`BaseUnitsPerVotingPower` in the linear distribution, its square root in the square
root one, one for a stake that gives nothing, and an error past `int64`. -/
def votingPowerFromStake (t : ℕ) (distribution : VotingPowerDistribution) :
    Except VotingPowerError ℤ := do
  let powerQ ← (if distribution = votingPowerDistributionLinear then
      (Quantity.quo t baseUnitsPerVotingPower).mapError .quo
    else pure t : Except VotingPowerError ℕ)
  if powerQ = 0 then pure 1
  else
    let powerBI := if distribution = votingPowerDistributionSqrt then powerQ.sqrt else powerQ
    if powerBI < 2 ^ 63 then pure powerBI else .error .tooManyBaseUnits

/-- The power of an elected validator (`scheduler.go:589-604`): one when stake is
bypassed, else the power of its entity's escrow balance. -/
def electedVotingPower (debugBypassStake : Bool) (distribution : VotingPowerDistribution)
    (stake : ℕ) : Except VotingPowerError ℤ :=
  if debugBypassStake then pure 1 else votingPowerFromStake stake distribution

/-- `VotingPowerFromStake` gives no validator a power of 0, which CometBFT would read
as its removal. -/
theorem votingPowerFromStake_pos {t : ℕ} {distribution : VotingPowerDistribution} {power : ℤ}
    (h : votingPowerFromStake t distribution = .ok power) : 0 < power := by
  unfold votingPowerFromStake at h
  obtain ⟨powerQ, -, hrest⟩ := Except.bind_eq_ok.mp h
  by_cases hzero : powerQ = 0
  · rw [if_pos hzero, Except.pure_eq_ok] at hrest
    omega
  rw [if_neg hzero] at hrest
  have hbi : 0 < if distribution = votingPowerDistributionSqrt then powerQ.sqrt else powerQ := by
    split_ifs
    · exact Nat.sqrt_pos.mpr (Nat.pos_of_ne_zero hzero)
    · exact Nat.pos_of_ne_zero hzero
  dsimp only at hrest
  generalize (if distribution = votingPowerDistributionSqrt then powerQ.sqrt else powerQ) = powerBI
    at hbi hrest
  split_ifs at hrest
  rw [Except.pure_eq_ok] at hrest
  omega

theorem electedVotingPower_pos {debugBypassStake : Bool} {distribution : VotingPowerDistribution}
    {stake : ℕ} {power : ℤ} (h : electedVotingPower debugBypassStake distribution stake = .ok power) :
    0 < power := by
  unfold electedVotingPower at h
  split_ifs at h
  · rw [Except.pure_eq_ok] at h
    omega
  · exact votingPowerFromStake_pos h

/-! ## The difference of two validator sets -/

/-- `scheduler.Validator` (`api.go:336-345`); its node and entity identifiers are read
by no modelled function. -/
structure Validator where
  votingPower : ℤ
  deriving DecidableEq, Repr, Inhabited

/-- `types.ValidatorUpdate` of CometBFT: a public key and its new power. -/
structure ValidatorUpdate (K : Type) where
  pubKey : K
  power : ℤ
  deriving DecidableEq, Repr

variable {K : Type} [DecidableEq K]

/-- `PublicKeyToValidatorUpdate` (`go/consensus/cometbft/api/api.go:45-58`). -/
def publicKeyToValidatorUpdate (id : K) (power : ℤ) : ValidatorUpdate K :=
  ⟨id, power⟩

/-- The first loop of `diffValidators` at one current validator (`scheduler.go:371-381`):
a validator that is not pending is removed. -/
def removeStale (pending : FinMap K Validator) (v : K) : Option (ValidatorUpdate K) :=
  if v ∈ pending.keys then none else some (publicKeyToValidatorUpdate v 0)

/-- The second loop of `diffValidators` at one pending validator (`scheduler.go:383-395`):
a validator that is new, or whose power changed, is upserted. -/
def upsertPending (current pending : FinMap K Validator) (v : K) : Option (ValidatorUpdate K) :=
  let new := pending.get v
  match current.lookup v with
  | some curr =>
    if curr.votingPower = new.votingPower then none
    else some (publicKeyToValidatorUpdate v new.votingPower)
  | none => some (publicKeyToValidatorUpdate v new.votingPower)

/-- `diffValidators` (`scheduler.go:369-397`): the removals, in the walk `o₁` over the
current validators, then the upserts, in the walk `o₂` over the pending ones. -/
def diffValidators (o₁ o₂ : IterOrder K) (current pending : FinMap K Validator) :
    List (ValidatorUpdate K) :=
  (o₁.enum current.keys).filterMap (removeStale pending) ++
    (o₂.enum pending.keys).filterMap (upsertPending current pending)

/-- The scheduler application's record of the validator sets (`schedulerState`): the set
handed to CometBFT last, and the pending one if an election has left one. -/
structure ValidatorState (K : Type) where
  currentValidators : FinMap K Validator
  pendingValidators : Option (FinMap K Validator)

/-- `updateValidators` (`scheduler.go:334-367`): with pending validators, the pending
record is cleared, the pending set becomes the current one and the difference is
returned; without, nothing changes. -/
def updateValidators (o₁ o₂ : IterOrder K) (st : ValidatorState K) :
    ValidatorState K × List (ValidatorUpdate K) :=
  match st.pendingValidators with
  | none => (st, [])
  | some pending => (⟨pending, none⟩, diffValidators o₁ o₂ st.currentValidators pending)

/-! ## CometBFT's validator set -/

/-- A validator set as CometBFT holds it: the power of each validator, none for a key
that is not one. -/
abbrev ValidatorSet (K : Type) := K → Option ℤ

/-- How CometBFT applies one update: power 0 removes the validator, any other power
adds it or sets its power. -/
def applyValidatorUpdate (s : ValidatorSet K) (u : ValidatorUpdate K) : ValidatorSet K :=
  Function.update s u.pubKey (if u.power = 0 then none else some u.power)

/-- How CometBFT applies a list of updates: one after the other. -/
def applyValidatorUpdates (s : ValidatorSet K) (us : List (ValidatorUpdate K)) :
    ValidatorSet K :=
  us.foldl applyValidatorUpdate s

/-- The validator set a recorded validator map stands for. -/
def votingPowers (m : FinMap K Validator) : ValidatorSet K :=
  fun k => (m.lookup k).map (·.votingPower)

theorem votingPowers_of_mem {m : FinMap K Validator} {k : K} (hk : k ∈ m.keys) :
    votingPowers m k = some (m.get k).votingPower := by
  simp [votingPowers, FinMap.lookup, hk]

theorem votingPowers_of_not_mem {m : FinMap K Validator} {k : K} (hk : k ∉ m.keys) :
    votingPowers m k = none := by
  simp [votingPowers, FinMap.lookup, hk]

/-! ## What the difference holds -/

section Diff

variable {o₁ o₂ : IterOrder K} {current pending : FinMap K Validator}

theorem removeStale_eq_some {v : K} {u : ValidatorUpdate K} :
    removeStale pending v = some u ↔ v ∉ pending.keys ∧ u = ⟨v, 0⟩ := by
  unfold removeStale publicKeyToValidatorUpdate
  by_cases hv : v ∈ pending.keys <;> simp [hv, eq_comm]

theorem upsertPending_eq_some {v : K} {u : ValidatorUpdate K} :
    upsertPending current pending v = some u ↔
      u = ⟨v, (pending.get v).votingPower⟩ ∧
        votingPowers current v ≠ some (pending.get v).votingPower := by
  unfold upsertPending publicKeyToValidatorUpdate votingPowers
  cases current.lookup v with
  | none => simp [eq_comm]
  | some curr =>
    by_cases heq : curr.votingPower = (pending.get v).votingPower <;> simp [heq, eq_comm]

/-- The updates of the difference: a removal of each current validator that is not
pending, and the pending power of each pending validator whose power is not already
that one. -/
theorem mem_diffValidators {u : ValidatorUpdate K} :
    u ∈ diffValidators o₁ o₂ current pending ↔
      (u.pubKey ∈ current.keys ∧ u.pubKey ∉ pending.keys ∧ u.power = 0) ∨
      (u.pubKey ∈ pending.keys ∧ u.power = (pending.get u.pubKey).votingPower ∧
        votingPowers current u.pubKey ≠ some u.power) := by
  obtain ⟨k, p⟩ := u
  simp only [diffValidators, List.mem_append, List.mem_filterMap, IterOrder.mem_enum,
    removeStale_eq_some, upsertPending_eq_some, ValidatorUpdate.mk.injEq]
  constructor
  · rintro (⟨v, hv, hnot, rfl, rfl⟩ | ⟨v, hv, ⟨rfl, rfl⟩, hne⟩)
    · exact .inl ⟨hv, hnot, rfl⟩
    · exact .inr ⟨hv, rfl, hne⟩
  · rintro (⟨hv, hnot, rfl⟩ | ⟨hv, rfl, hne⟩)
    · exact .inl ⟨k, hv, hnot, rfl, rfl⟩
    · exact .inr ⟨k, hv, ⟨rfl, rfl⟩, hne⟩

/-- The difference names each public key at most once. -/
theorem nodup_diffValidators :
    ((diffValidators o₁ o₂ current pending).map (·.pubKey)).Nodup := by
  rw [diffValidators, List.map_append, List.nodup_append]
  refine ⟨nodup_map_filterMap (o₁.nodup_enum _) ?_, nodup_map_filterMap (o₂.nodup_enum _) ?_, ?_⟩
  · intro v u h
    rw [(removeStale_eq_some.mp h).2]
  · intro v u h
    rw [(upsertPending_eq_some.mp h).1]
  -- A removed key is not pending, an upserted one is.
  intro a ha b hb hab
  obtain ⟨u, hu, rfl⟩ := List.mem_map.mp ha
  obtain ⟨u', hu', rfl⟩ := List.mem_map.mp hb
  obtain ⟨v, -, hv⟩ := List.mem_filterMap.mp hu
  obtain ⟨v', hv', hv'u⟩ := List.mem_filterMap.mp hu'
  obtain ⟨hnot, rfl⟩ := removeStale_eq_some.mp hv
  obtain ⟨rfl, -⟩ := upsertPending_eq_some.mp hv'u
  have hvv : v = v' := hab
  subst hvv
  exact hnot ((o₂.mem_enum _ v).mp hv')

/-- No update names a validator whose power stays as it is. -/
theorem not_mem_diffValidators_of_unchanged {v : K} (hcur : v ∈ current.keys)
    (hpend : v ∈ pending.keys)
    (heq : (current.get v).votingPower = (pending.get v).votingPower) :
    v ∉ (diffValidators o₁ o₂ current pending).map (·.pubKey) := by
  rintro hv
  obtain ⟨u, hu, rfl⟩ := List.mem_map.mp hv
  rcases mem_diffValidators.mp hu with ⟨-, hnot, -⟩ | ⟨-, hp, hne⟩
  · exact hnot hpend
  · exact hne (by rw [votingPowers_of_mem hcur, heq, hp])

/-- Applied in any order, the difference takes the current set to the pending one,
provided every pending power is positive. -/
theorem applyValidatorUpdates_of_perm
    (hpos : ∀ v ∈ pending.keys, 0 < (pending.get v).votingPower)
    {us : List (ValidatorUpdate K)} (hperm : us.Perm (diffValidators o₁ o₂ current pending)) :
    applyValidatorUpdates (votingPowers current) us = votingPowers pending := by
  have hnodup : (us.map (·.pubKey)).Nodup := (hperm.map _).nodup_iff.mpr nodup_diffValidators
  funext k
  by_cases hk : k ∈ us.map (·.pubKey)
  · -- The update of `k` sets it to what the pending set holds.
    obtain ⟨u, hu, rfl⟩ := List.mem_map.mp hk
    refine (foldl_update_of_mem (·.pubKey) (fun u => if u.power = 0 then none else some u.power)
      _ hnodup hu).trans ?_
    rcases mem_diffValidators.mp (hperm.mem_iff.mp hu) with ⟨-, hnot, hp⟩ | ⟨hpend, hp, -⟩
    · rw [hp, if_pos rfl, votingPowers_of_not_mem hnot]
    · have hne : u.power ≠ 0 := by
        have := hpos _ hpend
        omega
      rw [if_neg hne, votingPowers_of_mem hpend, hp]
  · -- No update names `k`: the current set holds what the pending one does.
    refine (foldl_update_of_not_mem (·.pubKey) (fun u => if u.power = 0 then none else some u.power)
      us _ hk).trans ?_
    have hnone : ∀ u ∈ diffValidators o₁ o₂ current pending, u.pubKey ≠ k := fun u hu huk =>
      hk (List.mem_map.mpr ⟨u, hperm.mem_iff.mpr hu, huk⟩)
    by_cases hpend : k ∈ pending.keys
    · rw [votingPowers_of_mem hpend]
      by_contra hne
      exact hnone ⟨k, (pending.get k).votingPower⟩
        (mem_diffValidators.mpr (.inr ⟨hpend, rfl, hne⟩)) rfl
    · rw [votingPowers_of_not_mem hpend]
      by_cases hcur : k ∈ current.keys
      · exact absurd rfl (hnone ⟨k, 0⟩ (mem_diffValidators.mpr (.inl ⟨hcur, hpend, rfl⟩)))
      · exact votingPowers_of_not_mem hcur

/-- The validator updates of an `EndBlock`: for positive pending powers, they name each
public key once, applied in any order they turn the current set into the pending one,
and none names a validator whose power stays as it is. -/
theorem diffValidators_spec (o₁ o₂ : IterOrder K) (current pending : FinMap K Validator)
    (hpos : ∀ v ∈ pending.keys, 0 < (pending.get v).votingPower) :
    ((diffValidators o₁ o₂ current pending).map (·.pubKey)).Nodup ∧
    (∀ us : List (ValidatorUpdate K), us.Perm (diffValidators o₁ o₂ current pending) →
      applyValidatorUpdates (votingPowers current) us = votingPowers pending) ∧
    (∀ v ∈ current.keys, v ∈ pending.keys →
      (current.get v).votingPower = (pending.get v).votingPower →
        v ∉ (diffValidators o₁ o₂ current pending).map (·.pubKey)) :=
  ⟨nodup_diffValidators, fun _ hperm => applyValidatorUpdates_of_perm hpos hperm,
    fun _ hcur hpend heq => not_mem_diffValidators_of_unchanged hcur hpend heq⟩

end Diff

/-- Validator 1 leaves, 2 keeps its power and 3 joins. -/
def diffCurrent : FinMap ℕ Validator := (FinMap.empty.set 1 ⟨5⟩).set 2 ⟨4⟩

/-- The pending set of `diffCurrent`'s next epoch. -/
def diffPending : FinMap ℕ Validator := (FinMap.empty.set 2 ⟨4⟩).set 3 ⟨7⟩

theorem diffValidators_spec_leave_keep_join :
    (∀ v ∈ diffPending.keys, 0 < (diffPending.get v).votingPower) ∧
    ((diffValidators (.sorted (· ≤ ·)) (.sorted (· ≤ ·)) diffCurrent diffPending).map
      (·.pubKey)).Nodup ∧
    (∀ us : List (ValidatorUpdate ℕ),
      us.Perm (diffValidators (.sorted (· ≤ ·)) (.sorted (· ≤ ·)) diffCurrent diffPending) →
        applyValidatorUpdates (votingPowers diffCurrent) us = votingPowers diffPending) ∧
    (∀ v ∈ diffCurrent.keys, v ∈ diffPending.keys →
      (diffCurrent.get v).votingPower = (diffPending.get v).votingPower →
        v ∉ (diffValidators (.sorted (· ≤ ·)) (.sorted (· ≤ ·)) diffCurrent diffPending).map
          (·.pubKey)) := by
  have hpos : ∀ v ∈ diffPending.keys, 0 < (diffPending.get v).votingPower := by decide
  exact ⟨hpos, diffValidators_spec _ _ diffCurrent diffPending hpos⟩

example :
    diffValidators (.sorted (· ≤ ·)) (.sorted (· ≤ ·)) diffCurrent diffPending = [⟨1, 0⟩, ⟨3, 7⟩] := by
  decide

/-! ## Over a run of epochs

An election leaves a pending set whose powers `electedVotingPower` computed; an
`EndBlock` hands CometBFT the updates, which it applies in whatever order. From the
genesis set, which CometBFT starts from too, the set CometBFT holds stays the one the
state records. -/

section Run

variable (debugBypassStake : Bool) (distribution : VotingPowerDistribution)

/-- One step of the scheduler application and CometBFT's validator set: an election
that leaves a pending set, or an `EndBlock` whose updates CometBFT applies in some
order. -/
inductive ValidatorStep : ValidatorState K × ValidatorSet K → ValidatorState K × ValidatorSet K → Prop
  | elect {st : ValidatorState K} {s : ValidatorSet K} (pending : FinMap K Validator)
      (hpower : ∀ v ∈ pending.keys,
        ∃ stake, electedVotingPower debugBypassStake distribution stake =
          .ok (pending.get v).votingPower) :
      ValidatorStep (st, s) ({ st with pendingValidators := some pending }, s)
  | endBlock {st : ValidatorState K} {s : ValidatorSet K} (o₁ o₂ : IterOrder K)
      {us : List (ValidatorUpdate K)} (hperm : us.Perm (updateValidators o₁ o₂ st).2) :
      ValidatorStep (st, s) ((updateValidators o₁ o₂ st).1, applyValidatorUpdates s us)

/-- CometBFT holds the recorded set, and a pending set has positive powers. -/
def Synced (x : ValidatorState K × ValidatorSet K) : Prop :=
  x.2 = votingPowers x.1.currentValidators ∧
    ∀ pending, x.1.pendingValidators = some pending →
      ∀ v ∈ pending.keys, 0 < (pending.get v).votingPower

variable {debugBypassStake distribution}

theorem Synced.step {x y : ValidatorState K × ValidatorSet K} (hx : Synced x)
    (hstep : ValidatorStep debugBypassStake distribution x y) : Synced y := by
  obtain ⟨hview, hpos⟩ := hx
  cases hstep with
  | elect pending hpower =>
    refine ⟨hview, fun p hp v hv => ?_⟩
    cases hp
    obtain ⟨stake, hstake⟩ := hpower v hv
    exact electedVotingPower_pos hstake
  | @endBlock st s o₁ o₂ us hperm =>
    dsimp only at hview hpos
    unfold Synced
    unfold updateValidators at hperm ⊢
    cases hpend : st.pendingValidators with
    | none =>
      simp only [hpend] at hperm ⊢
      rw [List.perm_nil.mp hperm]
      exact ⟨hview, fun _ h => by cases h⟩
    | some pending =>
      simp only [hpend] at hperm ⊢
      refine ⟨?_, fun _ h => by cases h⟩
      rw [hview]
      exact applyValidatorUpdates_of_perm (hpos pending hpend) hperm

theorem Synced.run {x y : ValidatorState K × ValidatorSet K} (hx : Synced x)
    (hrun : Relation.ReflTransGen (ValidatorStep debugBypassStake distribution) x y) :
    Synced y := by
  induction hrun with
  | refl => exact hx
  | tail _ hstep ih => exact ih.step hstep

/-- From genesis, over any run of elections and block ends, CometBFT holds the validator
set the scheduler application records as current. -/
theorem cometbftValidators_eq_current {genesis : FinMap K Validator}
    {st : ValidatorState K} {s : ValidatorSet K}
    (hrun : Relation.ReflTransGen (ValidatorStep debugBypassStake distribution)
      (⟨genesis, none⟩, votingPowers genesis) (st, s)) :
    s = votingPowers st.currentValidators :=
  (Synced.run ⟨rfl, fun _ h => by cases h⟩ hrun).1

/-- A pending set of one validator, key 11, with the power 2 of an escrow of 32. -/
def sampleElected : FinMap ℕ Validator := FinMap.empty.set 11 ⟨2⟩

/-- From an empty genesis set: the election of `sampleElected`, then the end of a block that
makes it current. -/
theorem cometbftValidators_eq_current_elect :
    Relation.ReflTransGen (ValidatorStep false votingPowerDistributionLinear)
        (⟨FinMap.empty, none⟩, votingPowers FinMap.empty)
        ((updateValidators (IterOrder.sorted (· ≤ ·)) (IterOrder.sorted (· ≤ ·))
            ⟨FinMap.empty, some sampleElected⟩).1,
          applyValidatorUpdates (votingPowers FinMap.empty)
            (updateValidators (IterOrder.sorted (· ≤ ·)) (IterOrder.sorted (· ≤ ·))
              ⟨FinMap.empty, some sampleElected⟩).2) ∧
      applyValidatorUpdates (votingPowers FinMap.empty)
          (updateValidators (IterOrder.sorted (· ≤ ·)) (IterOrder.sorted (· ≤ ·))
            ⟨FinMap.empty, some sampleElected⟩).2 =
        votingPowers (updateValidators (IterOrder.sorted (· ≤ ·)) (IterOrder.sorted (· ≤ ·))
          ⟨FinMap.empty, some sampleElected⟩).1.currentValidators := by
  have helect : ValidatorStep false votingPowerDistributionLinear
      (⟨FinMap.empty, none⟩, votingPowers FinMap.empty)
      (⟨FinMap.empty, some sampleElected⟩, votingPowers FinMap.empty) :=
    ValidatorStep.elect sampleElected fun v hv => ⟨32, by
      simp only [sampleElected, FinMap.keys_set, FinMap.keys_empty, Finset.mem_insert,
        Finset.notMem_empty, or_false] at hv
      subst hv
      rfl⟩
  have hrun := Relation.ReflTransGen.tail (.single helect)
    (ValidatorStep.endBlock (IterOrder.sorted (· ≤ ·)) (IterOrder.sorted (· ≤ ·))
      (List.Perm.refl _))
  exact ⟨hrun, cometbftValidators_eq_current hrun⟩

end Run

end Scheduler

end OasisCore
