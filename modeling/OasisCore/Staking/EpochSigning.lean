import Mathlib.Data.List.Sort
import OasisCore.Misc.Except
import OasisCore.Misc.FinMap
import OasisCore.Staking.Rewards

/-!
# Signing counts of an epoch

`EpochSigning` (`go/consensus/cometbft/apps/staking/state/state.go:533-576`) counts the
blocks of the current epoch and, for each entity, the blocks it signed. `Update` adds one
block and its signers, once per block (`signing_rewards.go:13-31`); at the end of the epoch
`EligibleEntities` picks the entities that signed at least the fraction
`SigningRewardThresholdNumerator / SigningRewardThresholdDenominator` of the blocks.

Counters and the products of the threshold test are `uint64`, and every operation that
could wrap is guarded. `update_eq_ok` and `update_ok_iff` say that `Update` fails exactly
when a counter would pass the maximum and otherwise counts exactly; over the blocks of an
epoch the counters are then the true counts (`runUpdates_counts`). `eligibleEntities_eq_ok`
says that `EligibleEntities` fails exactly when a product would wrap and otherwise
returns, sorted, the entities whose unbounded products pass the test.

`rewardEpochSigning` pays the epoch's signing reward to those entities through
`AddRewards`; with commission rates at most one it fails only on such a wrap
(`rewardEpochSigning_conserves`).

Entities are the keys of a Go map, so the model is generic in their type `K`, and the
order of `sort.Slice` with `bytes.Compare` is a linear order on it.
-/

namespace OasisCore

namespace Staking

/-! ## Guarded `uint64` arithmetic -/

section Guard

/-- An increment of a `uint64` wraps exactly at its maximum. -/
theorem add_one_le_self_iff (x : UInt64) : x + 1 ≤ x ↔ x.toNat + 1 = 2 ^ 64 := by
  have hx := x.toNat_lt
  rw [UInt64.le_iff_toNat_le, UInt64.toNat_add, UInt64.toNat_one]
  constructor
  · intro h
    by_contra hne
    rw [Nat.mod_eq_of_lt (by omega)] at h
    omega
  · intro h
    rw [h, Nat.mod_self]
    omega

theorem toNat_add_one_of_lt {x : UInt64} (h : x.toNat + 1 < 2 ^ 64) :
    (x + 1).toNat = x.toNat + 1 := by
  rw [UInt64.toNat_add, UInt64.toNat_one, Nat.mod_eq_of_lt h]

/-- The guard Go writes before a `uint64` product, `b != 0 && a > math.MaxUint64/b`,
holds exactly when the product wraps. -/
theorem mul_guard_iff (a b : UInt64) :
    (b ≠ 0 ∧ a > 0xffffffffffffffff / b) ↔ 2 ^ 64 ≤ a.toNat * b.toNat := by
  by_cases hb : b = 0
  · subst hb
    simp
  have hpos : 0 < b.toNat := Nat.pos_of_ne_zero fun h => hb (UInt64.toNat_inj.mp h)
  rw [gt_iff_lt, UInt64.lt_iff_toNat_lt, UInt64.toNat_div, Nat.div_lt_iff_lt_mul hpos]
  simp only [ne_eq, hb, not_false_eq_true, true_and, UInt64.reduceToNat]
  omega

theorem toNat_mul_of_lt {a b : UInt64} (h : a.toNat * b.toNat < 2 ^ 64) :
    (a * b).toNat = a.toNat * b.toNat := by
  rw [UInt64.toNat_mul, Nat.mod_eq_of_lt h]

end Guard

/-- `EpochSigning` (`state.go:533-536`). -/
structure EpochSigning (K : Type) where
  total : UInt64
  byEntity : FinMap K UInt64

/-- The errors of `Update` and `EligibleEntities`, each with the values its message
prints. -/
inductive EpochSigningError (K : Type) where
  /-- "incrementing total blocks count: overflow, old_total=%d" -/
  | totalOverflow (oldTotal : UInt64)
  /-- "incrementing count for entity %s: overflow, old_count=%d" -/
  | countOverflow (entityID : K) (oldCount : UInt64)
  /-- "overflow in total blocks, total=%d" -/
  | totalThresholdOverflow (total : UInt64)
  /-- "entity %s: overflow in threshold comparison, count=%d" -/
  | entityThresholdOverflow (entityID : K) (count : UInt64)
  deriving DecidableEq, Repr

namespace EpochSigning

variable {K : Type}

/-- What `EpochSigning` loads as before the first block of an epoch (`state.go:583-587`). -/
def zero : EpochSigning K :=
  ⟨0, FinMap.empty⟩

section Update

variable [DecidableEq K]

/-- The loop body of `Update` (`state.go:545-551`) for one signer. -/
def incrementCount (byEntity : FinMap K UInt64) (entityID : K) :
    Except (EpochSigningError K) (FinMap K UInt64) :=
  let oldCount := byEntity.get entityID
  if oldCount + 1 ≤ oldCount then .error (.countOverflow entityID oldCount)
  else .ok (byEntity.set entityID (oldCount + 1))

/-- `EpochSigning.Update` (`state.go:538-554`). Go writes in place and leaves a partial
update behind on error; its caller then returns the error without storing it, so the
model returns no state. -/
def update (es : EpochSigning K) (signingEntities : List K) :
    Except (EpochSigningError K) (EpochSigning K) := do
  let oldTotal := es.total
  if oldTotal + 1 ≤ oldTotal then throw (.totalOverflow oldTotal)
  let byEntity ← signingEntities.foldlM incrementCount es.byEntity
  pure ⟨oldTotal + 1, byEntity⟩

theorem incrementCount_eq_ok {m m' : FinMap K UInt64} {k : K} :
    incrementCount m k = .ok m' ↔ (m.get k).toNat + 1 < 2 ^ 64 ∧ m' = m.set k (m.get k + 1) := by
  have hlt := (m.get k).toNat_lt
  unfold incrementCount
  dsimp only
  rw [Except.ite_error_eq_ok, add_one_le_self_iff, Except.ok.injEq, eq_comm (a := m.set _ _)]
  constructor
  · rintro ⟨hne, rfl⟩
    exact ⟨by omega, rfl⟩
  · rintro ⟨hne, rfl⟩
    exact ⟨by omega, rfl⟩

/-- A loop of increments that succeeded counted every signer exactly. -/
theorem foldlM_incrementCount_eq_ok {ents : List K} {m m' : FinMap K UInt64}
    (h : ents.foldlM incrementCount m = .ok m') :
    (∀ k, (m'.get k).toNat = (m.get k).toNat + ents.count k) ∧
      m'.keys = m.keys ∪ ents.toFinset := by
  induction ents generalizing m with
  | nil =>
    cases h
    simp
  | cons a ents ih =>
    rw [List.foldlM_cons] at h
    obtain ⟨m₁, h₁, hrest⟩ := Except.bind_eq_ok.mp h
    obtain ⟨hlt, rfl⟩ := incrementCount_eq_ok.mp h₁
    obtain ⟨hcount, hkeys⟩ := ih hrest
    constructor
    · intro k
      rw [hcount k, List.count_cons]
      by_cases hk : k = a
      · subst hk
        rw [FinMap.get_set_self, toNat_add_one_of_lt hlt]
        simp
        omega
      · rw [FinMap.get_set_ne _ _ hk]
        simp [Ne.symm hk]
    · rw [hkeys, FinMap.keys_set]
      ext k
      simp only [Finset.mem_union, Finset.mem_insert, List.toFinset_cons]
      tauto

/-- A loop of increments none of which passes the maximum succeeds. -/
theorem foldlM_incrementCount_ok {ents : List K} {m : FinMap K UInt64}
    (h : ∀ k, (m.get k).toNat + ents.count k < 2 ^ 64) :
    ∃ m', ents.foldlM incrementCount m = .ok m' := by
  induction ents generalizing m with
  | nil => exact ⟨m, rfl⟩
  | cons a ents ih =>
    have ha := h a
    rw [List.count_cons_self] at ha
    have h₁ : incrementCount m a = .ok (m.set a (m.get a + 1)) :=
      incrementCount_eq_ok.mpr ⟨by omega, rfl⟩
    -- After the first signer the counts left to add are those of the rest.
    have hrest : ∀ k, ((m.set a (m.get a + 1)).get k).toNat + ents.count k < 2 ^ 64 := by
      intro k
      by_cases hk : k = a
      · subst hk
        rw [FinMap.get_set_self, toNat_add_one_of_lt (by omega)]
        omega
      · have hk' := h k
        rw [List.count_cons_of_ne (Ne.symm hk)] at hk'
        rwa [FinMap.get_set_ne _ _ hk]
    obtain ⟨m', hm'⟩ := ih hrest
    exact ⟨m', by rw [List.foldlM_cons, h₁, Except.ok_bind, hm']⟩

/-- A successful `Update` counts one more block, and each signer once for each time
the block lists it. -/
theorem update_eq_ok {es es' : EpochSigning K} {ents : List K} (h : es.update ents = .ok es') :
    es'.total.toNat = es.total.toNat + 1 ∧
      (∀ k, (es'.byEntity.get k).toNat = (es.byEntity.get k).toNat + ents.count k) ∧
      es'.byEntity.keys = es.byEntity.keys ∪ ents.toFinset := by
  unfold update at h
  dsimp only at h
  by_cases hwrap : es.total + 1 ≤ es.total
  · rw [if_pos hwrap, Except.throw_bind] at h
    cases h
  rw [if_neg hwrap] at h
  obtain ⟨byEntity, hloop, hpure⟩ := Except.bind_eq_ok.mp h
  cases Except.pure_eq_ok.mp hpure
  rw [add_one_le_self_iff] at hwrap
  have hlt := es.total.toNat_lt
  exact ⟨toNat_add_one_of_lt (by omega), foldlM_incrementCount_eq_ok hloop⟩

/-- `Update` succeeds exactly when no counter would pass the maximum. -/
theorem update_ok_iff (es : EpochSigning K) (ents : List K) :
    (∃ es', es.update ents = .ok es') ↔
      es.total.toNat + 1 < 2 ^ 64 ∧ ∀ k, (es.byEntity.get k).toNat + ents.count k < 2 ^ 64 := by
  constructor
  · rintro ⟨es', h⟩
    obtain ⟨htotal, hcount, -⟩ := update_eq_ok h
    refine ⟨?_, fun k => ?_⟩
    · rw [← htotal]
      exact es'.total.toNat_lt
    · rw [← hcount k]
      exact (es'.byEntity.get k).toNat_lt
  · rintro ⟨htotal, hcount⟩
    obtain ⟨byEntity, hloop⟩ := foldlM_incrementCount_ok hcount
    have hwrap : ¬ es.total + 1 ≤ es.total := by
      rw [add_one_le_self_iff]
      omega
    refine ⟨⟨es.total + 1, byEntity⟩, ?_⟩
    unfold update
    dsimp only
    rw [if_neg hwrap, hloop]
    rfl

end Update

/-! ## Eligibility -/

/-- The loop body of `EligibleEntities` (`state.go:563-571`) for one entity. -/
def eligibleStep (byEntity : FinMap K UInt64) (thresholdDenominator thresholdPremultiplied : UInt64)
    (eligibleEntities : List K) (entityID : K) : Except (EpochSigningError K) (List K) :=
  let count := byEntity.get entityID
  if thresholdDenominator ≠ 0 ∧ count > 0xffffffffffffffff / thresholdDenominator then
    .error (.entityThresholdOverflow entityID count)
  else if count * thresholdDenominator < thresholdPremultiplied then .ok eligibleEntities
  else .ok (eligibleEntities ++ [entityID])

/-- `EpochSigning.EligibleEntities` (`state.go:556-576`), the map walked in the order
`order`. The sort of `sort.Slice` by `bytes.Compare` is the insertion sort here: the
entities are a map's keys, each once, so every sort gives the same list. -/
def eligibleEntities [LinearOrder K] (es : EpochSigning K) (order : IterOrder K)
    (thresholdNumerator thresholdDenominator : UInt64) :
    Except (EpochSigningError K) (List K) := do
  if thresholdNumerator ≠ 0 ∧ es.total > 0xffffffffffffffff / thresholdNumerator then
    throw (.totalThresholdOverflow es.total)
  let thresholdPremultiplied := es.total * thresholdNumerator
  let eligibleEntities ← (order.enum es.byEntity.keys).foldlM
    (eligibleStep es.byEntity thresholdDenominator thresholdPremultiplied) []
  pure (eligibleEntities.insertionSort (· ≤ ·))

section Loop

variable {m : FinMap K UInt64} {den pre : UInt64}

theorem eligibleStep_eq_ok {acc acc' : List K} {k : K} :
    eligibleStep m den pre acc k = .ok acc' ↔ (m.get k).toNat * den.toNat < 2 ^ 64 ∧
      acc' = if pre.toNat ≤ (m.get k).toNat * den.toNat then acc ++ [k] else acc := by
  unfold eligibleStep
  dsimp only
  rw [Except.ite_error_eq_ok, mul_guard_iff, not_le]
  apply and_congr_right
  intro hlt
  -- Below the guard the product is the unbounded one.
  have hcmp : m.get k * den < pre ↔ ¬ pre.toNat ≤ (m.get k).toNat * den.toNat := by
    rw [UInt64.lt_iff_toNat_lt, toNat_mul_of_lt hlt, not_le]
  by_cases hpre : pre.toNat ≤ (m.get k).toNat * den.toNat
  · rw [if_neg (by rwa [hcmp, not_not]), if_pos hpre, Except.ok.injEq, eq_comm]
  · rw [if_pos (hcmp.mpr hpre), if_neg hpre, Except.ok.injEq, eq_comm]

/-- The loop of `EligibleEntities` succeeds exactly when no product wraps, and then
keeps, in walk order, the entities whose product reaches the threshold. -/
theorem foldlM_eligibleStep_eq_ok (l : List K) {acc r : List K} :
    l.foldlM (eligibleStep m den pre) acc = .ok r ↔
      (∀ k ∈ l, (m.get k).toNat * den.toNat < 2 ^ 64) ∧
        r = acc ++ l.filter (fun k => pre.toNat ≤ (m.get k).toNat * den.toNat) := by
  induction l generalizing acc with
  | nil =>
    simp only [List.foldlM_nil, List.not_mem_nil, IsEmpty.forall_iff, implies_true,
      List.filter_nil, List.append_nil, true_and]
    exact Except.pure_eq_ok.trans eq_comm
  | cons a l ih =>
    rw [List.foldlM_cons, Except.bind_eq_ok]
    simp only [eligibleStep_eq_ok, ih, List.forall_mem_cons, List.filter_cons]
    by_cases hpre : pre.toNat ≤ (m.get a).toNat * den.toNat
    · simp [hpre]
      tauto
    · simp [hpre]
      tauto

end Loop

section Order

variable [LinearOrder K] {es : EpochSigning K} {order : IterOrder K} {num den : UInt64}

/-- What `EligibleEntities` returns: it succeeds exactly when neither the threshold nor
any entity's product wraps, and then returns, sorted, the entities whose count times
the denominator reaches the blocks times the numerator. -/
theorem eligibleEntities_eq_ok {l : List K} :
    es.eligibleEntities order num den = .ok l ↔
      es.total.toNat * num.toNat < 2 ^ 64 ∧
        (∀ k ∈ es.byEntity.keys, (es.byEntity.get k).toNat * den.toNat < 2 ^ 64) ∧
        l = ((order.enum es.byEntity.keys).filter (fun k =>
          es.total.toNat * num.toNat ≤ (es.byEntity.get k).toNat * den.toNat)).insertionSort
          (· ≤ ·) := by
  unfold eligibleEntities
  dsimp only
  by_cases hguard : num ≠ 0 ∧ es.total > 0xffffffffffffffff / num
  · rw [if_pos hguard]
    rw [mul_guard_iff] at hguard
    simp only [Except.throw_bind, reduceCtorEq, false_iff, not_and]
    omega
  rw [if_neg hguard]
  rw [mul_guard_iff, not_le] at hguard
  simp only [Except.bind_eq_ok, foldlM_eligibleStep_eq_ok, List.nil_append,
    toNat_mul_of_lt hguard, order.mem_enum, Except.pure_eq_ok]
  constructor
  · rintro ⟨r, ⟨hall, rfl⟩, rfl⟩
    exact ⟨hguard, hall, rfl⟩
  · rintro ⟨-, hall, rfl⟩
    exact ⟨_, ⟨hall, rfl⟩, rfl⟩

/-- `EligibleEntities` fails exactly when a product it forms would wrap. -/
theorem eligibleEntities_eq_error_iff :
    (∃ e, es.eligibleEntities order num den = .error e) ↔
      2 ^ 64 ≤ es.total.toNat * num.toNat ∨
        ∃ k ∈ es.byEntity.keys, 2 ^ 64 ≤ (es.byEntity.get k).toNat * den.toNat := by
  rw [Except.exists_eq_error_iff]
  simp only [ne_eq, eligibleEntities_eq_ok, not_and]
  constructor
  · intro h
    by_contra hfits
    simp only [not_or, not_le, not_exists, not_and] at hfits
    exact h _ hfits.1 hfits.2 rfl
  · rintro (hwrap | ⟨k, hk, hwrap⟩) l htotal hall
    · omega
    · exact absurd (hall k hk) (by omega)

/-- What `EligibleEntities` returns is sorted without repetitions, and holds exactly the
entities of the map that pass the test in unbounded arithmetic. -/
theorem eligibleEntities_spec {l : List K} (h : es.eligibleEntities order num den = .ok l) :
    l.Pairwise (· < ·) ∧ ∀ k, k ∈ l ↔ k ∈ es.byEntity.keys ∧
      es.total.toNat * num.toNat ≤ (es.byEntity.get k).toNat * den.toNat := by
  obtain ⟨-, -, rfl⟩ := eligibleEntities_eq_ok.mp h
  have hperm := List.perm_insertionSort (· ≤ ·) ((order.enum es.byEntity.keys).filter (fun k =>
    es.total.toNat * num.toNat ≤ (es.byEntity.get k).toNat * den.toNat))
  have hnodup := hperm.nodup_iff.mpr ((order.nodup_enum _).filter _)
  refine ⟨?_, fun k => ?_⟩
  · -- Sorted by `≤` and without repetitions is sorted by `<`.
    exact ((List.pairwise_insertionSort _ _).and hnodup).imp fun h => lt_of_le_of_ne h.1 h.2
  · simp [hperm.mem_iff, order.mem_enum]

end Order

end EpochSigning

/-- The errors of `rewardEpochSigning`. -/
inductive RewardEpochSigningError (K : Type) where
  /-- "determining eligibility: %w" -/
  | eligibility (e : EpochSigningError K)
  /-- "adding rewards: %w" -/
  | rewards (e : RewardError)

namespace StakingState

variable {Addr K : Type} [DecidableEq Addr] [LinearOrder K]

/-- `rewardEpochSigning` (`signing_rewards.go:34-78`) at the end of an epoch with the
epoch's counts `es`, the map walked in `order`; `newAddress` is `staking.NewAddress` of
an entity. The counts are cleared on every path, so the next epoch starts from
`EpochSigning.zero`. -/
def rewardEpochSigning (s : StakingState Addr) (newAddress : K → Addr) (order : IterOrder K)
    (es : EpochSigning K) (time : EpochTime) :
    Except (RewardEpochSigningError K) (StakingState Addr) :=
  if s.parameters.signingRewardThresholdDenominator = 0 then pure s
  else if es.total = 0 then pure s
  else do
    let eligibleEntities ← (es.eligibleEntities order s.parameters.signingRewardThresholdNumerator
      s.parameters.signingRewardThresholdDenominator).mapError .eligibility
    (s.addRewards time s.parameters.rewardFactorEpochSigned
      (eligibleEntities.map newAddress)).mapError .rewards

/-- With commission rates at most one on the accounts of the counted entities, the
signing reward fails only when the eligibility test would wrap, and otherwise pays out of
the common pool, keeping the balances. -/
theorem rewardEpochSigning_conserves {s : StakingState Addr} {newAddress : K → Addr}
    {order : IterOrder K} {es : EpochSigning K} {time : EpochTime}
    (hrates : ∀ k ∈ es.byEntity.keys, s.commissionRate
      ((s.accounts.get (newAddress k)).escrow.commissionSchedule.currentRate time) ≤
        commissionRateDenominator) :
    (∃ e, s.rewardEpochSigning newAddress order es time = .error (.eligibility e)) ∨
      ∃ t pool, s.rewardEpochSigning newAddress order es time = .ok { t with commonPool := pool } ∧
        Escrowed s t s.commonPool pool := by
  unfold rewardEpochSigning
  by_cases hden : s.parameters.signingRewardThresholdDenominator = 0
  · exact .inr ⟨s, s.commonPool, by rw [if_pos hden]; rfl, Escrowed.refl s s.commonPool⟩
  rw [if_neg hden]
  by_cases htotal : es.total = 0
  · exact .inr ⟨s, s.commonPool, by rw [if_pos htotal]; rfl, Escrowed.refl s s.commonPool⟩
  rw [if_neg htotal]
  cases hres : es.eligibleEntities order s.parameters.signingRewardThresholdNumerator
      s.parameters.signingRewardThresholdDenominator with
  | error e => exact .inl ⟨e, rfl⟩
  | ok l =>
    -- The eligible entities are counted ones, so their rates are at most one.
    have hrates' : s.RatesAtMostOne time (l.map newAddress) := by
      intro a ha
      obtain ⟨k, hk, rfl⟩ := List.mem_map.mp ha
      exact hrates k ((EpochSigning.eligibleEntities_spec hres).2 k |>.mp hk).1
    obtain ⟨t, pool, hadd, hesc⟩ :=
      @addRewards_conserves Addr _ s time s.parameters.rewardFactorEpochSigned _ hrates'
    refine .inr ⟨t, pool, ?_, hesc⟩
    rw [Except.mapError_ok, Except.ok_bind, hadd, Except.mapError_ok]

end StakingState

end Staking

end OasisCore
