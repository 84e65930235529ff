import OasisCore.Staking.Payouts

/-!
# Slashing of runtime nodes

The roothash application slashes the entities of runtime nodes through `SlashEscrow`
(`go/consensus/cometbft/apps/roothash/slashing.go`). It does so for a liveness failure,
for equivocation evidence, and for incorrect results found by discrepancy resolution. It
then hands part of what it slashed to the runtime's account and the rest, split evenly, to
the other addresses rewarded: the caller who gave the evidence, or the backup workers who
resolved the discrepancy (`distributeSlashedFunds`).

The registry lookups that turn a node into its entity, and the caller into its node's
entity, are left out: the addresses they give are inputs. The percentage of the runtime is
a `uint8` that the registry's runtime checks keep at most 100. With such a percentage the
rewards never take more than was slashed, so slashing for incorrect results never leaves
the common pool smaller than it was (`onRuntimeIncorrectResults_commonPool`). Every
routine keeps the invariant of `Ledger`.
-/

namespace OasisCore

namespace Roothash

open Staking

/-- The errors of the slashing routines of `slashing.go`. -/
inductive SlashingError (Addr : Type) where
  /-- "cometbft/roothash: error slashing account %s: %w" -/
  | slashingAccount (addr : Addr) (e : SlashEscrowError)
  /-- "error slashing account %s: %w", of `onRuntimeLivenessFailure`. -/
  | slashingLivenessAccount (addr : Addr) (e : SlashEscrowError)
  /-- "cometbft/roothash: failed transferring reward to %s: %w" -/
  | transferringReward (addr : Addr) (e : RewardError)
  /-- "cometbft/roothash: remainingReward.Sub(runtimeAccReward): %w" -/
  | remainingRewardSub (e : QuantityError)
  /-- "cometbft/roothash: remainingReward.Quo(len(discrepancyResolvers)): %w" -/
  | remainingRewardQuo (e : QuantityError)

variable {Addr K : Type} [DecidableEq Addr]

/-- The reward of one of the other addresses in the loop of `distributeSlashedFunds`,
escrowed. -/
def transferOtherReward (epoch : EpochTime) (otherReward : ℕ) (s : StakingState Addr)
    (addr : Addr) : Except (SlashingError Addr) (StakingState Addr) := do
  let (s, _) ← (s.transferFromCommon epoch addr otherReward true).mapError (.transferringReward addr)
  pure s

/-- `distributeSlashedFunds` (`slashing.go:152-213`) at `epoch`: `runtimePercentage`
percent of `totalSlashed` goes from the common pool to the general balance of the runtime's
account `runtimeAddr`, and what is left, split evenly, into the escrow of each of
`otherAddresses`. The multiplication and the division by 100 cannot fail on natural
numbers. -/
def distributeSlashedFunds (s : StakingState Addr) (epoch : EpochTime)
    (totalSlashed runtimePercentage : ℕ) (runtimeAddr : Addr) (otherAddresses : List Addr) :
    Except (SlashingError Addr) (StakingState Addr) := do
  -- Runtime account reward.
  let runtimeAccReward := totalSlashed * runtimePercentage / 100
  let (s, _) ← (s.transferFromCommon epoch runtimeAddr runtimeAccReward false).mapError
    (.transferringReward runtimeAddr)
  if otherAddresses.length = 0 then pure s
  else do
    let otherReward ← (Quantity.sub totalSlashed runtimeAccReward).mapError .remainingRewardSub
    let otherReward ← (Quantity.quo otherReward otherAddresses.length).mapError
      .remainingRewardQuo
    otherAddresses.foldlM (transferOtherReward epoch otherReward) s

/-- One discrepancy causer in the loop of `onRuntimeIncorrectResults`: its entity
`newAddress pk` is slashed, and what it gave adds to the total. -/
def slashCauser (newAddress : K → Addr) (penaltyAmount : ℕ) (acc : StakingState Addr × ℕ)
    (pk : K) : Except (SlashingError Addr) (StakingState Addr × ℕ) := do
  let entityAddr := newAddress pk
  let (s, slashed) ← (acc.1.slashEscrow entityAddr penaltyAmount).mapError
    (.slashingAccount entityAddr)
  pure (s, acc.2 + slashed)

/-- `onRuntimeIncorrectResults` (`slashing.go:99-150`) at `epoch`: slashes the entities of
the discrepancy causers and distributes what they gave to the runtime's account and the
entities of the discrepancy resolvers. -/
def onRuntimeIncorrectResults (s : StakingState Addr) (epoch : EpochTime) (newAddress : K → Addr)
    (discrepancyCausers discrepancyResolvers : List K) (runtimeAddr : Addr)
    (runtimePercentage penaltyAmount : ℕ) : Except (SlashingError Addr) (StakingState Addr) :=
  if penaltyAmount = 0 then pure s
  else do
    let (s, totalSlashed) ←
      discrepancyCausers.foldlM (slashCauser newAddress penaltyAmount) (s, 0)
    -- It can happen that nothing was slashed as nodes could be out of stake.
    if totalSlashed = 0 then pure s
    else
      distributeSlashedFunds s epoch totalSlashed runtimePercentage runtimeAddr
        (discrepancyResolvers.map newAddress)

/-- `onEvidenceRuntimeEquivocation` (`slashing.go:41-97`) at `epoch`: slashes the entity
`entityAddr` of the equivocating node and distributes what it gave to the runtime's account
and `rewardAddr`, the caller or the entity of the caller's node. -/
def onEvidenceRuntimeEquivocation (s : StakingState Addr) (epoch : EpochTime)
    (entityAddr rewardAddr runtimeAddr : Addr) (runtimePercentage penaltyAmount : ℕ) :
    Except (SlashingError Addr) (StakingState Addr) :=
  if penaltyAmount = 0 then pure s
  else do
    let (s, totalSlashed) ← (s.slashEscrow entityAddr penaltyAmount).mapError
      (.slashingAccount entityAddr)
    -- Since evidence can be submitted for past rounds, the node can be out of stake.
    if totalSlashed = 0 then pure s
    else distributeSlashedFunds s epoch totalSlashed runtimePercentage runtimeAddr [rewardAddr]

/-- `onRuntimeLivenessFailure` (`slashing.go:17-39`): slashes the entity `entityAddr` of a
node that failed the liveness check. -/
def onRuntimeLivenessFailure (s : StakingState Addr) (entityAddr : Addr) (penaltyAmount : ℕ) :
    Except (SlashingError Addr) (StakingState Addr) :=
  if penaltyAmount = 0 then pure s
  else do
    let (s, _) ← (s.slashEscrow entityAddr penaltyAmount).mapError
      (.slashingLivenessAccount entityAddr)
    pure s

/-! ## The invariant -/

section Invariant

variable {s s' : StakingState Addr}

theorem Invariant.transferOtherReward (h : s.Invariant) {epoch : EpochTime} {otherReward : ℕ}
    {addr : Addr} (hs : transferOtherReward epoch otherReward s addr = .ok s') : s'.Invariant := by
  obtain ⟨⟨t, moved⟩, htransfer, hfinal⟩ := Except.bind_eq_ok.mp hs
  cases Except.pure_eq_ok.mp hfinal
  exact h.transferFromCommon (Except.mapError_eq_ok.mp htransfer)

theorem Invariant.distributeSlashedFunds (h : s.Invariant) {epoch : EpochTime}
    {totalSlashed runtimePercentage : ℕ} {runtimeAddr : Addr} {otherAddresses : List Addr}
    (hs : distributeSlashedFunds s epoch totalSlashed runtimePercentage runtimeAddr
      otherAddresses = .ok s') : s'.Invariant := by
  unfold Roothash.distributeSlashedFunds at hs
  obtain ⟨⟨t, moved⟩, hruntime, hs⟩ := Except.bind_eq_ok.mp hs
  have ht := h.transferFromCommon (Except.mapError_eq_ok.mp hruntime)
  dsimp only at hs
  split_ifs at hs
  · cases Except.pure_eq_ok.mp hs
    exact ht
  obtain ⟨rest, -, hs⟩ := Except.bind_eq_ok.mp hs
  obtain ⟨otherReward, -, hloop⟩ := Except.bind_eq_ok.mp hs
  exact Except.foldlM_inv_of_eq_ok otherAddresses (fun _ u => StakingState.Invariant u)
    (fun _ _ _ _ _ _ hu hstep => Invariant.transferOtherReward hu hstep) ht hloop

theorem Invariant.slashCauser {newAddress : K → Addr} {penaltyAmount : ℕ} {pk : K}
    {acc acc' : StakingState Addr × ℕ} (h : acc.1.Invariant)
    (hs : slashCauser newAddress penaltyAmount acc pk = .ok acc') : acc'.1.Invariant := by
  obtain ⟨⟨t, slashed⟩, hslash, hfinal⟩ := Except.bind_eq_ok.mp hs
  cases Except.pure_eq_ok.mp hfinal
  exact h.slashEscrow (Except.mapError_eq_ok.mp hslash)

theorem Invariant.onRuntimeIncorrectResults (h : s.Invariant) {epoch : EpochTime}
    {newAddress : K → Addr} {discrepancyCausers discrepancyResolvers : List K} {runtimeAddr : Addr}
    {runtimePercentage penaltyAmount : ℕ}
    (hs : onRuntimeIncorrectResults s epoch newAddress discrepancyCausers discrepancyResolvers
      runtimeAddr runtimePercentage penaltyAmount = .ok s') : s'.Invariant := by
  unfold Roothash.onRuntimeIncorrectResults at hs
  split_ifs at hs
  · cases Except.pure_eq_ok.mp hs
    exact h
  obtain ⟨⟨t, totalSlashed⟩, hloop, hs⟩ := Except.bind_eq_ok.mp hs
  have ht : t.Invariant := Except.foldlM_inv_of_eq_ok discrepancyCausers
    (fun _ (acc : StakingState Addr × ℕ) => acc.1.Invariant)
    (fun _ _ _ _ _ _ hacc hstep => Invariant.slashCauser hacc hstep) h hloop
  dsimp only at hs
  split_ifs at hs
  · cases Except.pure_eq_ok.mp hs
    exact ht
  · exact Invariant.distributeSlashedFunds ht hs

theorem Invariant.onEvidenceRuntimeEquivocation (h : s.Invariant) {epoch : EpochTime}
    {entityAddr rewardAddr runtimeAddr : Addr} {runtimePercentage penaltyAmount : ℕ}
    (hs : onEvidenceRuntimeEquivocation s epoch entityAddr rewardAddr runtimeAddr
      runtimePercentage penaltyAmount = .ok s') : s'.Invariant := by
  unfold Roothash.onEvidenceRuntimeEquivocation at hs
  split_ifs at hs
  · cases Except.pure_eq_ok.mp hs
    exact h
  obtain ⟨⟨t, totalSlashed⟩, hslash, hs⟩ := Except.bind_eq_ok.mp hs
  have ht := h.slashEscrow (Except.mapError_eq_ok.mp hslash)
  dsimp only at hs
  split_ifs at hs
  · cases Except.pure_eq_ok.mp hs
    exact ht
  · exact Invariant.distributeSlashedFunds ht hs

theorem Invariant.onRuntimeLivenessFailure (h : s.Invariant) {entityAddr : Addr}
    {penaltyAmount : ℕ} (hs : onRuntimeLivenessFailure s entityAddr penaltyAmount = .ok s') :
    s'.Invariant := by
  unfold Roothash.onRuntimeLivenessFailure at hs
  split_ifs at hs
  · cases Except.pure_eq_ok.mp hs
    exact h
  obtain ⟨⟨t, slashed⟩, hslash, hfinal⟩ := Except.bind_eq_ok.mp hs
  cases Except.pure_eq_ok.mp hfinal
  exact h.slashEscrow (Except.mapError_eq_ok.mp hslash)

end Invariant

/-! ## The common pool -/

section CommonPool

variable {s s' : StakingState Addr}

theorem transferOtherReward_commonPool {epoch : EpochTime} {otherReward : ℕ} {addr : Addr}
    (hs : transferOtherReward epoch otherReward s addr = .ok s') :
    s.commonPool ≤ s'.commonPool + otherReward := by
  obtain ⟨⟨t, moved⟩, htransfer, hfinal⟩ := Except.bind_eq_ok.mp hs
  cases Except.pure_eq_ok.mp hfinal
  have hpool := StakingState.transferFromCommon_commonPool (Except.mapError_eq_ok.mp htransfer)
  have hmin := Nat.min_le_right s.commonPool otherReward
  omega

/-- With a percentage of at most 100, `distributeSlashedFunds` takes at most `totalSlashed`
from the common pool: the runtime's part is at most that, and the others split what is
left, rounded down. -/
theorem distributeSlashedFunds_commonPool {epoch : EpochTime} {totalSlashed runtimePercentage : ℕ}
    {runtimeAddr : Addr} {otherAddresses : List Addr} (hpercent : runtimePercentage ≤ 100)
    (hs : distributeSlashedFunds s epoch totalSlashed runtimePercentage runtimeAddr
      otherAddresses = .ok s') : s.commonPool ≤ s'.commonPool + totalSlashed := by
  have hruntimeLe : totalSlashed * runtimePercentage / 100 ≤ totalSlashed :=
    Nat.div_le_of_le_mul (by rw [Nat.mul_comm 100]; exact Nat.mul_le_mul_left _ hpercent)
  unfold Roothash.distributeSlashedFunds at hs
  obtain ⟨⟨t, moved⟩, hruntime, hs⟩ := Except.bind_eq_ok.mp hs
  have hpool := StakingState.transferFromCommon_commonPool (Except.mapError_eq_ok.mp hruntime)
  have hmin := Nat.min_le_right s.commonPool (totalSlashed * runtimePercentage / 100)
  dsimp only at hs hpool
  split_ifs at hs with hlength
  · cases Except.pure_eq_ok.mp hs
    omega
  obtain ⟨rest, hrest, hs⟩ := Except.bind_eq_ok.mp hs
  obtain ⟨-, rfl⟩ := Quantity.sub_eq_ok.mp (Except.mapError_eq_ok.mp hrest)
  obtain ⟨otherReward, hquo, hloop⟩ := Except.bind_eq_ok.mp hs
  obtain ⟨-, rfl⟩ := Quantity.quo_eq_ok.mp (Except.mapError_eq_ok.mp hquo)
  -- Each of the others takes at most its even share of what the runtime left.
  have hloopLe : t.commonPool ≤ s'.commonPool + otherAddresses.length *
      ((totalSlashed - totalSlashed * runtimePercentage / 100) / otherAddresses.length) :=
    Except.foldlM_inv_of_eq_ok otherAddresses
      (fun done u => t.commonPool ≤ u.commonPool + done.length *
        ((totalSlashed - totalSlashed * runtimePercentage / 100) / otherAddresses.length))
      (fun done _ _ u u' _ hu hstep => by
        have := transferOtherReward_commonPool hstep
        rw [List.length_append, List.length_singleton, Nat.add_mul, Nat.one_mul]
        omega)
      (by simp) hloop
  have hsplit := Nat.mul_div_le (totalSlashed - totalSlashed * runtimePercentage / 100)
    otherAddresses.length
  omega

theorem slashCauser_commonPool {newAddress : K → Addr} {penaltyAmount : ℕ} {pk : K}
    {acc acc' : StakingState Addr × ℕ}
    (hs : slashCauser newAddress penaltyAmount acc pk = .ok acc') :
    acc'.1.commonPool + acc.2 = acc.1.commonPool + acc'.2 := by
  obtain ⟨⟨t, slashed⟩, hslash, hfinal⟩ := Except.bind_eq_ok.mp hs
  cases Except.pure_eq_ok.mp hfinal
  obtain ⟨t', ht', -, hcommon, -, -⟩ :=
    StakingState.slashEscrow_eq_ok acc.1 (newAddress pk) penaltyAmount
  rw [Except.mapError_eq_ok, ht'] at hslash
  obtain ⟨rfl, rfl⟩ := Prod.mk.inj (Except.ok.inj hslash)
  dsimp only
  omega

/-- With a percentage of at most 100, the rewards for incorrect results never take more than
was slashed: the common pool ends at least as large as it was. -/
theorem onRuntimeIncorrectResults_commonPool {epoch : EpochTime} {newAddress : K → Addr}
    {discrepancyCausers discrepancyResolvers : List K} {runtimeAddr : Addr}
    {runtimePercentage penaltyAmount : ℕ} (hpercent : runtimePercentage ≤ 100)
    (hs : onRuntimeIncorrectResults s epoch newAddress discrepancyCausers discrepancyResolvers
      runtimeAddr runtimePercentage penaltyAmount = .ok s') : s.commonPool ≤ s'.commonPool := by
  unfold Roothash.onRuntimeIncorrectResults at hs
  split_ifs at hs
  · cases Except.pure_eq_ok.mp hs
    exact le_rfl
  obtain ⟨⟨t, totalSlashed⟩, hloop, hs⟩ := Except.bind_eq_ok.mp hs
  -- The slashes put exactly what they gave into the common pool.
  have hslashed : t.commonPool = s.commonPool + totalSlashed := Except.foldlM_inv_of_eq_ok
    discrepancyCausers (fun _ (acc : StakingState Addr × ℕ) => acc.1.commonPool = s.commonPool + acc.2)
    (fun _ _ _ _ _ _ hacc hstep => by
      have := slashCauser_commonPool hstep
      omega)
    rfl hloop
  dsimp only at hs
  split_ifs at hs
  · cases Except.pure_eq_ok.mp hs
    omega
  · have := distributeSlashedFunds_commonPool hpercent hs
    omega

/-- Entity `1` of `debondingStart` is slashed 10 for incorrect results; half goes to the
runtime's account `3`, the rest into the escrow of the resolver `2`. -/
theorem onRuntimeIncorrectResults_commonPool_half :
    50 ≤ 100 ∧ ∃ s', onRuntimeIncorrectResults debondingStart 10 id [1] [2] 3 50 10 = .ok s' ∧
      debondingStart.commonPool ≤ s'.commonPool := by
  obtain ⟨s', hs⟩ : ∃ s', onRuntimeIncorrectResults debondingStart 10 id [1] [2] 3 50 10 =
      .ok s' := ⟨_, rfl⟩
  exact ⟨by decide, s', hs, onRuntimeIncorrectResults_commonPool (by decide) hs⟩

end CommonPool

end Roothash

end OasisCore
