import Mathlib.Algebra.Field.ZMod
import OasisCore.SecretSharing.Switch

/-!
# Handoffs

The three handoffs of `churp/handoff.rs` wrap one or two dimension switches: the dealing
phase and an unchanged committee only merge bivariate shares into a full share, a
changing committee first reduces shares and then distributes full ones. Each
constructor checks the number of listed shareholders and then drives its switches to
the phase where they wait for shares.

The constructors compare the length of the list and never the number of distinct
identities, and the switch removes one occurrence of a dealer per accepted share. So a
dealer listed twice is accepted twice, and its share counts twice in the combined one:
`DealingPhase.new_eq_ok` and `count_pending_addBivariateShare` say this for every list,
`dealingPhase_repeated_dealer` at a list of one dealer listed twice.
-/

namespace OasisCore

namespace SecretSharing

namespace Churp

variable {F G : Type} [Field F] [DecidableEq F] [AddCommGroup G] [Module F G] [DecidableEq G]

/-- `HandoffKind::require_zero_hole` (`handoff.rs:73-79`). -/
def HandoffKind.requireZeroHole : HandoffKind → Bool
  | .dealingPhase => false
  | .committeeUnchanged => true
  | .committeeChanged => true

/-! ## The dealing phase -/

/-- `DealingPhase` (`handoff.rs:164-171`). -/
structure DealingPhase (F G : Type) where
  shareDistribution : DimensionSwitch F G

namespace DealingPhase

/-- `DealingPhase::new` (`handoff.rs:180-197`). -/
def new (threshold : UInt8) (me : F) (shareholders : List F) : Except Error (DealingPhase F G) := do
  if shareholders.length < threshold.toNat + 2 then throw .notEnoughShareholders
  let zeroHole := HandoffKind.dealingPhase.requireZeroHole
  let shareDistribution :=
    DimensionSwitch.newFullShareDistribution threshold zeroHole me shareholders
  let (r, shareDistribution) := shareDistribution.skipAccumulating
  r
  let (r, shareDistribution) := shareDistribution.startMerging none
  r
  pure ⟨shareDistribution⟩

/-- `needs_bivariate_share` (`handoff.rs:205-207`). -/
def needsBivariateShare (h : DealingPhase F G) (x : F) : Except Error Bool :=
  h.shareDistribution.needsBivariateShare x

variable (generator : G)

/-- `add_bivariate_share` (`handoff.rs:209-216`). -/
def addBivariateShare (h : DealingPhase F G) (x : F) (vs : VerifiableSecretShare F G) :
    Except Error Bool × DealingPhase F G :=
  let (r, shareDistribution) := h.shareDistribution.addBivariateShare generator x vs
  (r, ⟨shareDistribution⟩)

/-- `get_full_shareholder` (`handoff.rs:218-220`). -/
def getFullShareholder (h : DealingPhase F G) : Except Error (Shareholder F G) :=
  h.shareDistribution.getShareholder

omit [Field F] [DecidableEq F] [AddCommGroup G] [Module F G] [DecidableEq G] in
/-- The dealing phase starts exactly when at least `t + 2` shareholders are listed,
counted with repetitions; its switch then merges shares from the listed ones. -/
theorem new_eq_ok {threshold : UInt8} {me : F} {shareholders : List F}
    {dp : DealingPhase F G} :
    new threshold me shareholders = .ok dp ↔
      threshold.toNat + 2 ≤ shareholders.length ∧
        dp = ⟨⟨threshold, false, true, me, shareholders,
          .merging ⟨threshold, false, true, me, shareholders, shareholders, none, none⟩⟩⟩ := by
  unfold new
  by_cases hlen : shareholders.length < threshold.toNat + 2
  · rw [if_pos hlen, Except.throw_bind]
    simp only [reduceCtorEq, false_iff, not_and]
    omega
  rw [if_neg hlen]
  have hne : shareholders.isEmpty = false := by
    rw [List.isEmpty_eq_false_iff]
    rintro rfl
    simp at hlen
  simp [DimensionSwitch.newFullShareDistribution, DimensionSwitch.new,
    DimensionSwitch.skipAccumulating, DimensionSwitch.startMerging, BivariateShares.new, hne,
    HandoffKind.requireZeroHole, eq_comm]
  omega

end DealingPhase

/-! ## An unchanged committee -/

/-- `CommitteeUnchanged` (`handoff.rs:226-233`). -/
structure CommitteeUnchanged (F G : Type) where
  shareDistribution : DimensionSwitch F G

namespace CommitteeUnchanged

/-- `CommitteeUnchanged::new` (`handoff.rs:242-255`). -/
def new (threshold : UInt8) (me : F) (shareholders : List F) :
    Except Error (CommitteeUnchanged F G) := do
  if shareholders.length < threshold.toNat + 1 then throw .notEnoughShareholders
  let zeroHole := HandoffKind.committeeUnchanged.requireZeroHole
  let shareDistribution :=
    DimensionSwitch.newFullShareDistribution threshold zeroHole me shareholders
  let (r, shareDistribution) := shareDistribution.skipAccumulating
  r
  pure ⟨shareDistribution⟩

/-- `needs_shareholder` (`handoff.rs:262-264`). -/
def needsShareholder (h : CommitteeUnchanged F G) : Except Error Bool :=
  .ok h.shareDistribution.isWaitingForShareholder

/-- `set_shareholder` (`handoff.rs:266-268`). -/
def setShareholder (h : CommitteeUnchanged F G) (shareholder : Shareholder F G) :
    Except Error Unit × CommitteeUnchanged F G :=
  let (r, shareDistribution) := h.shareDistribution.startMerging (some shareholder)
  (r, ⟨shareDistribution⟩)

/-- `needs_bivariate_share` (`handoff.rs:270-272`). -/
def needsBivariateShare (h : CommitteeUnchanged F G) (x : F) : Except Error Bool :=
  h.shareDistribution.needsBivariateShare x

variable (generator : G)

/-- `add_bivariate_share` (`handoff.rs:274-281`). -/
def addBivariateShare (h : CommitteeUnchanged F G) (x : F) (vs : VerifiableSecretShare F G) :
    Except Error Bool × CommitteeUnchanged F G :=
  let (r, shareDistribution) := h.shareDistribution.addBivariateShare generator x vs
  (r, ⟨shareDistribution⟩)

/-- `get_full_shareholder` (`handoff.rs:283-285`). -/
def getFullShareholder (h : CommitteeUnchanged F G) : Except Error (Shareholder F G) :=
  h.shareDistribution.getShareholder

omit [Field F] [DecidableEq F] [AddCommGroup G] [Module F G] [DecidableEq G] in
/-- An unchanged committee starts exactly when at least `t + 1` shareholders are listed,
counted with repetitions. -/
theorem new_eq_ok {threshold : UInt8} {me : F} {shareholders : List F}
    {h : CommitteeUnchanged F G} :
    new threshold me shareholders = .ok h ↔
      threshold.toNat + 1 ≤ shareholders.length ∧
        h = ⟨⟨threshold, true, true, me, shareholders, .waitingForShareholder⟩⟩ := by
  unfold new
  by_cases hlen : shareholders.length < threshold.toNat + 1
  · rw [if_pos hlen, Except.throw_bind]
    simp only [reduceCtorEq, false_iff, not_and]
    omega
  rw [if_neg hlen]
  simp [DimensionSwitch.newFullShareDistribution, DimensionSwitch.new,
    DimensionSwitch.skipAccumulating, HandoffKind.requireZeroHole, eq_comm]
  omega

end CommitteeUnchanged

/-! ## A changing committee -/

/-- `CommitteeChanged` (`handoff.rs:290-300`). -/
structure CommitteeChanged (F G : Type) where
  shareReduction : DimensionSwitch F G
  shareDistribution : DimensionSwitch F G

namespace CommitteeChanged

/-- `CommitteeChanged::new` (`handoff.rs:309-325`). -/
def new (threshold : UInt8) (me : F) (shareholders : List F) :
    Except Error (CommitteeChanged F G) := do
  if shareholders.length < threshold.toNat + 1 then throw .notEnoughShareholders
  let zeroHole := HandoffKind.committeeChanged.requireZeroHole
  let shareReduction := DimensionSwitch.newShareReduction threshold zeroHole me shareholders
  let shareDistribution := DimensionSwitch.newFullShareDistribution threshold zeroHole me []
  pure ⟨shareReduction, shareDistribution⟩

/-- `needs_verification_matrix` (`handoff.rs:332-334`). -/
def needsVerificationMatrix (h : CommitteeChanged F G) : Except Error Bool :=
  .ok h.shareReduction.isWaitingForVerificationMatrix

/-- `set_verification_matrix` (`handoff.rs:336-338`). -/
def setVerificationMatrix (h : CommitteeChanged F G) (vm : VerificationMatrix G) :
    Except Error Unit × CommitteeChanged F G :=
  let (r, shareReduction) := h.shareReduction.startAccumulating vm
  (r, { h with shareReduction })

/-- `needs_share_reduction_switch_point` (`handoff.rs:340-342`). -/
def needsShareReductionSwitchPoint (h : CommitteeChanged F G) (x : F) : Except Error Bool :=
  h.shareReduction.needsSwitchPoint x

/-- `needs_full_share_distribution_switch_point` (`handoff.rs:348-350`). -/
def needsFullShareDistributionSwitchPoint (h : CommitteeChanged F G) (x : F) :
    Except Error Bool :=
  h.shareDistribution.needsSwitchPoint x

/-- `needs_bivariate_share` (`handoff.rs:359-361`). -/
def needsBivariateShare (h : CommitteeChanged F G) (x : F) : Except Error Bool :=
  h.shareReduction.needsBivariateShare x

variable (generator : G)

/-- `add_share_reduction_switch_point` (`handoff.rs:344-346`). -/
def addShareReductionSwitchPoint (h : CommitteeChanged F G) (point : Point F) :
    Except Error Bool × CommitteeChanged F G :=
  let (r, shareReduction) := h.shareReduction.addSwitchPoint generator point
  (r, { h with shareReduction })

/-- `add_full_share_distribution_switch_point` (`handoff.rs:352-357`). -/
def addFullShareDistributionSwitchPoint (h : CommitteeChanged F G) (point : Point F) :
    Except Error Bool × CommitteeChanged F G :=
  let (r, shareDistribution) := h.shareDistribution.addSwitchPoint generator point
  (r, { h with shareDistribution })

/-- `add_bivariate_share` (`handoff.rs:363-385`): once the reduction is done, its
shareholder's matrix starts the distribution. -/
def addBivariateShare (h : CommitteeChanged F G) (x : F) (vs : VerifiableSecretShare F G) :
    Except Error Bool × CommitteeChanged F G :=
  match h.shareReduction.addBivariateShare generator x vs with
  | (.error e, shareReduction) => (.error e, { h with shareReduction })
  | (.ok false, shareReduction) => (.ok false, { h with shareReduction })
  | (.ok true, shareReduction) =>
    match shareReduction.getShareholder with
    | .error e => (.error e, { h with shareReduction })
    | .ok shareholder =>
      match h.shareDistribution.startAccumulating shareholder.verifiableShare.vm with
      | (.error e, shareDistribution) => (.error e, ⟨shareReduction, shareDistribution⟩)
      | (.ok (), shareDistribution) => (.ok true, ⟨shareReduction, shareDistribution⟩)

/-- `get_reduced_shareholder` (`handoff.rs:387-389`). -/
def getReducedShareholder (h : CommitteeChanged F G) : Except Error (Shareholder F G) :=
  h.shareReduction.getShareholder

/-- `get_full_shareholder` (`handoff.rs:391-393`). -/
def getFullShareholder (h : CommitteeChanged F G) : Except Error (Shareholder F G) :=
  h.shareDistribution.getShareholder

omit [Field F] [DecidableEq F] [AddCommGroup G] [Module F G] [DecidableEq G] in
/-- A changing committee starts exactly when at least `t + 1` shareholders are listed,
counted with repetitions. -/
theorem new_eq_ok {threshold : UInt8} {me : F} {shareholders : List F}
    {h : CommitteeChanged F G} :
    new threshold me shareholders = .ok h ↔
      threshold.toNat + 1 ≤ shareholders.length ∧
        h = ⟨⟨threshold, true, false, me, shareholders, .waitingForVerificationMatrix⟩,
          ⟨threshold, true, true, me, [], .waitingForVerificationMatrix⟩⟩ := by
  unfold new
  by_cases hlen : shareholders.length < threshold.toNat + 1
  · rw [if_pos hlen, Except.throw_bind]
    simp only [reduceCtorEq, false_iff, not_and]
    omega
  rw [if_neg hlen]
  simp [DimensionSwitch.newShareReduction, DimensionSwitch.newFullShareDistribution,
    DimensionSwitch.new, HandoffKind.requireZeroHole, pure, Except.pure, eq_comm]
  omega

end CommitteeChanged

/-! ## A dealer listed twice -/

/-- The matrix `[[1]]`: the commitment, with generator `1`, to the dealer `B(x, y) = 1`
of threshold `0`. -/
def unitMatrix : VerificationMatrix (ZMod 3) :=
  ⟨1, 1, [[1]], rfl, by simp⟩

/-- The share `B(1, y) = 1` of that dealer for the shareholder `1`. -/
def unitShare : VerifiableSecretShare (ZMod 3) (ZMod 3) :=
  ⟨⟨1, ⟨[1], by simp⟩⟩, unitMatrix⟩

theorem dealingPhase_repeated_dealer :
    ([1, 1] : List (ZMod 3)).toFinset.card < 0 + 2 ∧
      (∃ dp : DealingPhase (ZMod 3) (ZMod 3), DealingPhase.new 0 1 [1, 1] = .ok dp ∧
        (dp.addBivariateShare 1 1 unitShare).1 = .ok false ∧
        ((dp.addBivariateShare 1 1 unitShare).2.addBivariateShare 1 1 unitShare).1 = .ok true ∧
        ((dp.addBivariateShare 1 1 unitShare).2.addBivariateShare 1 1 unitShare).2.getFullShareholder =
          .ok ⟨unitShare.addAssign unitShare⟩) ∧
      ([1, 1] : List (ZMod 3)).toFinset.card < 1 + 1 ∧
      (∃ h : CommitteeUnchanged (ZMod 3) (ZMod 3), CommitteeUnchanged.new 1 1 [1, 1] = .ok h) ∧
      ∃ h : CommitteeChanged (ZMod 3) (ZMod 3), CommitteeChanged.new 1 1 [1, 1] = .ok h :=
  ⟨by decide, ⟨_, rfl, rfl, rfl, rfl⟩, by decide, ⟨_, rfl⟩, ⟨_, rfl⟩⟩

end Churp

end SecretSharing

end OasisCore
