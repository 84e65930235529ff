import OasisCore.Misc.Except
import OasisCore.Staking.CommissionAmend
import OasisCore.Staking.Genesis

/-!
# Amending a commission schedule

`amendCommissionSchedule` (`go/consensus/cometbft/apps/staking/transactions.go`) lets an
account with the stake to run a validator amend its commission schedule: the amendment
goes through `AmendAndPruneAndValidate` under the consensus parameters' rules at the
current epoch, and the account is stored with the amended schedule. A refused amendment
returns before any write.

The step loops of `validateNondegenerate` take every start modulo `RateChangeInterval`,
which panics when the interval is zero; the model returns `divideByZero` there. Validation
reaches that panic exactly when the interval is zero and the schedule that is checked has
a step and passes the complexity check (`pruneAndValidate_eq_divideByZero_iff`,
`amendAndPruneAndValidate_eq_divideByZero_iff`). `ConsensusParameters.SanityCheck` does not
look at the interval.
-/

namespace OasisCore

namespace Staking

/-- The errors of `amendCommissionSchedule` once its gas is charged. -/
inductive AmendCommissionScheduleError where
  | staking (e : StakingError)
  /-- The error of `AmendAndPruneAndValidate`, returned as it is. -/
  | commission (e : CommissionError)
  deriving DecidableEq, Repr

namespace CommissionSchedule

/-! ## Where validation panics -/

section DivideByZero

variable {rules : CommissionScheduleRules}

theorem validateRateSteps_eq_divideByZero :
    ∀ {i : ℕ} {previous : Option EpochTime} {steps : List CommissionRateStep},
      validateRateSteps rules i previous steps = .error .divideByZero ↔
        rules.rateChangeInterval = 0 ∧ steps ≠ []
  | _, _, [] => by simp [validateRateSteps]
  | i, previous, step :: rest => by
    unfold validateRateSteps
    by_cases hzero : rules.rateChangeInterval = 0
    · simp [hzero]
    · rw [if_neg hzero]
      split_ifs
      · simp [hzero]
      · simp [hzero]
      · simp [hzero]
      · simp [hzero]
      · rw [validateRateSteps_eq_divideByZero]
        simp [hzero]

theorem validateBoundSteps_eq_divideByZero :
    ∀ {i : ℕ} {previous : Option EpochTime} {steps : List CommissionRateBoundStep},
      validateBoundSteps rules i previous steps = .error .divideByZero ↔
        rules.rateChangeInterval = 0 ∧ steps ≠ []
  | _, _, [] => by simp [validateBoundSteps]
  | i, previous, step :: rest => by
    unfold validateBoundSteps
    by_cases hzero : rules.rateChangeInterval = 0
    · simp [hzero]
    · rw [if_neg hzero]
      split_ifs
      · simp [hzero]
      · simp [hzero]
      · simp [hzero]
      · simp [hzero]
      · simp [hzero]
      · simp [hzero]
      · simp [hzero]
      · rw [validateBoundSteps_eq_divideByZero]
        simp [hzero]

theorem validateNondegenerate_eq_divideByZero {cs : CommissionSchedule} :
    cs.validateNondegenerate rules = .error .divideByZero ↔
      rules.rateChangeInterval = 0 ∧ cs.isEmpty = false := by
  unfold validateNondegenerate isEmpty
  rw [Except.bind_eq_error, validateRateSteps_eq_divideByZero]
  by_cases hzero : rules.rateChangeInterval = 0
  · cases hrates : cs.rates with
    | nil =>
      have hok : validateRateSteps rules 0 none [] = .ok () := rfl
      simp [hzero, hok, validateBoundSteps_eq_divideByZero]
    | cons r rest => simp [hzero]
  · -- With a nonzero interval neither loop reaches the modulus panic.
    simp only [hzero, false_and, false_or, iff_false, not_exists, not_and]
    intro _ _ h
    exact hzero (validateBoundSteps_eq_divideByZero.mp h).1

theorem validateComplexity_ne_error_divideByZero (cs : CommissionSchedule) :
    cs.validateComplexity rules ≠ .error .divideByZero := by
  unfold validateComplexity
  split_ifs <;> simp

theorem validateAmendmentAcceptable_ne_error_divideByZero (cs : CommissionSchedule)
    (now : EpochTime) (initialSchedule : Bool) :
    cs.validateAmendmentAcceptable rules now initialSchedule ≠ .error .divideByZero := by
  have hbounds : validateAmendmentAcceptable.boundsAcceptable cs rules now initialSchedule ≠
      .error .divideByZero := by
    unfold validateAmendmentAcceptable.boundsAcceptable
    split
    · simp
    · dsimp only
      split_ifs <;> simp
  unfold validateAmendmentAcceptable
  split
  · split_ifs
    · simp
    · exact hbounds
  · exact hbounds

/-- `PruneAndValidate` panics exactly when the interval is zero and the schedule has a step
and is not too long. -/
theorem pruneAndValidate_eq_divideByZero_iff {cs : CommissionSchedule} {now : EpochTime} :
    cs.pruneAndValidate rules now = .error .divideByZero ↔
      cs.validateComplexity rules = .ok () ∧ rules.rateChangeInterval = 0 ∧
        cs.isEmpty = false := by
  unfold pruneAndValidate
  simp only [Except.bind_eq_error, validateComplexity_ne_error_divideByZero, false_or,
    validateNondegenerate_eq_divideByZero, Except.mapError_eq_error, reduceCtorEq, and_false,
    exists_false, Except.pure_ne_error, or_false]
  constructor
  · rintro ⟨⟨⟩, hcomplexity, hpanic⟩
    exact ⟨hcomplexity, hpanic⟩
  · rintro ⟨hcomplexity, hpanic⟩
    exact ⟨(), hcomplexity, hpanic⟩

/-- `AmendAndPruneAndValidate` panics exactly when the interval is zero and the amendment
has a step and is not too long. -/
theorem amendAndPruneAndValidate_eq_divideByZero_iff {cs amendment : CommissionSchedule}
    {now : EpochTime} :
    cs.amendAndPruneAndValidate amendment rules now = .error (.amendment .divideByZero) ↔
      amendment.validateComplexity rules = .ok () ∧ rules.rateChangeInterval = 0 ∧
        amendment.isEmpty = false := by
  unfold amendAndPruneAndValidate
  simp only [Except.bind_eq_error, Except.mapError_eq_error, CommissionError.amendment.injEq,
    exists_eq_right, validateComplexity_ne_error_divideByZero, false_or,
    validateNondegenerate_eq_divideByZero, validateAmendmentAcceptable_ne_error_divideByZero,
    reduceCtorEq, and_false, exists_false, Except.pure_ne_error, or_false]
  constructor
  · rintro ⟨⟨⟩, hcomplexity, hpanic⟩
    exact ⟨Except.mapError_eq_ok.mp hcomplexity, hpanic⟩
  · rintro ⟨hcomplexity, hpanic⟩
    exact ⟨(), by rw [hcomplexity, Except.mapError_ok], hpanic⟩

end DivideByZero

end CommissionSchedule

namespace StakingState

variable {Addr : Type} [DecidableEq Addr]

/-- `amendCommissionSchedule` (`transactions.go:533-601`) in `DeliverTx`, by `fromAddr` at
`epoch`, once its gas is charged. The stake asked of the caller is the entity threshold
plus the validator node threshold, each zero where it is not set. -/
def amendCommissionSchedule (space : AddressSpace Addr) (s : StakingState Addr)
    (epoch : EpochTime) (fromAddr : Addr) (amendment : CommissionSchedule) :
    Except AmendCommissionScheduleError (StakingState Addr) := do
  if space.isReserved fromAddr then throw (.staking .forbidden)
  let fromAccount := s.accounts.get fromAddr
  let requiredStake := (s.parameters.thresholds .entity).getD 0 +
    (s.parameters.thresholds .nodeValidator).getD 0
  if fromAccount.escrow.active.balance < requiredStake then throw (.staking .insufficientStake)
  let commissionSchedule ← (fromAccount.escrow.commissionSchedule.amendAndPruneAndValidate
    amendment s.parameters.commissionScheduleRules epoch).mapError .commission
  pure (s.setAccount fromAddr
    { fromAccount with escrow := { fromAccount.escrow with commissionSchedule } })

/-- An amendment is stored exactly when the caller is not reserved, has the stake and
`AmendAndPruneAndValidate` accepts it; only the caller's schedule changes. -/
theorem amendCommissionSchedule_eq_ok {space : AddressSpace Addr} {s s' : StakingState Addr}
    {epoch : EpochTime} {fromAddr : Addr} {amendment : CommissionSchedule} :
    s.amendCommissionSchedule space epoch fromAddr amendment = .ok s' ↔
      space.isReserved fromAddr = false ∧
      (s.parameters.thresholds .entity).getD 0 + (s.parameters.thresholds .nodeValidator).getD 0 ≤
        (s.accounts.get fromAddr).escrow.active.balance ∧
      ∃ cs, (s.accounts.get fromAddr).escrow.commissionSchedule.amendAndPruneAndValidate
          amendment s.parameters.commissionScheduleRules epoch = .ok cs ∧
        s' = s.setAccount fromAddr { s.accounts.get fromAddr with
          escrow := { (s.accounts.get fromAddr).escrow with commissionSchedule := cs } } := by
  unfold amendCommissionSchedule
  simp only [Except.throw_bind, Except.ite_error_eq_ok, Except.bind_eq_ok, Bool.not_eq_true,
    not_lt, Except.mapError_eq_ok, Except.pure_eq_ok]
  constructor
  · rintro ⟨hreserved, hstake, cs, hcs, rfl⟩
    exact ⟨hreserved, hstake, cs, hcs, rfl⟩
  · rintro ⟨hreserved, hstake, cs, hcs, rfl⟩
    exact ⟨hreserved, hstake, cs, hcs, rfl⟩

/-- Under a zero interval, a caller with the stake reaches the modulus panic with every
amendment that has a step and is not too long. -/
theorem amendCommissionSchedule_panics {space : AddressSpace Addr} {s : StakingState Addr}
    {epoch : EpochTime} {fromAddr : Addr} {amendment : CommissionSchedule}
    (hzero : s.parameters.commissionScheduleRules.rateChangeInterval = 0)
    (hreserved : space.isReserved fromAddr = false)
    (hstake : (s.parameters.thresholds .entity).getD 0 +
      (s.parameters.thresholds .nodeValidator).getD 0 ≤
        (s.accounts.get fromAddr).escrow.active.balance)
    (hcomplexity : amendment.validateComplexity s.parameters.commissionScheduleRules = .ok ())
    (hne : amendment.isEmpty = false) :
    s.amendCommissionSchedule space epoch fromAddr amendment =
      .error (.commission (.amendment .divideByZero)) := by
  have hpanic : (s.accounts.get fromAddr).escrow.commissionSchedule.amendAndPruneAndValidate
      amendment s.parameters.commissionScheduleRules epoch =
        .error (.amendment .divideByZero) :=
    CommissionSchedule.amendAndPruneAndValidate_eq_divideByZero_iff.mpr ⟨hcomplexity, hzero, hne⟩
  unfold amendCommissionSchedule
  rw [if_neg (by simp [hreserved]), if_neg (not_lt.mpr hstake), hpanic]
  rfl

end StakingState

/-- Parameters that pass `ConsensusParameters.SanityCheck` with a zero `RateChangeInterval`
and room for one rate step and one bound step. -/
def zeroIntervalParameters : ConsensusParameters ℕ :=
  { zeroShareParameters with commissionScheduleRules := ⟨0, 0, 1, 1, 0⟩ }

/-- The parameter check accepts a zero interval; then an amendment with one rate step, and
a stored schedule with one step of each kind, both reach the modulus panic. -/
theorem sanityCheck_zero_rateChangeInterval_panics :
    zeroIntervalParameters.sanityCheck false = .ok () ∧
      (StakingState.init zeroIntervalParameters).amendCommissionSchedule natAddressSpace 0 1
        ⟨[⟨1, 0⟩], []⟩ = .error (.commission (.amendment .divideByZero)) ∧
      (⟨[⟨0, 0⟩], [⟨0, 0, 0⟩]⟩ : CommissionSchedule).pruneAndValidate
        zeroIntervalParameters.commissionScheduleRules 0 = .error .divideByZero := by
  refine ⟨by decide, ?_, ?_⟩
  · exact StakingState.amendCommissionSchedule_panics rfl rfl (by decide) (by decide) rfl
  · exact CommissionSchedule.pruneAndValidate_eq_divideByZero_iff.mpr ⟨by decide, rfl, rfl⟩

end Staking

end OasisCore
