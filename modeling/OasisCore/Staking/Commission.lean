import Mathlib.Data.Nat.Notation

/-!
# Commission schedules

`go/staking/api/commission.go`. An escrow account's commission schedule is a list
of rate steps and a list of rate bound steps, each taking effect at an epoch. The
schedule is validated against the consensus rules when it is imported from genesis
(`PruneAndValidate`) and when its owner amends it (`AmendAndPruneAndValidate`);
rewards read the rate in effect (`CurrentRate`).

Rate steps and bound steps are pruned and spliced alike, so `pruneSteps` and
`spliceSteps` are written once over a step's start epoch; the two validations of
steps differ in their checks and keep their own bodies.

The Go errors are `fmt.Errorf` texts; `CommissionError` has one constructor per
text, with the values the text prints. `validateNondegenerate` computes
`Start % RateChangeInterval`, which is a Go run-time panic when the interval is
zero; the model returns `divideByZero` there.
-/

namespace OasisCore

/-- `beacon.EpochTime`, a `uint64`. -/
abbrev EpochTime := UInt64

namespace Staking

/-- `CommissionRateDenominator` (`commission.go:14-23`, `412-421`): `10^5`. -/
def commissionRateDenominator : ℕ := 100000

/-- `CommissionScheduleRules` (`commission.go:30-46`). -/
structure CommissionScheduleRules where
  rateChangeInterval : EpochTime
  rateBoundLead : EpochTime
  maxRateSteps : UInt16
  maxBoundSteps : UInt16
  minCommissionRate : ℕ
  deriving DecidableEq, Repr

/-- `CommissionRateStep` (`commission.go:48-54`). -/
structure CommissionRateStep where
  start : EpochTime
  rate : ℕ
  deriving DecidableEq, Repr

/-- `CommissionRateBoundStep` (`commission.go:70-79`). -/
structure CommissionRateBoundStep where
  start : EpochTime
  rateMin : ℕ
  rateMax : ℕ
  deriving DecidableEq, Repr

/-- `CommissionSchedule` (`commission.go:96-102`). -/
structure CommissionSchedule where
  rates : List CommissionRateStep := []
  bounds : List CommissionRateBoundStep := []
  deriving DecidableEq, Repr

/-- The error texts of `commission.go`, with the values they print. -/
inductive CommissionError where
  | rateStepsExceedMaximum (steps maximum : ℕ)
  | boundStepsExceedMaximum (steps maximum : ℕ)
  /-- Not an error value: `Start % RateChangeInterval` with a zero interval panics. -/
  | divideByZero
  | rateStepNotAligned (index : ℕ) (start interval : EpochTime)
  | rateStepNotAfterPrevious (index : ℕ) (start previous : EpochTime)
  | rateStepOverUnity (index rate : ℕ)
  | rateStepBelowMinimum (index rate minimum : ℕ)
  | boundStepNotAligned (index : ℕ) (start interval : EpochTime)
  | boundStepNotAfterPrevious (index : ℕ) (start previous : EpochTime)
  | boundStepMinimumOverUnity (index rate : ℕ)
  | boundStepMaximumOverUnity (index rate : ℕ)
  | boundStepMaximumBelowMinimum (index rateMax rateMin : ℕ)
  | boundStepMaximumBelowAllowed (index rateMax minimum : ℕ)
  | boundStepMinimumBelowAllowed (index rateMin minimum : ℕ)
  | rateScheduleAltersPast (start now : EpochTime)
  | boundScheduleAltersEarly (start earliest : EpochTime)
  | ratesMissing
  | boundsMissing
  | startsDoNotMatch (rateStart boundStart : EpochTime)
  | rateBelowBound (rate rateIndex rateMin boundIndex : ℕ) (at_ : EpochTime)
  | rateAboveBound (rate rateIndex rateMax boundIndex : ℕ) (at_ : EpochTime)
  | amendment (e : CommissionError)
  | afterPruning (e : CommissionError)
  | afterPruningAndAmending (e : CommissionError)
  deriving DecidableEq, Repr

namespace CommissionSchedule

/-- `CommissionSchedule.IsEmpty` (`commission.go:104-107`). -/
def isEmpty (cs : CommissionSchedule) : Bool :=
  cs.rates.isEmpty && cs.bounds.isEmpty

/-- `validateComplexity` (`commission.go:146-155`). -/
def validateComplexity (cs : CommissionSchedule) (rules : CommissionScheduleRules) :
    Except CommissionError Unit :=
  if cs.rates.length > rules.maxRateSteps.toNat then
    .error (.rateStepsExceedMaximum cs.rates.length rules.maxRateSteps.toNat)
  else if cs.bounds.length > rules.maxBoundSteps.toNat then
    .error (.boundStepsExceedMaximum cs.bounds.length rules.maxBoundSteps.toNat)
  else .ok ()

/-- The rate step loop of `validateNondegenerate` (`commission.go:159-172`), from step
`index` on; `previous` is the start of the step before. -/
def validateRateSteps (rules : CommissionScheduleRules) :
    ℕ → Option EpochTime → List CommissionRateStep → Except CommissionError Unit
  | _, _, [] => .ok ()
  | i, previous, step :: rest =>
    if rules.rateChangeInterval = 0 then .error .divideByZero
    else if step.start % rules.rateChangeInterval ≠ 0 then
      .error (.rateStepNotAligned i step.start rules.rateChangeInterval)
    else if previous.any (fun p => step.start ≤ p) then
      .error (.rateStepNotAfterPrevious i step.start (previous.getD 0))
    else if step.rate > commissionRateDenominator then
      .error (.rateStepOverUnity i step.rate)
    else if step.rate < rules.minCommissionRate then
      .error (.rateStepBelowMinimum i step.rate rules.minCommissionRate)
    else validateRateSteps rules (i + 1) (some step.start) rest

/-- The bound step loop of `validateNondegenerate` (`commission.go:174-196`). -/
def validateBoundSteps (rules : CommissionScheduleRules) :
    ℕ → Option EpochTime → List CommissionRateBoundStep → Except CommissionError Unit
  | _, _, [] => .ok ()
  | i, previous, step :: rest =>
    if rules.rateChangeInterval = 0 then .error .divideByZero
    else if step.start % rules.rateChangeInterval ≠ 0 then
      .error (.boundStepNotAligned i step.start rules.rateChangeInterval)
    else if previous.any (fun p => step.start ≤ p) then
      .error (.boundStepNotAfterPrevious i step.start (previous.getD 0))
    else if step.rateMin > commissionRateDenominator then
      .error (.boundStepMinimumOverUnity i step.rateMin)
    else if step.rateMax > commissionRateDenominator then
      .error (.boundStepMaximumOverUnity i step.rateMax)
    else if step.rateMax < step.rateMin then
      .error (.boundStepMaximumBelowMinimum i step.rateMax step.rateMin)
    else if step.rateMax < rules.minCommissionRate then
      .error (.boundStepMaximumBelowAllowed i step.rateMax rules.minCommissionRate)
    else if step.rateMin < rules.minCommissionRate then
      .error (.boundStepMinimumBelowAllowed i step.rateMin rules.minCommissionRate)
    else validateBoundSteps rules (i + 1) (some step.start) rest

/-- `validateNondegenerate` (`commission.go:157-199`). -/
def validateNondegenerate (cs : CommissionSchedule) (rules : CommissionScheduleRules) :
    Except CommissionError Unit := do
  validateRateSteps rules 0 none cs.rates
  validateBoundSteps rules 0 none cs.bounds

/-- `validateAmendmentAcceptable` (`commission.go:201-221`). -/
def validateAmendmentAcceptable (cs : CommissionSchedule) (rules : CommissionScheduleRules)
    (now : EpochTime) (initialSchedule : Bool) : Except CommissionError Unit :=
  match cs.rates with
  | r :: _ =>
    if r.start ≤ now then .error (.rateScheduleAltersPast r.start now)
    else boundsAcceptable
  | [] => boundsAcceptable
where
  boundsAcceptable : Except CommissionError Unit :=
    match cs.bounds with
    | [] => .ok ()
    | b :: _ =>
      let earliest := if initialSchedule then now + 1 else now + 1 + rules.rateBoundLead
      if b.start < earliest then .error (.boundScheduleAltersEarly b.start earliest)
      else .ok ()

/-- One loop of `Prune` (`commission.go:223-243`): drop leading steps while the
second step has started by `now`. -/
def pruneSteps {α : Type} (start : α → EpochTime) (now : EpochTime) : List α → List α
  | a :: b :: rest => if start b > now then a :: b :: rest else pruneSteps start now (b :: rest)
  | l => l

/-- `Prune` (`commission.go:223-243`). -/
def prune (cs : CommissionSchedule) (now : EpochTime) : CommissionSchedule :=
  ⟨pruneSteps CommissionRateStep.start now cs.rates,
    pruneSteps CommissionRateBoundStep.start now cs.bounds⟩

/-- One half of `amend` (`commission.go:245-269`): keep the steps that start before
the amendment's first step and append the amendment. -/
def spliceSteps {α : Type} (start : α → EpochTime) (steps amendment : List α) : List α :=
  match amendment with
  | [] => steps
  | a :: _ => steps.takeWhile (fun s => start s < start a) ++ amendment

/-- `amend` (`commission.go:245-269`). -/
def amend (cs amendment : CommissionSchedule) : CommissionSchedule :=
  ⟨spliceSteps CommissionRateStep.start cs.rates amendment.rates,
    spliceSteps CommissionRateBoundStep.start cs.bounds amendment.bounds⟩

/-- The loop of `validateWithinBound` (`commission.go:297-350`): the current rate
and bound steps with their indices, the steps after them, and the epoch printed
in an error. Each round moves past the next rate step, the next bound step, or
both when they start together. -/
def withinBoundLoop (rate : CommissionRateStep) (rateIndex : ℕ)
    (bound : CommissionRateBoundStep) (boundIndex : ℕ) (diagnosticTime : EpochTime) :
    List CommissionRateStep → List CommissionRateBoundStep → Except CommissionError Unit
  | rates, bounds =>
    if rate.rate < bound.rateMin then
      .error (.rateBelowBound rate.rate rateIndex bound.rateMin boundIndex diagnosticTime)
    else if rate.rate > bound.rateMax then
      .error (.rateAboveBound rate.rate rateIndex bound.rateMax boundIndex diagnosticTime)
    else
      match rates, bounds with
      | [], [] => .ok ()
      | r :: rs, [] => withinBoundLoop r (rateIndex + 1) bound boundIndex r.start rs []
      | [], b :: bs => withinBoundLoop rate rateIndex b (boundIndex + 1) b.start [] bs
      | r :: rs, b :: bs =>
        if r.start < b.start then
          withinBoundLoop r (rateIndex + 1) bound boundIndex r.start rs (b :: bs)
        else if b.start < r.start then
          withinBoundLoop rate rateIndex b (boundIndex + 1) b.start (r :: rs) bs
        else withinBoundLoop r (rateIndex + 1) b (boundIndex + 1) b.start rs bs
termination_by rates bounds => rates.length + bounds.length

/-- `validateWithinBound` (`commission.go:271-353`). -/
def validateWithinBound (cs : CommissionSchedule) (now : EpochTime) :
    Except CommissionError Unit :=
  match cs.rates, cs.bounds with
  | [], [] => .ok ()
  | [], _ :: _ => .error .ratesMissing
  | _ :: _, [] => .error .boundsMissing
  | r :: rs, b :: bs =>
    if r.start > now ∨ b.start > now then
      if r.start ≠ b.start then .error (.startsDoNotMatch r.start b.start)
      else withinBoundLoop r 0 b 0 r.start rs bs
    else withinBoundLoop r 0 b 0 now rs bs

/-- `PruneAndValidate` (`commission.go:355-369`): the pruned schedule, or the error.
Go prunes in place, so the schedule is pruned even when the last check fails. -/
def pruneAndValidate (cs : CommissionSchedule) (rules : CommissionScheduleRules)
    (now : EpochTime) : Except CommissionError CommissionSchedule := do
  cs.validateComplexity rules
  cs.validateNondegenerate rules
  let pruned := cs.prune now
  (pruned.validateWithinBound now).mapError .afterPruning
  pure pruned

/-- `AmendAndPruneAndValidate` (`commission.go:371-393`): the amended schedule, or
the error. -/
def amendAndPruneAndValidate (cs amendment : CommissionSchedule)
    (rules : CommissionScheduleRules) (now : EpochTime) :
    Except CommissionError CommissionSchedule := do
  (amendment.validateComplexity rules).mapError .amendment
  (amendment.validateNondegenerate rules).mapError .amendment
  (amendment.validateAmendmentAcceptable rules now cs.bounds.isEmpty).mapError .amendment
  let amended := (cs.prune now).amend amendment
  (amended.validateComplexity rules).mapError .afterPruningAndAmending
  (amended.validateWithinBound now).mapError .afterPruningAndAmending
  pure amended

/-- The loop of `CurrentRate` (`commission.go:395-410`): the last step started by
`now`, scanning until a step that has not. -/
def latestStartedStep (now : EpochTime) :
    Option CommissionRateStep → List CommissionRateStep → Option CommissionRateStep
  | latest, [] => latest
  | latest, step :: rest => if step.start > now then latest else latestStartedStep now (some step) rest

/-- `CurrentRate` (`commission.go:395-410`): the rate in effect at `now`, if a step
has started. -/
def currentRate (cs : CommissionSchedule) (now : EpochTime) : Option ℕ :=
  (latestStartedStep now none cs.rates).map CommissionRateStep.rate

end CommissionSchedule

end Staking

end OasisCore
