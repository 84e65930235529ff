import OasisCore.Misc.Except
import OasisCore.Misc.Schedule
import OasisCore.Staking.Commission

/-!
# What an amendment keeps of a commission schedule

A schedule that passed `PruneAndValidate` has its rate steps and its bound steps each in
strictly increasing order of start, and so has every schedule `AmendAndPruneAndValidate`
accepts. On such schedules the sweep of `validateWithinBound` visits every pair of rate
step and bound step that are in effect together, so an accepted schedule keeps each
rate in effect within the bound in effect, at every epoch. Pruning drops only steps that
nothing is in effect by any more, and the splice of `amend` keeps every step before the
amendment's first one, so what is in effect before the amendment starts is what was.

The lead time for bounds is checked by `now + 1 + RateBoundLead` in `uint64`; where that
sum does not wrap, no bound in effect within the lead changes.
-/

namespace OasisCore

namespace Staking

open Schedule

/-- The start of a rate step as a number, the order in which epochs compare. -/
def CommissionRateStep.epoch (s : CommissionRateStep) : ℕ := s.start.toNat

/-- The start of a bound step as a number. -/
def CommissionRateBoundStep.epoch (s : CommissionRateBoundStep) : ℕ := s.start.toNat

namespace CommissionSchedule

/-- Both lists of steps are in strictly increasing order of start. -/
structure Ordered (cs : CommissionSchedule) : Prop where
  rates : Ascending CommissionRateStep.epoch cs.rates
  bounds : Ascending CommissionRateBoundStep.epoch cs.bounds

/-! ## Validation orders the steps -/

theorem validateRateSteps_ascending (rules : CommissionScheduleRules) :
    ∀ (steps : List CommissionRateStep) (i : ℕ) (previous : Option EpochTime),
      validateRateSteps rules i previous steps = .ok () →
        Ascending CommissionRateStep.epoch steps ∧ ∀ p ∈ previous, ∀ x ∈ steps, p < x.start
  | [], _, _, _ => ⟨List.Pairwise.nil, fun _ _ _ hx => absurd hx List.not_mem_nil⟩
  | step :: rest, i, previous, h => by
    unfold validateRateSteps at h
    split_ifs at h with hzero halign hprev hover hmin
    obtain ⟨hasc, hafter⟩ := validateRateSteps_ascending rules rest (i + 1) (some step.start) h
    have hstep : ∀ p ∈ previous, p < step.start := by
      intro p hp
      rw [Option.mem_def] at hp
      subst hp
      simpa using hprev
    refine ⟨List.pairwise_cons.mpr ⟨fun x hx => ?_, hasc⟩, fun p hp x hx => ?_⟩
    · exact UInt64.lt_iff_toNat_lt.mp (hafter step.start rfl x hx)
    · rcases List.mem_cons.mp hx with rfl | hx
      · exact hstep p hp
      · exact UInt64.lt_trans (hstep p hp) (hafter step.start rfl x hx)

theorem validateBoundSteps_ascending (rules : CommissionScheduleRules) :
    ∀ (steps : List CommissionRateBoundStep) (i : ℕ) (previous : Option EpochTime),
      validateBoundSteps rules i previous steps = .ok () →
        Ascending CommissionRateBoundStep.epoch steps ∧ ∀ p ∈ previous, ∀ x ∈ steps, p < x.start
  | [], _, _, _ => ⟨List.Pairwise.nil, fun _ _ _ hx => absurd hx List.not_mem_nil⟩
  | step :: rest, i, previous, h => by
    unfold validateBoundSteps at h
    split_ifs at h with hzero halign hprev
    obtain ⟨hasc, hafter⟩ := validateBoundSteps_ascending rules rest (i + 1) (some step.start) h
    have hstep : ∀ p ∈ previous, p < step.start := by
      intro p hp
      rw [Option.mem_def] at hp
      subst hp
      simpa using hprev
    refine ⟨List.pairwise_cons.mpr ⟨fun x hx => ?_, hasc⟩, fun p hp x hx => ?_⟩
    · exact UInt64.lt_iff_toNat_lt.mp (hafter step.start rfl x hx)
    · rcases List.mem_cons.mp hx with rfl | hx
      · exact hstep p hp
      · exact UInt64.lt_trans (hstep p hp) (hafter step.start rfl x hx)

theorem validateNondegenerate_ordered {cs : CommissionSchedule} {rules : CommissionScheduleRules}
    (h : cs.validateNondegenerate rules = .ok ()) : cs.Ordered := by
  obtain ⟨⟨⟩, hrates, hbounds⟩ := Except.bind_eq_ok.mp h
  exact ⟨(validateRateSteps_ascending rules _ 0 none hrates).1,
    (validateBoundSteps_ascending rules _ 0 none hbounds).1⟩

/-! ## Pruning and splicing -/

section Steps

variable {α : Type} (start : α → EpochTime)

theorem pruneSteps_sublist (now : EpochTime) : ∀ l : List α, (pruneSteps start now l).Sublist l
  | [] => List.Sublist.refl _
  | [_] => List.Sublist.refl _
  | a :: b :: rest => by
    unfold pruneSteps
    split_ifs
    · exact List.Sublist.refl _
    · exact (pruneSteps_sublist now (b :: rest)).cons a

/-- Pruning at `now` keeps the latest step started by any `t` from `now` on. -/
theorem latestStarted_pruneSteps {now t : EpochTime} (hnow : now ≤ t) (z : α) :
    ∀ {l : List α}, Ascending (fun a => (start a).toNat) l →
      (LatestStarted (fun a => (start a).toNat) (pruneSteps start now l) t.toNat z ↔
        LatestStarted (fun a => (start a).toNat) l t.toNat z)
  | [], _ => Iff.rfl
  | [_], _ => Iff.rfl
  | a :: b :: rest, hasc => by
    unfold pruneSteps
    split_ifs with hb
    · exact Iff.rfl
    · -- `b` has started by `now`, so `a` is in effect at no `t` from `now` on.
      have hbt : (start b).toNat ≤ t.toNat :=
        UInt64.le_iff_toNat_le.mp (UInt64.le_trans (UInt64.not_lt.mp hb) hnow)
      rw [latestStarted_pruneSteps hnow z hasc.of_cons,
        latestStarted_cons_iff hasc ⟨b, List.mem_cons_self, hbt⟩]

theorem ascending_spliceSteps {steps amendment : List α}
    (hsteps : Ascending (fun a => (start a).toNat) steps)
    (hamendment : Ascending (fun a => (start a).toNat) amendment) :
    Ascending (fun a => (start a).toNat) (spliceSteps start steps amendment) := by
  cases amendment with
  | nil => exact hsteps
  | cons a rest =>
    refine hsteps.takeWhile_append (c := (start a).toNat) (fun x => ?_) hamendment fun y hy => ?_
    · simp only [decide_eq_true_eq, UInt64.lt_iff_toNat_lt]
    · rcases List.mem_cons.mp hy with rfl | hy
      · exact le_rfl
      · exact (List.rel_of_pairwise_cons hamendment hy).le

/-- Before the amendment's first step starts, the splice keeps the latest step started. -/
theorem latestStarted_spliceSteps {steps rest : List α} {a : α} {t : EpochTime}
    (hsteps : Ascending (fun a => (start a).toNat) steps)
    (hamendment : Ascending (fun a => (start a).toNat) (a :: rest)) (ht : t < start a) (z : α) :
    LatestStarted (fun a => (start a).toNat) (spliceSteps start steps (a :: rest)) t.toNat z ↔
      LatestStarted (fun a => (start a).toNat) steps t.toNat z := by
  have hp : ∀ x, decide (start x < start a) = true ↔ (start x).toNat < (start a).toNat := by
    intro x
    simp only [decide_eq_true_eq, UInt64.lt_iff_toNat_lt]
  have htNat : t.toNat < (start a).toNat := UInt64.lt_iff_toNat_lt.mp ht
  -- Both lists are the kept prefix followed by steps that start after `t`.
  have hlater : ∀ y ∈ a :: rest, t.toNat < (start y).toNat := by
    intro y hy
    rcases List.mem_cons.mp hy with rfl | hy
    · exact htNat
    · exact htNat.trans (List.rel_of_pairwise_cons hamendment hy)
  have hdropped : ∀ y ∈ steps.dropWhile fun s => decide (start s < start a),
      t.toNat < (start y).toNat := by
    intro y hy
    have hle := le_of_mem_dropWhile hp hsteps hy
    exact lt_of_lt_of_le htNat hle
  calc LatestStarted (fun a => (start a).toNat) (spliceSteps start steps (a :: rest)) t.toNat z
      ↔ LatestStarted (fun a => (start a).toNat)
          (steps.takeWhile fun s => decide (start s < start a)) t.toNat z :=
        latestStarted_append_iff hlater
    _ ↔ LatestStarted (fun a => (start a).toNat)
          ((steps.takeWhile fun s => decide (start s < start a)) ++
            steps.dropWhile fun s => decide (start s < start a)) t.toNat z :=
        (latestStarted_append_iff hdropped).symm
    _ ↔ LatestStarted (fun a => (start a).toNat) steps t.toNat z := by
        rw [List.takeWhile_append_dropWhile]

end Steps

/-! ## The sweep of `validateWithinBound` -/

/-- A sweep that ends without an error has checked every pair of a rate step and a bound
step in effect together, at every epoch. -/
theorem withinBoundLoop_inEffect {rate : CommissionRateStep} {rateIndex : ℕ}
    {bound : CommissionRateBoundStep} {boundIndex : ℕ} {diagnosticTime : EpochTime}
    {rates : List CommissionRateStep} {bounds : List CommissionRateBoundStep}
    (h : withinBoundLoop rate rateIndex bound boundIndex diagnosticTime rates bounds = .ok ())
    (hrates : Ascending CommissionRateStep.epoch (rate :: rates))
    (hbounds : Ascending CommissionRateBoundStep.epoch (bound :: bounds)) (t : ℕ)
    {r : CommissionRateStep} {b : CommissionRateBoundStep}
    (hr : InEffect CommissionRateStep.epoch (rate :: rates) t r)
    (hb : InEffect CommissionRateBoundStep.epoch (bound :: bounds) t b) :
    b.rateMin ≤ r.rate ∧ r.rate ≤ b.rateMax := by
  fun_induction withinBoundLoop rate rateIndex bound boundIndex diagnosticTime rates bounds with
  | case1 rate _ bound _ _ _ _ hmin =>
    cases h
  | case2 rate _ bound _ _ _ _ hmin hmax =>
    cases h
  | case3 rate _ bound _ _ hmin hmax =>
    obtain rfl := inEffect_singleton hr
    obtain rfl := inEffect_singleton hb
    exact ⟨Nat.le_of_not_lt hmin, Nat.le_of_not_lt hmax⟩
  | case4 rate _ bound _ _ hmin hmax r' rs ih =>
    obtain rfl := inEffect_singleton hb
    rcases inEffect_cons_cons hrates hr with ⟨-, hr⟩ | ⟨-, rfl⟩
    · exact ih h hrates.of_cons hbounds hr hb
    · exact ⟨Nat.le_of_not_lt hmin, Nat.le_of_not_lt hmax⟩
  | case5 rate _ bound _ _ hmin hmax b' bs ih =>
    obtain rfl := inEffect_singleton hr
    rcases inEffect_cons_cons hbounds hb with ⟨-, hb⟩ | ⟨-, rfl⟩
    · exact ih h hrates hbounds.of_cons hr hb
    · exact ⟨Nat.le_of_not_lt hmin, Nat.le_of_not_lt hmax⟩
  | case6 rate _ bound _ _ hmin hmax r' rs b' bs hlt ih =>
    rcases inEffect_cons_cons hrates hr with ⟨-, hr⟩ | ⟨ht, rfl⟩
    · exact ih h hrates.of_cons hbounds hr hb
    · -- Before the next rate step the next bound step has not started either.
      have ht' : t < b'.epoch := ht.trans (UInt64.lt_iff_toNat_lt.mp hlt)
      rcases inEffect_cons_cons hbounds hb with ⟨hle, -⟩ | ⟨-, rfl⟩
      · exact absurd hle (Nat.not_le.mpr ht')
      · exact ⟨Nat.le_of_not_lt hmin, Nat.le_of_not_lt hmax⟩
  | case7 rate _ bound _ _ hmin hmax r' rs b' bs hnlt hlt ih =>
    rcases inEffect_cons_cons hbounds hb with ⟨-, hb⟩ | ⟨ht, rfl⟩
    · exact ih h hrates hbounds.of_cons hr hb
    · have ht' : t < r'.epoch := ht.trans (UInt64.lt_iff_toNat_lt.mp hlt)
      rcases inEffect_cons_cons hrates hr with ⟨hle, -⟩ | ⟨-, rfl⟩
      · exact absurd hle (Nat.not_le.mpr ht')
      · exact ⟨Nat.le_of_not_lt hmin, Nat.le_of_not_lt hmax⟩
  | case8 rate _ bound _ _ hmin hmax r' rs b' bs hnlt hngt ih =>
    -- The next rate step and the next bound step start together.
    have heq : r'.epoch = b'.epoch :=
      Nat.le_antisymm (Nat.le_of_not_lt fun hgt => hngt (UInt64.lt_iff_toNat_lt.mpr hgt))
        (Nat.le_of_not_lt fun hlt => hnlt (UInt64.lt_iff_toNat_lt.mpr hlt))
    rcases inEffect_cons_cons hrates hr with ⟨hle, hr⟩ | ⟨ht, rfl⟩
    · rcases inEffect_cons_cons hbounds hb with ⟨-, hb⟩ | ⟨ht, -⟩
      · exact ih h hrates.of_cons hbounds.of_cons hr hb
      · exact absurd (heq ▸ hle) (Nat.not_le.mpr ht)
    · rcases inEffect_cons_cons hbounds hb with ⟨hle, -⟩ | ⟨-, rfl⟩
      · exact absurd (heq ▸ hle) (Nat.not_le.mpr ht)
      · exact ⟨Nat.le_of_not_lt hmin, Nat.le_of_not_lt hmax⟩

/-- An accepted schedule keeps every rate in effect within the bound in effect. -/
theorem validateWithinBound_inEffect {cs : CommissionSchedule} {now : EpochTime}
    (h : cs.validateWithinBound now = .ok ()) (hord : cs.Ordered) (t : ℕ)
    {r : CommissionRateStep} {b : CommissionRateBoundStep}
    (hr : InEffect CommissionRateStep.epoch cs.rates t r)
    (hb : InEffect CommissionRateBoundStep.epoch cs.bounds t b) :
    b.rateMin ≤ r.rate ∧ r.rate ≤ b.rateMax := by
  obtain ⟨rates, bounds⟩ := cs
  obtain ⟨hrates, hbounds⟩ := hord
  dsimp only at hr hb hrates hbounds
  cases rates with
  | nil => exact absurd hr not_inEffect_nil
  | cons rate rates =>
    cases bounds with
    | nil => exact absurd hb not_inEffect_nil
    | cons bound bounds =>
      -- Both ways into the sweep start it at the first rate step and bound step.
      unfold validateWithinBound at h
      dsimp only at h
      split_ifs at h
      · exact withinBoundLoop_inEffect h hrates hbounds t hr hb
      · exact withinBoundLoop_inEffect h hrates hbounds t hr hb

/-! ## The entry points -/

theorem pruneAndValidate_eq_ok {cs cs' : CommissionSchedule} {rules : CommissionScheduleRules}
    {now : EpochTime} (h : cs.pruneAndValidate rules now = .ok cs') :
    cs.validateNondegenerate rules = .ok () ∧ cs' = cs.prune now ∧
      (cs.prune now).validateWithinBound now = .ok () := by
  obtain ⟨⟨⟩, -, h⟩ := Except.bind_eq_ok.mp h
  obtain ⟨⟨⟩, hnondegenerate, h⟩ := Except.bind_eq_ok.mp h
  obtain ⟨⟨⟩, hwithin, h⟩ := Except.bind_eq_ok.mp h
  exact ⟨hnondegenerate, (Except.pure_eq_ok.mp h).symm, Except.mapError_eq_ok.mp hwithin⟩

theorem amendAndPruneAndValidate_eq_ok {cs amendment amended : CommissionSchedule}
    {rules : CommissionScheduleRules} {now : EpochTime}
    (h : cs.amendAndPruneAndValidate amendment rules now = .ok amended) :
    amendment.validateNondegenerate rules = .ok () ∧
      amendment.validateAmendmentAcceptable rules now cs.bounds.isEmpty = .ok () ∧
      amended = (cs.prune now).amend amendment ∧ amended.validateWithinBound now = .ok () := by
  obtain ⟨⟨⟩, -, h⟩ := Except.bind_eq_ok.mp h
  obtain ⟨⟨⟩, hnondegenerate, h⟩ := Except.bind_eq_ok.mp h
  obtain ⟨⟨⟩, hacceptable, h⟩ := Except.bind_eq_ok.mp h
  obtain ⟨⟨⟩, -, h⟩ := Except.bind_eq_ok.mp h
  obtain ⟨⟨⟩, hwithin, h⟩ := Except.bind_eq_ok.mp h
  obtain rfl := (Except.pure_eq_ok.mp h).symm
  exact ⟨Except.mapError_eq_ok.mp hnondegenerate, Except.mapError_eq_ok.mp hacceptable, rfl,
    Except.mapError_eq_ok.mp hwithin⟩

/-- An acceptable amendment starts its rates after `now` and its bounds no earlier than
the earliest epoch the check computes. -/
theorem validateAmendmentAcceptable_eq_ok {cs : CommissionSchedule}
    {rules : CommissionScheduleRules} {now : EpochTime} {initialSchedule : Bool}
    (h : cs.validateAmendmentAcceptable rules now initialSchedule = .ok ()) :
    (∀ r ∈ cs.rates.head?, now < r.start) ∧
      ∀ b ∈ cs.bounds.head?,
        (if initialSchedule then now + 1 else now + 1 + rules.rateBoundLead) ≤ b.start := by
  have hbounds : validateAmendmentAcceptable.boundsAcceptable cs rules now initialSchedule =
      .ok () → ∀ b ∈ cs.bounds.head?,
        (if initialSchedule then now + 1 else now + 1 + rules.rateBoundLead) ≤ b.start := by
    intro hb b hhead
    unfold validateAmendmentAcceptable.boundsAcceptable at hb
    rw [Option.mem_def, List.head?_eq_some_iff] at hhead
    obtain ⟨rest, hcons⟩ := hhead
    rw [hcons] at hb
    dsimp only at hb
    split_ifs at hb with hinit hlt hlt
    · rw [if_pos hinit]
      exact UInt64.not_lt.mp hlt
    · rw [if_neg hinit]
      exact UInt64.not_lt.mp hlt
  unfold validateAmendmentAcceptable at h
  cases hrates : cs.rates with
  | nil =>
    rw [hrates] at h
    exact ⟨fun _ hr => absurd hr (by simp), hbounds h⟩
  | cons r rest =>
    rw [hrates] at h
    dsimp only at h
    split_ifs at h with hle
    refine ⟨fun r' hr' => ?_, hbounds h⟩
    cases Option.some.inj hr'
    exact UInt64.not_le.mp hle

theorem Ordered.prune {cs : CommissionSchedule} (hord : cs.Ordered) (now : EpochTime) :
    (cs.prune now).Ordered :=
  ⟨hord.rates.sublist (pruneSteps_sublist _ now _), hord.bounds.sublist (pruneSteps_sublist _ now _)⟩

theorem Ordered.amend {cs amendment : CommissionSchedule} (hord : cs.Ordered)
    (hamendment : amendment.Ordered) : (cs.amend amendment).Ordered :=
  ⟨ascending_spliceSteps _ hord.rates hamendment.rates,
    ascending_spliceSteps _ hord.bounds hamendment.bounds⟩

/-! ## What the amendment keeps -/

/-- Pruning at `now` keeps the rate `CurrentRate` reads from `now` on. -/
theorem latestStartedStep_pruneSteps {now t : EpochTime} (hnow : now ≤ t) :
    ∀ {l : List CommissionRateStep}, Ascending CommissionRateStep.epoch l →
      ∀ acc, latestStartedStep t acc (pruneSteps CommissionRateStep.start now l) =
        latestStartedStep t acc l
  | [], _, _ => rfl
  | [_], _, _ => rfl
  | a :: b :: rest, hasc, acc => by
    unfold pruneSteps
    split_ifs with hb
    · rfl
    · have hbt : ¬ b.start > t := UInt64.not_lt.mpr (UInt64.le_trans (UInt64.not_lt.mp hb) hnow)
      have hab : a.start < b.start :=
        UInt64.lt_iff_toNat_lt.mpr (List.rel_of_pairwise_cons hasc List.mem_cons_self)
      have hat : ¬ a.start > t := UInt64.not_lt.mpr (UInt64.le_of_lt
        (UInt64.lt_of_lt_of_le hab (UInt64.not_lt.mp hbt)))
      rw [latestStartedStep_pruneSteps hnow hasc.of_cons acc]
      simp only [latestStartedStep, if_neg hat, if_neg hbt]

/-- Steps after a step that has not started are never read by `CurrentRate`. -/
theorem latestStartedStep_append {t : EpochTime} {l₂ : List CommissionRateStep}
    (hlater : ∀ a ∈ l₂.head?, t < a.start) :
    ∀ (l₁ : List CommissionRateStep) (acc : Option CommissionRateStep),
      latestStartedStep t acc (l₁ ++ l₂) = latestStartedStep t acc l₁
  | [], acc => by
    cases l₂ with
    | nil => rfl
    | cons a rest => simp only [List.nil_append, latestStartedStep, if_pos (hlater a rfl)]
  | x :: xs, acc => by
    rw [List.cons_append]
    simp only [latestStartedStep]
    split_ifs
    · rfl
    · exact latestStartedStep_append hlater xs (some x)

/-- Before the amendment's first rate step starts, the amended schedule has the rate the
schedule had, from `now` on. -/
theorem currentRate_amend {cs amendment : CommissionSchedule} {now t : EpochTime}
    (hord : cs.Ordered) (hnow : now ≤ t) (hbefore : ∀ a ∈ amendment.rates.head?, t < a.start) :
    ((cs.prune now).amend amendment).currentRate t = cs.currentRate t := by
  unfold currentRate
  rw [← latestStartedStep_pruneSteps hnow hord.rates none]
  unfold amend prune
  dsimp only
  cases hrates : amendment.rates with
  | nil => rfl
  | cons a rest =>
    rw [hrates] at hbefore
    have ha : t < a.start := hbefore a rfl
    have hp : ∀ x : CommissionRateStep, decide (x.start < a.start) = true ↔ x.epoch < a.epoch := by
      intro x
      simp only [decide_eq_true_eq, UInt64.lt_iff_toNat_lt, CommissionRateStep.epoch]
    -- What pruning keeps splits into the prefix the splice keeps and steps from `a` on.
    have hdropped : ∀ c ∈ ((pruneSteps CommissionRateStep.start now cs.rates).dropWhile
        fun s => decide (s.start < a.start)).head?, t < c.start := by
      intro c hc
      have hle := le_of_mem_dropWhile hp (hord.prune now).rates (List.mem_of_mem_head? hc)
      exact UInt64.lt_of_lt_of_le ha (UInt64.le_iff_toNat_le.mpr hle)
    unfold spliceSteps
    rw [latestStartedStep_append (by simpa using ha), ← List.takeWhile_append_dropWhile
      (l := pruneSteps CommissionRateStep.start now cs.rates)
      (p := fun s => decide (s.start < a.start)), latestStartedStep_append hdropped,
      List.takeWhile_append_dropWhile]

/-- Before the amendment's first bound step starts, the latest bound step started is the
schedule's, from `now` on. -/
theorem latestStarted_bounds_amend {cs amendment : CommissionSchedule} {now t : EpochTime}
    (hord : cs.Ordered) (hamendment : amendment.Ordered) (hnow : now ≤ t)
    (hbefore : ∀ a ∈ amendment.bounds.head?, t < a.start) (z : CommissionRateBoundStep) :
    LatestStarted CommissionRateBoundStep.epoch ((cs.prune now).amend amendment).bounds t.toNat z ↔
      LatestStarted CommissionRateBoundStep.epoch cs.bounds t.toNat z := by
  have hpruned := latestStarted_pruneSteps CommissionRateBoundStep.start hnow z hord.bounds
  have hamendBounds := hamendment.bounds
  unfold amend prune
  dsimp only
  cases hbounds : amendment.bounds with
  | nil => exact hpruned
  | cons a rest =>
    rw [hbounds] at hbefore hamendBounds
    exact (latestStarted_spliceSteps _ (hord.prune now).bounds hamendBounds (hbefore a rfl) z).trans
      hpruned

/-- Where `now + 1 + RateBoundLead` does not wrap, an acceptable amendment of a schedule
that has bounds starts its bounds after every epoch within the lead. -/
theorem lt_bounds_head_of_amendmentAcceptable {amendment : CommissionSchedule}
    {rules : CommissionScheduleRules} {now t : EpochTime}
    (h : amendment.validateAmendmentAcceptable rules now false = .ok ())
    (hwrap : now.toNat + 1 + rules.rateBoundLead.toNat < 2 ^ 64)
    (ht : t.toNat ≤ now.toNat + rules.rateBoundLead.toNat) :
    ∀ a ∈ amendment.bounds.head?, t < a.start := by
  intro a ha
  have hle := (validateAmendmentAcceptable_eq_ok h).2 a ha
  rw [if_neg Bool.false_ne_true, UInt64.le_iff_toNat_le] at hle
  have hearliest : (now + 1 + rules.rateBoundLead).toNat =
      now.toNat + 1 + rules.rateBoundLead.toNat := by
    rw [UInt64.toNat_add, UInt64.toNat_add, UInt64.toNat_one]
    omega
  rw [UInt64.lt_iff_toNat_lt]
  omega

/-- What an accepted amendment keeps of a schedule that passed `PruneAndValidate`: every
rate in effect lies within the bound in effect; before the amendment's first rate step the
rate is the schedule's; and where `now + 1 + RateBoundLead` does not wrap, a schedule with
bounds keeps its latest bound step started at every epoch within the lead. -/
theorem amendAndPruneAndValidate_keeps_schedule {cs₀ cs amendment amended : CommissionSchedule}
    {rules₀ rules : CommissionScheduleRules} {now₀ now : EpochTime}
    (hcs : cs₀.pruneAndValidate rules₀ now₀ = .ok cs)
    (h : cs.amendAndPruneAndValidate amendment rules now = .ok amended) :
    (∀ (t : EpochTime) (r : CommissionRateStep) (b : CommissionRateBoundStep),
      InEffect CommissionRateStep.epoch amended.rates t.toNat r →
      InEffect CommissionRateBoundStep.epoch amended.bounds t.toNat b →
        b.rateMin ≤ r.rate ∧ r.rate ≤ b.rateMax) ∧
    (∀ t : EpochTime, now ≤ t → (∀ a ∈ amendment.rates.head?, t < a.start) →
      amended.currentRate t = cs.currentRate t) ∧
    (cs.bounds ≠ [] → now.toNat + 1 + rules.rateBoundLead.toNat < 2 ^ 64 →
      ∀ t : EpochTime, now ≤ t → t.toNat ≤ now.toNat + rules.rateBoundLead.toNat →
        ∀ b, LatestStarted CommissionRateBoundStep.epoch amended.bounds t.toNat b ↔
          LatestStarted CommissionRateBoundStep.epoch cs.bounds t.toNat b) := by
  obtain ⟨hnondegenerate₀, rfl, -⟩ := pruneAndValidate_eq_ok hcs
  obtain ⟨hnondegenerate, hacceptable, rfl, hwithin⟩ := amendAndPruneAndValidate_eq_ok h
  have hord : (cs₀.prune now₀).Ordered := (validateNondegenerate_ordered hnondegenerate₀).prune now₀
  have hamendment : amendment.Ordered := validateNondegenerate_ordered hnondegenerate
  refine ⟨fun t r b hr hb => ?_, fun t hnow hbefore => ?_, fun hne hwrap t hnow ht b => ?_⟩
  · exact validateWithinBound_inEffect hwithin ((hord.prune now).amend hamendment) t.toNat hr hb
  · exact currentRate_amend hord hnow hbefore
  · -- A schedule with bounds is not the initial one, so the lead applies.
    have hinitial : (cs₀.prune now₀).bounds.isEmpty = false := List.isEmpty_eq_false_iff.mpr hne
    rw [hinitial] at hacceptable
    exact latestStarted_bounds_amend hord hamendment hnow
      (lt_bounds_head_of_amendmentAcceptable hacceptable hwrap ht) b

/-- Rules whose lead is the largest epoch, so that `now + 1 + RateBoundLead` wraps. -/
def leadWrapRules : CommissionScheduleRules := ⟨1, 0xffffffffffffffff, 10, 10, 0⟩

def leadWrapSchedule : CommissionSchedule := ⟨[⟨0, 1000⟩], [⟨0, 0, 2000⟩]⟩

/-- An amendment that pins the rate to 5% from epoch 10 on. -/
def leadWrapAmendment : CommissionSchedule := ⟨[⟨10, 5000⟩], [⟨10, 5000, 5000⟩]⟩

/-- With a lead of `2^64 - 1` epochs, `5 + 1 + RateBoundLead` wraps to `5`, so an amendment
at epoch 5 may replace the bound in effect at epoch 10, well within the lead. -/
theorem amendAndPruneAndValidate_wrapped_lead_changes_bound :
    leadWrapSchedule.pruneAndValidate leadWrapRules 0 = .ok leadWrapSchedule ∧
      leadWrapSchedule.amendAndPruneAndValidate leadWrapAmendment leadWrapRules 5 =
        .ok ⟨[⟨0, 1000⟩, ⟨10, 5000⟩], [⟨0, 0, 2000⟩, ⟨10, 5000, 5000⟩]⟩ ∧
      (10 : EpochTime).toNat ≤ (5 : EpochTime).toNat + leadWrapRules.rateBoundLead.toNat ∧
      InEffect CommissionRateBoundStep.epoch leadWrapSchedule.bounds (10 : EpochTime).toNat
        ⟨0, 0, 2000⟩ ∧
      ¬ InEffect CommissionRateBoundStep.epoch [⟨0, 0, 2000⟩, ⟨10, 5000, 5000⟩]
        (10 : EpochTime).toNat ⟨0, 0, 2000⟩ := by
  refine ⟨?_, ?_, by decide, ?_, ?_⟩
  · simp [pruneAndValidate, leadWrapSchedule, leadWrapRules, validateComplexity,
      validateNondegenerate, validateRateSteps, validateBoundSteps, prune, pruneSteps,
      validateWithinBound, withinBoundLoop, commissionRateDenominator]
  · simp [amendAndPruneAndValidate, leadWrapSchedule, leadWrapAmendment, leadWrapRules,
      validateComplexity, validateNondegenerate, validateRateSteps, validateBoundSteps,
      validateAmendmentAcceptable, validateAmendmentAcceptable.boundsAcceptable, prune,
      pruneSteps, amend, spliceSteps, validateWithinBound, withinBoundLoop,
      commissionRateDenominator]
  · unfold InEffect; decide
  · unfold InEffect; decide

end CommissionSchedule

end Staking

end OasisCore
