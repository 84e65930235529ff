import Mathlib.Algebra.Group.Nat.Defs
import Mathlib.Order.Basic
import Mathlib.Order.Lattice
import Mathlib.Data.List.Pairwise
import Mathlib.Data.List.TakeWhile

/-!
# Step schedules

A schedule is a list of steps, each taking effect at its start and lasting until the
next one starts. The step in effect at a time is the latest step that has started
by then, or, before any has, the first one. With steps in strictly increasing order
of start, the step in effect moves to the next step exactly when that step starts,
and steps that start later do not change what is in effect before.
-/

namespace OasisCore

namespace Schedule

variable {α T : Type} [LinearOrder T] (start : α → T)

/-- The steps start in strictly increasing order. -/
def Ascending (steps : List α) : Prop :=
  steps.Pairwise fun a b => start a < start b

/-- `x` is the latest step of `steps` that has started by `t`. -/
def LatestStarted (steps : List α) (t : T) (x : α) : Prop :=
  x ∈ steps ∧ start x ≤ t ∧ ∀ y ∈ steps, start y ≤ t → start y ≤ start x

/-- `x` is in effect at `t`: the latest step started by `t`, or the first step when
none has started. -/
def InEffect (steps : List α) (t : T) (x : α) : Prop :=
  LatestStarted start steps t x ∨ (steps.head? = some x ∧ ∀ y ∈ steps, t < start y)

instance [DecidableEq α] (steps : List α) (t : T) (x : α) :
    Decidable (LatestStarted start steps t x) :=
  inferInstanceAs
    (Decidable (x ∈ steps ∧ start x ≤ t ∧ ∀ y ∈ steps, start y ≤ t → start y ≤ start x))

variable {start} {x y z : α} {ys l₁ l₂ : List α} {t : T}

theorem Ascending.of_cons (h : Ascending start (x :: ys)) : Ascending start ys :=
  List.Pairwise.of_cons h

theorem Ascending.sublist (h : Ascending start l₂) (hsub : l₁.Sublist l₂) : Ascending start l₁ :=
  List.Pairwise.sublist hsub h

/-- Steps ahead of a started step are no longer the latest to have started. -/
theorem latestStarted_cons_iff (hasc : Ascending start (x :: ys)) (hy : ∃ y ∈ ys, start y ≤ t) :
    LatestStarted start (x :: ys) t z ↔ LatestStarted start ys t z := by
  obtain ⟨y, hy, hyt⟩ := hy
  have hlt : ∀ {w}, w ∈ ys → start x < start w := fun hw => List.rel_of_pairwise_cons hasc hw
  constructor
  · rintro ⟨hz, hzt, hmax⟩
    rcases List.mem_cons.mp hz with rfl | hz
    · exact absurd (hmax y (List.mem_cons_of_mem _ hy) hyt) (not_le.mpr (hlt hy))
    · exact ⟨hz, hzt, fun w hw hwt => hmax w (List.mem_cons_of_mem _ hw) hwt⟩
  · rintro ⟨hz, hzt, hmax⟩
    refine ⟨List.mem_cons_of_mem _ hz, hzt, fun w hw hwt => ?_⟩
    rcases List.mem_cons.mp hw with rfl | hw
    · exact (hlt hz).le
    · exact hmax w hw hwt

/-- Steps that start after `t` do not change the latest step started by `t`. -/
theorem latestStarted_append_iff (hlater : ∀ y ∈ l₂, t < start y) :
    LatestStarted start (l₁ ++ l₂) t z ↔ LatestStarted start l₁ t z := by
  constructor
  · rintro ⟨hz, hzt, hmax⟩
    rcases List.mem_append.mp hz with hz | hz
    · exact ⟨hz, hzt, fun w hw hwt => hmax w (List.mem_append_left _ hw) hwt⟩
    · exact absurd hzt (not_le.mpr (hlater z hz))
  · rintro ⟨hz, hzt, hmax⟩
    refine ⟨List.mem_append_left _ hz, hzt, fun w hw hwt => ?_⟩
    rcases List.mem_append.mp hw with hw | hw
    · exact hmax w hw hwt
    · exact absurd hwt (not_le.mpr (hlater w hw))

theorem not_inEffect_nil : ¬ InEffect start [] t z := by
  rintro (⟨hz, -⟩ | ⟨hhead, -⟩)
  · exact List.not_mem_nil hz
  · cases hhead

theorem inEffect_singleton (h : InEffect start [x] t z) : z = x := by
  rcases h with ⟨hz, -, -⟩ | ⟨hhead, -⟩
  · exact List.mem_singleton.mp hz
  · exact (Option.some.inj hhead).symm

/-- What is in effect once the second step has started is what is in effect without the
first; before it starts, the first step is. -/
theorem inEffect_cons_cons (hasc : Ascending start (x :: y :: ys))
    (h : InEffect start (x :: y :: ys) t z) :
    (start y ≤ t ∧ InEffect start (y :: ys) t z) ∨ (t < start y ∧ z = x) := by
  by_cases hyt : start y ≤ t
  · left
    refine ⟨hyt, .inl ?_⟩
    rcases h with h | ⟨-, hnone⟩
    · exact (latestStarted_cons_iff hasc ⟨y, List.mem_cons_self, hyt⟩).mp h
    · exact absurd hyt (not_le.mpr (hnone y (List.mem_cons_of_mem _ List.mem_cons_self)))
  · right
    have hyt : t < start y := not_le.mp hyt
    refine ⟨hyt, ?_⟩
    rcases h with ⟨hz, hzt, -⟩ | ⟨hhead, -⟩
    · -- A step started by `t` comes before `y`, so it is the first one.
      rcases List.mem_cons.mp hz with rfl | hz
      · rfl
      · have hyz : start y ≤ start z := by
          rcases List.mem_cons.mp hz with rfl | hz
          · exact le_rfl
          · exact (List.rel_of_pairwise_cons hasc.of_cons hz).le
        exact absurd (lt_of_lt_of_le hyt hyz) (not_lt.mpr hzt)
    · exact (Option.some.inj hhead).symm

/-- The steps a prefix keeps while they start before `c` all start before `c`. -/
theorem lt_of_mem_takeWhile {p : α → Bool} {c : T} (hp : ∀ x, p x = true ↔ start x < c)
    {l : List α} (hy : y ∈ l.takeWhile p) : start y < c :=
  (hp y).mp (List.mem_takeWhile_imp hy)

/-- Of ascending steps, those left once the ones starting before `c` are dropped start
at `c` or later. -/
theorem le_of_mem_dropWhile {p : α → Bool} {c : T} (hp : ∀ x, p x = true ↔ start x < c) :
    ∀ {l : List α}, Ascending start l → y ∈ l.dropWhile p → c ≤ start y
  | [], _, hy => absurd hy List.not_mem_nil
  | x :: xs, hasc, hy => by
    rw [List.dropWhile_cons] at hy
    by_cases hx : p x = true
    · rw [if_pos hx] at hy
      exact le_of_mem_dropWhile hp hasc.of_cons hy
    · rw [if_neg hx] at hy
      have hcx : c ≤ start x := not_lt.mp fun h => hx ((hp x).mpr h)
      rcases List.mem_cons.mp hy with rfl | hy
      · exact hcx
      · exact hcx.trans (List.rel_of_pairwise_cons hasc hy).le

/-- Ascending steps cut before `c` and followed by ascending steps from `c` on are
ascending. -/
theorem Ascending.takeWhile_append {p : α → Bool} {c : T} (hp : ∀ x, p x = true ↔ start x < c)
    {l : List α} (hl : Ascending start l) (hl₂ : Ascending start l₂)
    (hc : ∀ y ∈ l₂, c ≤ start y) : Ascending start (l.takeWhile p ++ l₂) := by
  refine List.pairwise_append.mpr ⟨hl.sublist (List.takeWhile_sublist p), hl₂, ?_⟩
  intro a ha b hb
  exact lt_of_lt_of_le (lt_of_mem_takeWhile hp ha) (hc b hb)

end Schedule

end OasisCore
