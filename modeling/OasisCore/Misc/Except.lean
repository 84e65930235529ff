/-!
# Inversion of `Except` computations

The models write fallible Go functions as `do` blocks in `Except`. A proof about a
successful run peels such a block apart with these lemmas, one bind at a time,
instead of unfolding the monad: `bind_eq_ok` turns `x >>= f = .ok b` into the
success of `x` and of the continuation.

A loop with `break` is `breakLoop`, whose body says whether to break. Its invariant rule,
like those of `foldlM`, carries an invariant of the done prefix, and for a loop that
broke, what the breaking step leaves.
-/

namespace OasisCore

namespace Except

variable {ε α β : Type}

theorem bind_eq_ok {x : Except ε α} {f : α → Except ε β} {b : β} :
    (x >>= f) = .ok b ↔ ∃ a, x = .ok a ∧ f a = .ok b := by
  cases x <;> simp [bind, Except.bind]

@[simp] theorem ok_bind {a : α} {f : α → Except ε β} : (Except.ok a >>= f) = f a :=
  rfl

@[simp] theorem error_bind {e : ε} {f : α → Except ε β} : (Except.error e >>= f) = .error e :=
  rfl

@[simp] theorem throw_bind {e : ε} {f : α → Except ε β} : (throw e >>= f : Except ε β) = .error e :=
  rfl

theorem pure_eq_ok {a b : α} : (pure a : Except ε α) = .ok b ↔ a = b := by
  simp [pure, Except.pure]

theorem error_ne_ok {e : ε} {b : α} : (Except.error e : Except ε α) ≠ .ok b := by
  simp

@[simp] theorem pure_ne_error {a : α} {e : ε} : (pure a : Except ε α) ≠ .error e := by
  simp [pure, Except.pure]

theorem bind_eq_error {x : Except ε α} {f : α → Except ε β} {e : ε} :
    (x >>= f) = .error e ↔ x = .error e ∨ ∃ a, x = .ok a ∧ f a = .error e := by
  cases x <;> simp [bind, Except.bind]

@[simp] theorem mapError_ok {ε' : Type} {a : α} {f : ε → ε'} :
    (Except.ok a : Except ε α).mapError f = .ok a :=
  rfl

@[simp] theorem mapError_error {ε' : Type} {e : ε} {f : ε → ε'} :
    (Except.error e : Except ε α).mapError f = .error (f e) :=
  rfl

theorem mapError_eq_ok {ε' : Type} {x : Except ε α} {f : ε → ε'} {a : α} :
    x.mapError f = .ok a ↔ x = .ok a := by
  cases x <;> simp

theorem mapError_eq_error {ε' : Type} {x : Except ε α} {f : ε → ε'} {e : ε'} :
    x.mapError f = .error e ↔ ∃ e₀, x = .error e₀ ∧ f e₀ = e := by
  cases x <;> simp

theorem exists_eq_error_iff {x : Except ε α} : (∃ e, x = .error e) ↔ ∀ a, x ≠ .ok a := by
  cases x <;> simp

/-- A computation that ends in `ok` when its guard fails is the guard's error. -/
theorem ite_error_eq_ok {p : Prop} [Decidable p] {e : ε} {x : Except ε α} {b : α} :
    (if p then Except.error e else x) = .ok b ↔ ¬ p ∧ x = .ok b := by
  by_cases hp : p <;> simp [hp]

/-- The invariant rule of a fallible loop over `l`: an invariant of the done prefix
that holds at the start, and that each step keeps while succeeding, makes the loop
succeed with the invariant over the whole list. Each step learns where in `l` it
is. -/
theorem foldlM_eq_ok_of_inv {f : β → α → Except ε β} (l : List α) (I : List α → β → Prop)
    (step : ∀ done a rest b, done ++ a :: rest = l → I done b →
      ∃ b', f b a = .ok b' ∧ I (done ++ [a]) b')
    {b : β} (h0 : I [] b) : ∃ b', l.foldlM f b = .ok b' ∧ I l b' := by
  -- The loop from any point of `l` on, the invariant holding of the prefix before it.
  suffices hrest : ∀ rest done b, done ++ rest = l → I done b →
      ∃ b', rest.foldlM f b = .ok b' ∧ I l b' from hrest l [] b rfl h0
  intro rest
  induction rest with
  | nil =>
    intro done b hl hb
    rw [← hl, List.append_nil]
    exact ⟨b, rfl, hb⟩
  | cons a rest ih =>
    intro done b hl hb
    obtain ⟨b', hf, hb'⟩ := step done a rest b hl hb
    obtain ⟨r, hr, hI⟩ := ih (done ++ [a]) b' (by simpa using hl) hb'
    refine ⟨r, ?_, hI⟩
    rw [List.foldlM_cons, hf]
    exact hr

/-- The invariant rule of a fallible loop that succeeded: an invariant of the done
prefix that holds at the start and that every successful step keeps holds of the
result, over the whole list. Each step learns where in `l` it is. -/
theorem foldlM_inv_of_eq_ok {f : β → α → Except ε β} (l : List α) (I : List α → β → Prop)
    (step : ∀ done a rest b b', done ++ a :: rest = l → I done b → f b a = .ok b' →
      I (done ++ [a]) b')
    {b b' : β} (h0 : I [] b) (h : l.foldlM f b = .ok b') : I l b' := by
  -- The loop from any point of `l` on, the invariant holding of the prefix before it.
  suffices hrest : ∀ rest done b, done ++ rest = l → I done b → rest.foldlM f b = .ok b' →
      I l b' from hrest l [] b rfl h0 h
  intro rest
  induction rest with
  | nil =>
    intro done b hl hb h
    rw [List.foldlM_nil] at h
    cases h
    rw [← hl, List.append_nil]
    exact hb
  | cons a rest ih =>
    intro done b hl hb h
    rw [List.foldlM_cons] at h
    obtain ⟨b₁, h₁, hrest⟩ := bind_eq_ok.mp h
    exact ih (done ++ [a]) b₁ (by simpa using hl) (step done a rest b b₁ hl hb h₁) hrest

/-- A loop over a list whose body may fail or break out of it: the body returns the new
state and whether to break, the loop the last state and whether it broke. -/
def breakLoop (body : β → α → Except ε (β × Bool)) : β → List α → Except ε (β × Bool)
  | b, [] => pure (b, false)
  | b, a :: rest => do
    let (b', stop) ← body b a
    if stop then pure (b', true) else breakLoop body b' rest

/-- The invariant rule of a loop with `break` that succeeded: an invariant `I` of the done
prefix that holds at the start and that every step going on keeps holds of the whole
list when the loop ran to its end. When a step broke out, `Q` holds of the done prefix
up to that step's element, as the step leaves it. -/
theorem breakLoop_inv_of_eq_ok {body : β → α → Except ε (β × Bool)} (l : List α)
    (I Q : List α → β → Prop)
    (step : ∀ done a rest b b', done ++ a :: rest = l → I done b →
      body b a = .ok (b', false) → I (done ++ [a]) b')
    (stop : ∀ done a rest b b', done ++ a :: rest = l → I done b →
      body b a = .ok (b', true) → Q (done ++ [a]) b')
    {b b' : β} {broke : Bool} (h0 : I [] b) (h : breakLoop body b l = .ok (b', broke)) :
    if broke then ∃ done, done <+: l ∧ Q done b' else I l b' := by
  -- The loop from any point of `l` on, the invariant holding of the prefix before it.
  suffices hrest : ∀ rest done b, done ++ rest = l → I done b →
      breakLoop body b rest = .ok (b', broke) →
      if broke then ∃ done, done <+: l ∧ Q done b' else I l b' from hrest l [] b rfl h0 h
  intro rest
  induction rest with
  | nil =>
    intro done b hl hb h
    cases h
    rw [← hl, List.append_nil]
    exact hb
  | cons a rest ih =>
    intro done b hl hb h
    obtain ⟨⟨b₁, stop₁⟩, h₁, hrest⟩ := bind_eq_ok.mp h
    cases stop₁ with
    | false => exact ih (done ++ [a]) b₁ (by simpa using hl) (step done a rest b b₁ hl hb h₁) hrest
    | true =>
      cases hrest
      exact ⟨done ++ [a], ⟨rest, by simpa using hl⟩, stop done a rest b _ hl hb h₁⟩

/-- The invariant rule of a loop with `break` for an invariant of the done prefix that
every step keeps, whether it breaks or not: it holds of some prefix of `l` at the end. -/
theorem breakLoop_prefix_inv_of_eq_ok {body : β → α → Except ε (β × Bool)} (l : List α)
    (I : List α → β → Prop)
    (step : ∀ done a rest b b' stop, done ++ a :: rest = l → I done b →
      body b a = .ok (b', stop) → I (done ++ [a]) b')
    {b b' : β} {broke : Bool} (h0 : I [] b) (h : breakLoop body b l = .ok (b', broke)) :
    ∃ done, done <+: l ∧ I done b' := by
  have hrun := breakLoop_inv_of_eq_ok l I I (fun done a rest b b' => step done a rest b b' false)
    (fun done a rest b b' => step done a rest b b' true) h0 h
  cases broke with
  | false => exact ⟨l, List.prefix_refl l, hrun⟩
  | true => exact hrun

/-- The invariant rule of a loop with `break` for an invariant of the state alone. -/
theorem breakLoop_state_inv_of_eq_ok {body : β → α → Except ε (β × Bool)} (l : List α)
    (P : β → Prop) (step : ∀ a b b' stop, a ∈ l → P b → body b a = .ok (b', stop) → P b')
    {b b' : β} {broke : Bool} (h0 : P b) (h : breakLoop body b l = .ok (b', broke)) : P b' := by
  obtain ⟨-, -, hP⟩ := breakLoop_prefix_inv_of_eq_ok l (fun _ => P)
    (fun done a rest b b' stop hl hb hbody => step a b b' stop (by rw [← hl]; simp) hb hbody) h0 h
  exact hP

end Except

end OasisCore
