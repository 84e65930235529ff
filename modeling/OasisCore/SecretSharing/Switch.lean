import OasisCore.Misc.Except
import OasisCore.Misc.List
import OasisCore.SecretSharing.Recovery
import OasisCore.SecretSharing.Vss

/-!
# The dimension switch of CHURP

`DimensionSwitch` (`secret-sharing/src/churp/switch.rs`) moves a shareholder from one
dimension of the secret bivariate polynomial `B(x, y)` to the other. It accumulates
switch points `B(x_i, me)` or `B(me, y_i)` from the other shareholders, each checked
against a verification vector, and interpolates them into a new share; it then merges
one verified bivariate share from each listed shareholder into a proactivization of
that share. The switch is a state machine behind a mutex: a call in the wrong state
fails with `InvalidState`, and a call that fails part-way leaves behind what it already
changed (the `take` of the identity and the matrix when a shareholder is
reconstructed, the combined share when it is proactivized). Every method returns its
result together with the switch after it.

`Phase.Moves` is the graph of the phases; every call stays or moves along it
(`phase_apply`). From a switch built over distinct shareholders, along every run,
`Inv` holds, and with it `protocolGuarantees_run`: the accumulation ends only with as
many distinct verified points as the dimension asks, the merging only with one
verified share from every listed shareholder, a rejected point or share changes
nothing, and a serving switch never changes.
-/

namespace OasisCore

namespace SecretSharing

namespace Churp

/-- `Error` (`churp/errors.rs`): the variants the switch, the shares and the handoffs
return. -/
inductive Error where
  | duplicateShareholder
  | invalidPolynomial
  | insecureBivariatePolynomial
  | invalidSwitchPoint
  | invalidState
  | notEnoughBivariateShares
  | notEnoughShareholders
  | notEnoughSwitchPoints
  | polynomialDegreeMismatch
  | shareholderProactivizationCompleted
  | shareholderIdentityMismatch
  | shareholderIdentityRequired
  | tooManySwitchPoints
  | unknownShareholder
  | verificationMatrixDimensionMismatch
  | verificationMatrixZeroHoleMismatch
  | verificationMatrixRequired
  /-- Not an error value: `lagrange` panics on repeated x-coordinates. -/
  | lagrangePanic
  deriving DecidableEq, Repr

variable {F G : Type} [Field F] [DecidableEq F] [AddCommGroup G] [Module F G] [DecidableEq G]

/-- `VerifiableSecretShare` (`shareholder.rs:182-196`). -/
structure VerifiableSecretShare (F G : Type) where
  share : SecretShare F
  vm : VerificationMatrix G

/-- `calculate_dimensions` (`shareholder.rs:283-290`). -/
def calculateDimensions (threshold : UInt8) : ℕ × ℕ :=
  (threshold.toNat + 1, threshold.toNat * 2 + 1)

namespace VerifiableSecretShare

/-- `verify_verification_matrix` (`shareholder.rs:225-262`); `element(i, j).unwrap()` is
in bounds once the dimensions match. -/
def verifyVerificationMatrix (vs : VerifiableSecretShare F G) (threshold : UInt8)
    (zeroHole : Bool) : Except Error Unit :=
  let (rows, cols) := calculateDimensions threshold
  if vs.vm.dimensions ≠ (rows, cols) then .error .verificationMatrixDimensionMismatch
  else if vs.vm.isZeroHole ≠ zeroHole then .error .verificationMatrixZeroHoleMismatch
  else if threshold > 0 ∧ (vs.vm.elem (rows - 1) (cols - 1) = 0 ∨ vs.vm.elem (rows - 1) 0 = 0 ∨
      vs.vm.elem 0 (cols - 1) = 0) then .error .insecureBivariatePolynomial
  else .ok ()

variable (generator : G)

/-- `verify_secret_share` (`shareholder.rs:264-281`). -/
def verifySecretShare (vs : VerifiableSecretShare F G) (threshold : UInt8) (fullShare : Bool) :
    Except Error Unit :=
  let (rows, cols) := calculateDimensions threshold
  if fullShare then
    if vs.share.p.size ≠ cols then .error .polynomialDegreeMismatch
    else if !VerificationMatrix.verifyX generator vs.vm vs.share.x vs.share.p then
      .error .invalidPolynomial
    else .ok ()
  else
    if vs.share.p.size ≠ rows then .error .polynomialDegreeMismatch
    else if !VerificationMatrix.verifyY generator vs.vm vs.share.x vs.share.p then
      .error .invalidPolynomial
    else .ok ()

/-- `VerifiableSecretShare::verify` (`shareholder.rs:218-222`). -/
def verify (vs : VerifiableSecretShare F G) (threshold : UInt8) (zeroHole fullShare : Bool) :
    Except Error Unit := do
  vs.verifyVerificationMatrix threshold zeroHole
  vs.verifySecretShare generator threshold fullShare

/-- `AddAssign<&VerifiableSecretShare>` (`shareholder.rs:315-325`): the polynomials and
the matrices added; the identity stays. -/
def addAssign (vs rhs : VerifiableSecretShare F G) : VerifiableSecretShare F G :=
  ⟨⟨vs.share.x, vs.share.p.addAssign rhs.share.p⟩, vs.vm.addAssign rhs.vm⟩

end VerifiableSecretShare

/-- `Shareholder` (`shareholder.rs:32-39`). -/
structure Shareholder (F G : Type) where
  verifiableShare : VerifiableSecretShare F G

/-- `Shareholder::proactivize` (`shareholder.rs:56-77`). -/
def Shareholder.proactivize (sh : Shareholder F G) (p : Polynomial F) (vm : VerificationMatrix G) :
    Except Error (Shareholder F G) :=
  if p.size ≠ sh.verifiableShare.share.p.size then .error .polynomialDegreeMismatch
  else if !vm.isZeroHole then .error .verificationMatrixZeroHoleMismatch
  else if vm.dimensions ≠ sh.verifiableShare.vm.dimensions then
    .error .verificationMatrixDimensionMismatch
  else
    .ok ⟨⟨⟨sh.verifiableShare.share.x, p.add sh.verifiableShare.share.p⟩,
      vm.add sh.verifiableShare.vm⟩⟩

/-! ## Switch points -/

/-- `SwitchPoints` (`switch.rs:340-370`). -/
structure SwitchPoints (F G : Type) where
  n : ℕ
  me : Option F
  vm : Option (VerificationMatrix G)
  vv : VerificationVector G
  points : List (Point F)

namespace SwitchPoints

/-- `SwitchPoints::new` (`switch.rs:377-411`): `t + 1` points verified against `B(·, me)`
for a reduced share, `2t + 1` against `B(me, ·)` for a full one. -/
def new (threshold : UInt8) (fullShare : Bool) (me : F) (vm : VerificationMatrix G) :
    Except Error (SwitchPoints F G) :=
  let rows := threshold.toNat + 1
  let cols := 2 * threshold.toNat + 1
  if vm.dimensions ≠ (rows, cols) then .error .verificationMatrixDimensionMismatch
  else if fullShare then .ok ⟨cols, some me, some vm, vm.verificationVectorForY me, []⟩
  else .ok ⟨rows, some me, some vm, vm.verificationVectorForX me, []⟩

/-- `has_point` (`switch.rs:414-416`). -/
def hasPoint (sp : SwitchPoints F G) (x : F) : Bool :=
  sp.points.any (·.x == x)

/-- `needs_points` (`switch.rs:424-426`). -/
def needsPoints (sp : SwitchPoints F G) : Bool :=
  sp.points.length < sp.n

/-- `needs_point` (`switch.rs:419-421`). -/
def needsPoint (sp : SwitchPoints F G) (x : F) : Bool :=
  sp.needsPoints && !sp.hasPoint x

variable (generator : G)

/-- `add_point` (`switch.rs:432-454`). -/
def addPoint (sp : SwitchPoints F G) (point : Point F) : Except Error (SwitchPoints F G) :=
  if sp.points.length ≥ sp.n then .error .tooManySwitchPoints
  else if sp.hasPoint point.x then .error .duplicateShareholder
  else if !sp.vv.verify generator point.x point.y then .error .invalidSwitchPoint
  else .ok { sp with points := sp.points ++ [point] }

/-- `reconstruct_shareholder` (`switch.rs:456-478`). The identity and the matrix are
taken as they are read, so a failure after the first `take` leaves them consumed. -/
def reconstructShareholder (sp : SwitchPoints F G) : Except Error (Shareholder F G) × SwitchPoints F G :=
  if sp.points.length < sp.n then (.error .notEnoughSwitchPoints, sp)
  else
    match sp.me with
    | none => (.error .shareholderIdentityRequired, sp)
    | some x =>
      match sp.vm with
      | none => (.error .verificationMatrixRequired, { sp with me := none })
      | some vm =>
        let sp' := { sp with me := none, vm := none }
        match lagrange (sp.points.take sp.n) with
        | none => (.error .lagrangePanic, sp')
        | some p =>
          if p.size ≠ sp.n then (.error .polynomialDegreeMismatch, sp')
          else (.ok ⟨⟨⟨x, p⟩, vm⟩⟩, sp')

variable {generator}

theorem addPoint_eq_ok {sp sp' : SwitchPoints F G} {point : Point F} :
    sp.addPoint generator point = .ok sp' ↔
      sp.points.length < sp.n ∧ sp.hasPoint point.x = false ∧
        sp.vv.verify generator point.x point.y = true ∧
        sp' = { sp with points := sp.points ++ [point] } := by
  unfold addPoint
  by_cases hlen : sp.points.length ≥ sp.n
  · simp only [hlen, if_true, reduceCtorEq, false_iff, not_and]
    omega
  rw [if_neg hlen]
  cases hhas : sp.hasPoint point.x
  · cases hverify : sp.vv.verify generator point.x point.y
    · simp
    · simp only [Bool.false_eq_true, if_false, Bool.not_true, Except.ok.injEq, true_and]
      constructor
      · rintro rfl
        exact ⟨by omega, rfl⟩
      · rintro ⟨-, rfl⟩
        rfl
  · simp

omit [Field F] [AddCommGroup G] [Module F G] [DecidableEq G] in
theorem hasPoint_eq_false {sp : SwitchPoints F G} {x : F} :
    sp.hasPoint x = false ↔ x ∉ sp.points.map (·.x) := by
  simp [hasPoint]

omit [AddCommGroup G] [Module F G] [DecidableEq G] in
/-- Reconstructing takes the identity and the matrix, and keeps the rest. -/
theorem reconstructShareholder_snd (sp : SwitchPoints F G) :
    sp.reconstructShareholder.2 =
      { sp with me := sp.reconstructShareholder.2.me, vm := sp.reconstructShareholder.2.vm } := by
  unfold reconstructShareholder
  split_ifs
  · rfl
  cases sp.me with
  | none => rfl
  | some x =>
    cases sp.vm with
    | none => rfl
    | some vm =>
      dsimp only
      cases lagrange (sp.points.take sp.n) with
      | none => rfl
      | some p =>
        dsimp only
        split_ifs <;> rfl

variable (generator) in
/-- The points accumulated for `me` at threshold `t`: `t + 1` or `2t + 1` of them are
needed, the verification vector comes from a matrix of the right dimensions, and the
points have distinct x, each accepted by the vector. -/
structure Accumulated (threshold : UInt8) (fullShare : Bool) (me : F) (sp : SwitchPoints F G) :
    Prop where
  n_eq : sp.n = if fullShare then 2 * threshold.toNat + 1 else threshold.toNat + 1
  vv_eq : ∃ vm : VerificationMatrix G,
    vm.dimensions = (threshold.toNat + 1, 2 * threshold.toNat + 1) ∧
      sp.vv = if fullShare then vm.verificationVectorForY me else vm.verificationVectorForX me
  length_le : sp.points.length ≤ sp.n
  nodup : (sp.points.map (·.x)).Nodup
  verified : ∀ q ∈ sp.points, sp.vv.verify generator q.x q.y = true

omit [DecidableEq F] in
theorem accumulated_of_new {threshold : UInt8} {fullShare : Bool} {me : F}
    {vm : VerificationMatrix G} {sp : SwitchPoints F G} (h : new threshold fullShare me vm = .ok sp) :
    sp.Accumulated generator threshold fullShare me := by
  unfold new at h
  by_cases hdim : vm.dimensions = (threshold.toNat + 1, 2 * threshold.toNat + 1)
  swap
  · rw [if_pos hdim] at h
    cases h
  rw [if_neg (not_not.mpr hdim)] at h
  cases hfull : fullShare <;>
    simp only [hfull, Bool.false_eq_true, if_true, if_false, Except.ok.injEq] at h <;>
    subst h <;>
    exact ⟨by simp, ⟨vm, hdim, by simp⟩, by simp, by simp, by simp⟩

namespace Accumulated

variable {threshold : UInt8} {fullShare : Bool} {me : F} {sp sp₁ : SwitchPoints F G}

/-- An accepted point keeps the accumulation: it has a new x and the vector accepts it. -/
theorem addPoint (hacc : sp.Accumulated generator threshold fullShare me) {point : Point F}
    (h : sp.addPoint generator point = .ok sp₁) :
    sp₁.Accumulated generator threshold fullShare me := by
  obtain ⟨hlt, hhas, hverify, rfl⟩ := addPoint_eq_ok.mp h
  have hfresh : point.x ∉ sp.points.map (·.x) := hasPoint_eq_false.mp hhas
  refine ⟨hacc.n_eq, hacc.vv_eq, ?_, ?_, ?_⟩
  · simp only [List.length_append, List.length_singleton]
    omega
  · simpa [List.nodup_append, hacc.nodup] using hfresh
  · intro q hq
    rcases List.mem_append.mp hq with hq | hq
    · exact hacc.verified q hq
    · rw [List.mem_singleton.mp hq]
      exact hverify

theorem reconstructShareholder (hacc : sp.Accumulated generator threshold fullShare me) :
    sp.reconstructShareholder.2.Accumulated generator threshold fullShare me := by
  rw [reconstructShareholder_snd]
  exact ⟨hacc.n_eq, hacc.vv_eq, hacc.length_le, hacc.nodup, hacc.verified⟩

end Accumulated

end SwitchPoints

/-! ## Bivariate shares -/

/-- `BivariateShares` (`switch.rs:481-510`). -/
structure BivariateShares (F G : Type) where
  threshold : UInt8
  zeroHole : Bool
  fullShare : Bool
  me : F
  shareholders : List F
  pendingShareholders : List F
  shareholder : Option (Shareholder F G)
  combinedShare : Option (VerifiableSecretShare F G)

namespace BivariateShares

/-- `BivariateShares::new` (`switch.rs:517-537`). -/
def new (threshold : UInt8) (zeroHole fullShare : Bool) (me : F) (shareholders : List F)
    (shareholder : Option (Shareholder F G)) : Except Error (BivariateShares F G) :=
  if shareholders.isEmpty then .error .notEnoughShareholders
  else .ok ⟨threshold, zeroHole, fullShare, me, shareholders, shareholders, shareholder, none⟩

/-- `has_bivariate_share` (`switch.rs:540-542`). -/
def hasBivariateShare (bs : BivariateShares F G) (x : F) : Bool :=
  bs.shareholders.contains x

/-- `needs_bivariate_share` (`switch.rs:545-547`). -/
def needsBivariateShare (bs : BivariateShares F G) (x : F) : Bool :=
  bs.pendingShareholders.contains x

variable (generator : G)

/-- `add_bivariate_share` (`switch.rs:553-588`): whether no share is pending any more. -/
def addBivariateShare (bs : BivariateShares F G) (x : F) (vs : VerifiableSecretShare F G) :
    Except Error (Bool × BivariateShares F G) := do
  if !bs.hasBivariateShare x then throw .unknownShareholder
  if !bs.needsBivariateShare x then throw .duplicateShareholder
  if vs.share.x ≠ bs.me then throw .shareholderIdentityMismatch
  vs.verify generator bs.threshold bs.zeroHole bs.fullShare
  let combinedShare := match bs.combinedShare with
    | some cs => cs.addAssign vs
    | none => vs
  let pendingShareholders :=
    swapRemove bs.pendingShareholders (bs.pendingShareholders.idxOf x)
  pure (pendingShareholders.isEmpty,
    { bs with combinedShare := some combinedShare, pendingShareholders })

/-- `proactivize_shareholder` (`switch.rs:592-618`). The combined share is taken as it
is read. -/
def proactivizeShareholder (bs : BivariateShares F G) :
    Except Error (Shareholder F G) × BivariateShares F G :=
  if !bs.pendingShareholders.isEmpty then (.error .notEnoughBivariateShares, bs)
  else
    match bs.combinedShare with
    | none => (.error .shareholderProactivizationCompleted, bs)
    | some vs =>
      let bs' := { bs with combinedShare := none }
      let shareholder := match bs.shareholder with
        | some sh => sh.proactivize vs.share.p vs.vm
        | none => .ok ⟨vs⟩
      match shareholder with
      | .error e => (.error e, bs')
      | .ok shareholder =>
        match shareholder.verifiableShare.verify generator bs.threshold false bs.fullShare with
        | .error e => (.error e, bs')
        | .ok () => (.ok shareholder, bs')

variable {generator}

/-- An accepted share: the checks pass, the share is added to the combined one and its
shareholder leaves the pending ones. -/
theorem addBivariateShare_eq_ok {bs bs' : BivariateShares F G} {x : F}
    {vs : VerifiableSecretShare F G} {done : Bool}
    (h : bs.addBivariateShare generator x vs = .ok (done, bs')) :
    bs.hasBivariateShare x = true ∧ bs.needsBivariateShare x = true ∧ vs.share.x = bs.me ∧
      vs.verify generator bs.threshold bs.zeroHole bs.fullShare = .ok () ∧
      bs' = { bs with
        combinedShare := some (match bs.combinedShare with
          | some cs => cs.addAssign vs
          | none => vs)
        pendingShareholders := swapRemove bs.pendingShareholders (bs.pendingShareholders.idxOf x) } ∧
      done = bs'.pendingShareholders.isEmpty := by
  unfold addBivariateShare at h
  by_cases hhas : bs.hasBivariateShare x = true
  swap
  · rw [if_pos (by simpa using hhas), Except.throw_bind] at h
    cases h
  rw [if_neg (by simpa using hhas)] at h
  by_cases hneeds : bs.needsBivariateShare x = true
  swap
  · rw [if_pos (by simpa using hneeds), Except.throw_bind] at h
    cases h
  rw [if_neg (by simpa using hneeds)] at h
  by_cases hx : vs.share.x = bs.me
  swap
  · rw [if_pos hx, Except.throw_bind] at h
    cases h
  rw [if_neg (not_not.mpr hx)] at h
  obtain ⟨u, hverify, hrest⟩ := Except.bind_eq_ok.mp h
  cases Except.pure_eq_ok.mp hrest
  exact ⟨hhas, hneeds, hx, hverify, rfl, rfl⟩

omit [DecidableEq F] in
/-- Proactivizing takes the combined share, once no share is pending, and keeps the
rest. -/
theorem proactivizeShareholder_snd (bs : BivariateShares F G) :
    (bs.proactivizeShareholder generator).2 = bs ∨
      (bs.pendingShareholders = [] ∧
        (bs.proactivizeShareholder generator).2 = { bs with combinedShare := none }) := by
  unfold proactivizeShareholder
  by_cases hpending : bs.pendingShareholders.isEmpty = true
  · rw [if_neg (by simpa using hpending)]
    have hnil : bs.pendingShareholders = [] := List.isEmpty_iff.mp hpending
    cases bs.combinedShare with
    | none => exact .inl rfl
    | some vs =>
      right
      refine ⟨hnil, ?_⟩
      dsimp only
      split
      · rfl
      · split <;> rfl
  · rw [if_pos (by simpa using hpending)]
    exact .inl rfl

variable (generator) in
/-- The shares merged for `me`: the parameters are the switch's, and the shares accepted
so far come one from each shareholder that is no longer pending, each for `me` and
verified with those parameters. -/
structure Merged (threshold : UInt8) (zeroHole fullShare : Bool) (me : F) (shareholders : List F)
    (bs : BivariateShares F G) : Prop where
  threshold_eq : bs.threshold = threshold
  zeroHole_eq : bs.zeroHole = zeroHole
  fullShare_eq : bs.fullShare = fullShare
  me_eq : bs.me = me
  shareholders_eq : bs.shareholders = shareholders
  accepted : ∃ accepted : List (F × VerifiableSecretShare F G),
    (accepted.map Prod.fst ++ bs.pendingShareholders).Perm shareholders ∧
      ∀ a ∈ accepted, a.2.share.x = me ∧ a.2.verify generator threshold zeroHole fullShare = .ok ()

section Merged

variable {threshold : UInt8} {zeroHole fullShare : Bool} {me : F} {shareholders : List F}
  {bs bs₁ : BivariateShares F G}

omit [DecidableEq F] in
theorem merged_of_new {shareholder : Option (Shareholder F G)}
    (h : new threshold zeroHole fullShare me shareholders shareholder = .ok bs) :
    bs.Merged generator threshold zeroHole fullShare me shareholders := by
  unfold new at h
  split_ifs at h
  cases h
  exact ⟨rfl, rfl, rfl, rfl, rfl, [], by simp, by simp⟩

/-- An accepted share moves its shareholder from the pending ones to the accepted ones. -/
theorem Merged.addBivariateShare
    (hm : bs.Merged generator threshold zeroHole fullShare me shareholders) {x : F}
    {vs : VerifiableSecretShare F G} {done : Bool}
    (h : bs.addBivariateShare generator x vs = .ok (done, bs₁)) :
    bs₁.Merged generator threshold zeroHole fullShare me shareholders := by
  obtain ⟨-, hneeds, hx, hverify, rfl, -⟩ := addBivariateShare_eq_ok h
  obtain ⟨accepted, hperm, hacc⟩ := hm.accepted
  have hmem : x ∈ bs.pendingShareholders := by simpa [needsBivariateShare] using hneeds
  refine ⟨hm.threshold_eq, hm.zeroHole_eq, hm.fullShare_eq, hm.me_eq, hm.shareholders_eq,
    accepted ++ [(x, vs)], ?_, ?_⟩
  · -- The new pending list is the old one without x, in another order.
    have hpending : (x :: swapRemove bs.pendingShareholders (bs.pendingShareholders.idxOf x)).Perm
        bs.pendingShareholders :=
      ((swapRemove_idxOf_perm hmem).cons x).trans (List.perm_cons_erase hmem).symm
    simpa using (hpending.append_left (accepted.map Prod.fst)).trans hperm
  · intro a ha
    rcases List.mem_append.mp ha with ha | ha
    · exact hacc a ha
    · rw [List.mem_singleton.mp ha, ← hm.threshold_eq, ← hm.zeroHole_eq, ← hm.fullShare_eq,
        ← hm.me_eq]
      exact ⟨hx, hverify⟩

/-- An accepted share removes one occurrence of its shareholder from the pending ones,
however often the shareholder is listed. -/
theorem count_pending_addBivariateShare {x : F} {vs : VerifiableSecretShare F G} {done : Bool}
    (h : bs.addBivariateShare generator x vs = .ok (done, bs₁)) (y : F) :
    bs₁.pendingShareholders.count y =
      bs.pendingShareholders.count y - if x = y then 1 else 0 := by
  obtain ⟨-, hneeds, -, -, rfl, -⟩ := addBivariateShare_eq_ok h
  have hmem : x ∈ bs.pendingShareholders := by simpa [needsBivariateShare] using hneeds
  rw [(swapRemove_idxOf_perm hmem).count_eq, List.count_erase]
  simp

omit [DecidableEq F] in
theorem Merged.proactivizeShareholder
    (hm : bs.Merged generator threshold zeroHole fullShare me shareholders) :
    (bs.proactivizeShareholder generator).2.Merged generator threshold zeroHole fullShare me
      shareholders := by
  rcases @proactivizeShareholder_snd F G _ _ _ _ generator bs with h | ⟨-, h⟩ <;> rw [h]
  · exact hm
  · exact ⟨hm.threshold_eq, hm.zeroHole_eq, hm.fullShare_eq, hm.me_eq, hm.shareholders_eq,
      hm.accepted⟩

end Merged

end BivariateShares

/-! ## The switch -/

/-- `DimensionSwitchState` (`switch.rs:62-98`). -/
inductive DimensionSwitchState (F G : Type) where
  | waitingForVerificationMatrix
  | accumulating (sp : SwitchPoints F G)
  | waitingForShareholder
  | merging (bs : BivariateShares F G)
  | serving (shareholder : Shareholder F G)

/-- `DimensionSwitch` (`switch.rs:101-126`). -/
structure DimensionSwitch (F G : Type) where
  threshold : UInt8
  zeroHole : Bool
  fullShare : Bool
  me : F
  shareholders : List F
  state : DimensionSwitchState F G

namespace DimensionSwitch

/-- `DimensionSwitch::new` (`switch.rs:158-176`); it never fails. -/
def new (threshold : UInt8) (zeroHole fullShare : Bool) (me : F) (shareholders : List F) :
    DimensionSwitch F G :=
  ⟨threshold, zeroHole, fullShare, me, shareholders, .waitingForVerificationMatrix⟩

/-- `new_share_reduction` (`switch.rs:134-142`). -/
def newShareReduction (threshold : UInt8) (zeroHole : Bool) (me : F) (shareholders : List F) :
    DimensionSwitch F G :=
  new threshold zeroHole false me shareholders

/-- `new_full_share_distribution` (`switch.rs:148-156`). -/
def newFullShareDistribution (threshold : UInt8) (zeroHole : Bool) (me : F)
    (shareholders : List F) : DimensionSwitch F G :=
  new threshold zeroHole true me shareholders

/-- `is_waiting_for_verification_matrix` (`switch.rs:179-182`). -/
def isWaitingForVerificationMatrix (sw : DimensionSwitch F G) : Bool :=
  match sw.state with
  | .waitingForVerificationMatrix => true
  | _ => false

/-- `skip_accumulating` (`switch.rs:185-194`). -/
def skipAccumulating (sw : DimensionSwitch F G) : Except Error Unit × DimensionSwitch F G :=
  match sw.state with
  | .waitingForVerificationMatrix => (.ok (), { sw with state := .waitingForShareholder })
  | _ => (.error .invalidState, sw)

/-- `start_accumulating` (`switch.rs:198-209`). -/
def startAccumulating (sw : DimensionSwitch F G) (vm : VerificationMatrix G) :
    Except Error Unit × DimensionSwitch F G :=
  match sw.state with
  | .waitingForVerificationMatrix =>
    match SwitchPoints.new sw.threshold sw.fullShare sw.me vm with
    | .ok sp => (.ok (), { sw with state := .accumulating sp })
    | .error e => (.error e, sw)
  | _ => (.error .invalidState, sw)

/-- `needs_switch_point` (`switch.rs:212-222`). -/
def needsSwitchPoint (sw : DimensionSwitch F G) (x : F) : Except Error Bool :=
  match sw.state with
  | .waitingForVerificationMatrix => .ok true
  | .accumulating sp => .ok (sp.needsPoint x)
  | _ => .error .invalidState

variable (generator : G)

/-- `add_switch_point` (`switch.rs:228-262`): whether the switch moved on. -/
def addSwitchPoint (sw : DimensionSwitch F G) (point : Point F) :
    Except Error Bool × DimensionSwitch F G :=
  match sw.state with
  | .accumulating sp =>
    match sp.addPoint generator point with
    | .error e => (.error e, sw)
    | .ok sp =>
      if sp.needsPoints then (.ok false, { sw with state := .accumulating sp })
      else
        match sp.reconstructShareholder with
        | (.error e, sp) => (.error e, { sw with state := .accumulating sp })
        | (.ok shareholder, sp) =>
          if sw.shareholders.isEmpty then (.ok true, { sw with state := .serving shareholder })
          else
            match BivariateShares.new sw.threshold sw.zeroHole sw.fullShare sw.me sw.shareholders
                (some shareholder) with
            | .ok bs => (.ok true, { sw with state := .merging bs })
            | .error e => (.error e, { sw with state := .accumulating sp })
  | _ => (.error .invalidState, sw)

/-- `is_waiting_for_shareholder` (`switch.rs:265-268`). -/
def isWaitingForShareholder (sw : DimensionSwitch F G) : Bool :=
  match sw.state with
  | .waitingForShareholder => true
  | _ => false

/-- `start_merging` (`switch.rs:272-291`). -/
def startMerging (sw : DimensionSwitch F G) (shareholder : Option (Shareholder F G)) :
    Except Error Unit × DimensionSwitch F G :=
  match sw.state with
  | .waitingForShareholder =>
    match BivariateShares.new sw.threshold sw.zeroHole sw.fullShare sw.me sw.shareholders
        shareholder with
    | .ok bs => (.ok (), { sw with state := .merging bs })
    | .error e => (.error e, sw)
  | _ => (.error .invalidState, sw)

/-- `needs_bivariate_share` (`switch.rs:294-303`). -/
def needsBivariateShare (sw : DimensionSwitch F G) (x : F) : Except Error Bool :=
  match sw.state with
  | .merging bs => .ok (bs.needsBivariateShare x)
  | _ => .error .invalidState

/-- `add_bivariate_share` (`switch.rs:309-328`): whether the switch moved on. -/
def addBivariateShare (sw : DimensionSwitch F G) (x : F) (vs : VerifiableSecretShare F G) :
    Except Error Bool × DimensionSwitch F G :=
  match sw.state with
  | .merging bs =>
    match bs.addBivariateShare generator x vs with
    | .error e => (.error e, sw)
    | .ok (false, bs) => (.ok false, { sw with state := .merging bs })
    | .ok (true, bs) =>
      match bs.proactivizeShareholder generator with
      | (.error e, bs) => (.error e, { sw with state := .merging bs })
      | (.ok shareholder, _) => (.ok true, { sw with state := .serving shareholder })
  | _ => (.error .invalidState, sw)

/-- `get_shareholder` (`switch.rs:331-339`). -/
def getShareholder (sw : DimensionSwitch F G) : Except Error (Shareholder F G) :=
  match sw.state with
  | .serving shareholder => .ok shareholder
  | _ => .error .invalidState

end DimensionSwitch

/-! ## The protocol -/

/-- The phases of the switch: its states without their payloads. -/
inductive Phase where
  | waitingForVerificationMatrix
  | accumulating
  | waitingForShareholder
  | merging
  | serving
  deriving DecidableEq, Repr

/-- The phase of a state. -/
def DimensionSwitchState.phase : DimensionSwitchState F G → Phase
  | .waitingForVerificationMatrix => .waitingForVerificationMatrix
  | .accumulating _ => .accumulating
  | .waitingForShareholder => .waitingForShareholder
  | .merging _ => .merging
  | .serving _ => .serving

/-- The moves between phases that the states' comments describe (`switch.rs:62-98`). -/
inductive Phase.Moves : Phase → Phase → Prop
  | startAccumulating : Moves .waitingForVerificationMatrix .accumulating
  | skipAccumulating : Moves .waitingForVerificationMatrix .waitingForShareholder
  | accumulatedToMerging : Moves .accumulating .merging
  | accumulatedToServing : Moves .accumulating .serving
  | startMerging : Moves .waitingForShareholder .merging
  | merged : Moves .merging .serving

/-- The calls of the protocol on a switch. -/
inductive Call (F G : Type) where
  | skipAccumulating
  | startAccumulating (vm : VerificationMatrix G)
  | addSwitchPoint (point : Point F)
  | startMerging (shareholder : Option (Shareholder F G))
  | addBivariateShare (x : F) (vs : VerifiableSecretShare F G)
  | getShareholder

/-- The phase in which a call does its work; in any other it fails with `InvalidState`. -/
def Call.phase : Call F G → Phase
  | .skipAccumulating => .waitingForVerificationMatrix
  | .startAccumulating _ => .waitingForVerificationMatrix
  | .addSwitchPoint _ => .accumulating
  | .startMerging _ => .waitingForShareholder
  | .addBivariateShare _ _ => .merging
  | .getShareholder => .serving

namespace DimensionSwitchState

omit [Field F] [DecidableEq F] [AddCommGroup G] [Module F G] [DecidableEq G]

variable {s : DimensionSwitchState F G}

theorem phase_eq_waitingForVerificationMatrix :
    s.phase = .waitingForVerificationMatrix ↔ s = .waitingForVerificationMatrix := by
  cases s <;> simp [phase]

theorem phase_eq_accumulating : s.phase = .accumulating ↔ ∃ sp, s = .accumulating sp := by
  cases s <;> simp [phase]

theorem phase_eq_waitingForShareholder :
    s.phase = .waitingForShareholder ↔ s = .waitingForShareholder := by
  cases s <;> simp [phase]

theorem phase_eq_merging : s.phase = .merging ↔ ∃ bs, s = .merging bs := by
  cases s <;> simp [phase]

theorem phase_eq_serving : s.phase = .serving ↔ ∃ sh, s = .serving sh := by
  cases s <;> simp [phase]

end DimensionSwitchState

namespace DimensionSwitch

variable (generator : G)

/-- A call on the switch: whether it failed, and the switch after. -/
def apply (sw : DimensionSwitch F G) : Call F G → Except Error Unit × DimensionSwitch F G
  | .skipAccumulating => sw.skipAccumulating
  | .startAccumulating vm => sw.startAccumulating vm
  | .addSwitchPoint point =>
    ((sw.addSwitchPoint generator point).1.map fun _ => (), (sw.addSwitchPoint generator point).2)
  | .startMerging shareholder => sw.startMerging shareholder
  | .addBivariateShare x vs =>
    ((sw.addBivariateShare generator x vs).1.map fun _ => (),
      (sw.addBivariateShare generator x vs).2)
  | .getShareholder => (sw.getShareholder.map fun _ => (), sw)

/-- The switch after a sequence of calls. -/
def run (sw : DimensionSwitch F G) (calls : List (Call F G)) : DimensionSwitch F G :=
  calls.foldl (fun sw c => (sw.apply generator c).2) sw

variable {generator} {sw : DimensionSwitch F G}

@[simp] theorem run_nil (sw : DimensionSwitch F G) : sw.run generator [] = sw :=
  rfl

@[simp] theorem run_cons (sw : DimensionSwitch F G) (c : Call F G) (calls : List (Call F G)) :
    sw.run generator (c :: calls) = (sw.apply generator c).2.run generator calls :=
  rfl

/-! ### Calls out of their phase -/

omit [Field F] [DecidableEq F] [AddCommGroup G] [Module F G] [DecidableEq G] in
theorem skipAccumulating_of_phase_ne (h : sw.state.phase ≠ .waitingForVerificationMatrix) :
    sw.skipAccumulating = (.error .invalidState, sw) := by
  cases hs : sw.state <;> simp_all [skipAccumulating, DimensionSwitchState.phase]

omit [DecidableEq F] [DecidableEq G] in
theorem startAccumulating_of_phase_ne (h : sw.state.phase ≠ .waitingForVerificationMatrix)
    (vm : VerificationMatrix G) : sw.startAccumulating vm = (.error .invalidState, sw) := by
  cases hs : sw.state <;> simp_all [startAccumulating, DimensionSwitchState.phase]

theorem addSwitchPoint_of_phase_ne (h : sw.state.phase ≠ .accumulating) (point : Point F) :
    sw.addSwitchPoint generator point = (.error .invalidState, sw) := by
  cases hs : sw.state <;> simp_all [addSwitchPoint, DimensionSwitchState.phase]

omit [Field F] [DecidableEq F] [AddCommGroup G] [Module F G] [DecidableEq G] in
theorem startMerging_of_phase_ne (h : sw.state.phase ≠ .waitingForShareholder)
    (shareholder : Option (Shareholder F G)) :
    sw.startMerging shareholder = (.error .invalidState, sw) := by
  cases hs : sw.state <;> simp_all [startMerging, DimensionSwitchState.phase]

theorem addBivariateShare_of_phase_ne (h : sw.state.phase ≠ .merging) (x : F)
    (vs : VerifiableSecretShare F G) :
    sw.addBivariateShare generator x vs = (.error .invalidState, sw) := by
  cases hs : sw.state <;> simp_all [addBivariateShare, DimensionSwitchState.phase]

omit [Field F] [DecidableEq F] [AddCommGroup G] [Module F G] [DecidableEq G] in
theorem getShareholder_of_phase_ne (h : sw.state.phase ≠ .serving) :
    sw.getShareholder = .error .invalidState := by
  cases hs : sw.state <;> simp_all [getShareholder, DimensionSwitchState.phase]

/-- A call in another phase than its own fails with `InvalidState` and changes nothing. -/
theorem apply_of_phase_ne {c : Call F G} (h : sw.state.phase ≠ c.phase) :
    sw.apply generator c = (.error .invalidState, sw) := by
  cases c with
  | skipAccumulating => exact skipAccumulating_of_phase_ne h
  | startAccumulating vm => exact startAccumulating_of_phase_ne h vm
  | addSwitchPoint point => simp [apply, addSwitchPoint_of_phase_ne h point, Except.map]
  | startMerging shareholder => exact startMerging_of_phase_ne h shareholder
  | addBivariateShare x vs => simp [apply, addBivariateShare_of_phase_ne h x vs, Except.map]
  | getShareholder => simp [apply, getShareholder_of_phase_ne h, Except.map]

/-! ### Calls in their phase -/

omit [Field F] [DecidableEq F] [AddCommGroup G] [Module F G] [DecidableEq G] in
theorem skipAccumulating_of_state (hs : sw.state = .waitingForVerificationMatrix) :
    sw.skipAccumulating = (.ok (), { sw with state := .waitingForShareholder }) := by
  simp [skipAccumulating, hs]

omit [DecidableEq F] [DecidableEq G] in
theorem startAccumulating_snd (hs : sw.state = .waitingForVerificationMatrix)
    (vm : VerificationMatrix G) :
    (sw.startAccumulating vm).2 = sw ∨
      ∃ sp, SwitchPoints.new sw.threshold sw.fullShare sw.me vm = .ok sp ∧
        (sw.startAccumulating vm).2 = { sw with state := .accumulating sp } := by
  unfold startAccumulating
  rw [hs]
  cases SwitchPoints.new sw.threshold sw.fullShare sw.me vm with
  | error e => exact .inl rfl
  | ok sp => exact .inr ⟨sp, rfl, rfl⟩

/-- What an accepted or refused switch point does: nothing, or the point is added, and
once none is needed the shareholder is reconstructed and the switch moves on. -/
theorem addSwitchPoint_snd {sp : SwitchPoints F G} (hs : sw.state = .accumulating sp)
    (point : Point F) :
    (sw.addSwitchPoint generator point).2 = sw ∨
      ∃ sp₁, sp.addPoint generator point = .ok sp₁ ∧
        ((sw.addSwitchPoint generator point).2 = { sw with state := .accumulating sp₁ } ∨
          sp₁.needsPoints = false ∧
            ((sw.addSwitchPoint generator point).2 =
                { sw with state := .accumulating sp₁.reconstructShareholder.2 } ∨
              (∃ sh, (sw.addSwitchPoint generator point).2 = { sw with state := .serving sh }) ∨
              ∃ sh bs, BivariateShares.new sw.threshold sw.zeroHole sw.fullShare sw.me
                  sw.shareholders (some sh) = .ok bs ∧
                (sw.addSwitchPoint generator point).2 = { sw with state := .merging bs })) := by
  unfold addSwitchPoint
  rw [hs]
  dsimp only
  cases sp.addPoint generator point with
  | error e => exact .inl rfl
  | ok sp₁ =>
    refine .inr ⟨sp₁, rfl, ?_⟩
    dsimp only
    cases hneeds : sp₁.needsPoints
    swap
    · exact .inl (by simp)
    refine .inr ⟨rfl, ?_⟩
    simp only [Bool.false_eq_true, if_false]
    rcases hrec : sp₁.reconstructShareholder with ⟨_ | sh, sp₂⟩
    · exact .inl (by simp)
    by_cases hempty : sw.shareholders.isEmpty = true
    · exact .inr (.inl ⟨sh, by simp [hempty]⟩)
    simp only [hempty, Bool.false_eq_true, if_false]
    cases hbs : BivariateShares.new sw.threshold sw.zeroHole sw.fullShare sw.me sw.shareholders
        (some sh) with
    | error e => exact .inl rfl
    | ok bs => exact .inr (.inr ⟨sh, bs, hbs, rfl⟩)

omit [Field F] [DecidableEq F] [AddCommGroup G] [Module F G] [DecidableEq G] in
theorem startMerging_snd (hs : sw.state = .waitingForShareholder)
    (shareholder : Option (Shareholder F G)) :
    (sw.startMerging shareholder).2 = sw ∨
      ∃ bs, BivariateShares.new sw.threshold sw.zeroHole sw.fullShare sw.me sw.shareholders
          shareholder = .ok bs ∧
        (sw.startMerging shareholder).2 = { sw with state := .merging bs } := by
  unfold startMerging
  rw [hs]
  cases BivariateShares.new sw.threshold sw.zeroHole sw.fullShare sw.me sw.shareholders
      shareholder with
  | error e => exact .inl rfl
  | ok bs => exact .inr ⟨bs, rfl, rfl⟩

/-- What an accepted or refused bivariate share does: nothing, or the share is merged, and
once none is pending the shareholder is proactivized and the switch serves it. -/
theorem addBivariateShare_snd {bs : BivariateShares F G} (hs : sw.state = .merging bs) (x : F)
    (vs : VerifiableSecretShare F G) :
    (sw.addBivariateShare generator x vs).2 = sw ∨
      ∃ done bs₁, bs.addBivariateShare generator x vs = .ok (done, bs₁) ∧
        ((sw.addBivariateShare generator x vs).2 = { sw with state := .merging bs₁ } ∨
          done = true ∧
            ((sw.addBivariateShare generator x vs).2 =
                { sw with state := .merging (bs₁.proactivizeShareholder generator).2 } ∨
              ∃ sh, (sw.addBivariateShare generator x vs).2 = { sw with state := .serving sh })) := by
  unfold addBivariateShare
  rw [hs]
  dsimp only
  rcases hadd : bs.addBivariateShare generator x vs with e | ⟨_ | _, bs₁⟩
  · exact .inl rfl
  · exact .inr ⟨false, bs₁, rfl, .inl rfl⟩
  refine .inr ⟨true, bs₁, rfl, .inr ⟨rfl, ?_⟩⟩
  dsimp only
  rcases hpro : bs₁.proactivizeShareholder generator with ⟨_ | sh, bs₂⟩
  · exact .inl rfl
  · exact .inr ⟨sh, rfl⟩

/-! ### The phases a call moves between -/

open DimensionSwitchState in
/-- Every call leaves the switch in its phase or moves it along `Phase.Moves`. -/
theorem phase_apply (sw : DimensionSwitch F G) (c : Call F G) :
    (sw.apply generator c).2.state.phase = sw.state.phase ∨
      Phase.Moves sw.state.phase (sw.apply generator c).2.state.phase := by
  by_cases hphase : sw.state.phase = c.phase
  swap
  · rw [apply_of_phase_ne hphase]
    exact .inl rfl
  cases c with
  | skipAccumulating =>
    have hs := phase_eq_waitingForVerificationMatrix.mp hphase
    dsimp only [apply]
    rw [skipAccumulating_of_state hs, hs]
    exact .inr .skipAccumulating
  | startAccumulating vm =>
    have hs := phase_eq_waitingForVerificationMatrix.mp hphase
    dsimp only [apply]
    rcases startAccumulating_snd hs vm with h | ⟨sp, -, h⟩ <;> rw [h]
    · exact .inl rfl
    · rw [hs]
      exact .inr .startAccumulating
  | addSwitchPoint point =>
    obtain ⟨sp, hs⟩ := phase_eq_accumulating.mp hphase
    dsimp only [apply]
    rcases addSwitchPoint_snd hs point with h | ⟨sp₁, -, h | ⟨-, h | ⟨sh, h⟩ | ⟨sh, bs, -, h⟩⟩⟩ <;>
      rw [h, hs]
    · exact .inl rfl
    · exact .inl rfl
    · exact .inl rfl
    · exact .inr .accumulatedToServing
    · exact .inr .accumulatedToMerging
  | startMerging shareholder =>
    have hs := phase_eq_waitingForShareholder.mp hphase
    dsimp only [apply]
    rcases startMerging_snd hs shareholder with h | ⟨bs, -, h⟩ <;> rw [h]
    · exact .inl rfl
    · rw [hs]
      exact .inr .startMerging
  | addBivariateShare x vs =>
    obtain ⟨bs, hs⟩ := phase_eq_merging.mp hphase
    dsimp only [apply]
    rcases addBivariateShare_snd hs x vs with h | ⟨done, bs₁, -, h | ⟨-, h | ⟨sh, h⟩⟩⟩ <;>
      rw [h, hs]
    · exact .inl rfl
    · exact .inl rfl
    · exact .inl rfl
    · exact .inr .merged
  | getShareholder => exact .inl rfl

/-! ### The invariant -/

variable (generator) in
/-- What the state of a switch holds of the points or shares it has accepted. -/
def StateInv (sw : DimensionSwitch F G) : DimensionSwitchState F G → Prop
  | .accumulating sp => sp.Accumulated generator sw.threshold sw.fullShare sw.me
  | .merging bs => bs.Merged generator sw.threshold sw.zeroHole sw.fullShare sw.me sw.shareholders
  | _ => True

variable (generator) in
/-- The invariant of a run: distinct shareholders, and what the state has accepted. -/
structure Inv (sw : DimensionSwitch F G) : Prop where
  nodup : sw.shareholders.Nodup
  state : sw.StateInv generator sw.state

namespace Inv

omit [DecidableEq F] in
theorem accumulated (hi : sw.Inv generator) {sp : SwitchPoints F G}
    (hs : sw.state = .accumulating sp) :
    sp.Accumulated generator sw.threshold sw.fullShare sw.me := by
  have h := hi.state
  rw [hs] at h
  exact h

omit [DecidableEq F] in
theorem merged (hi : sw.Inv generator) {bs : BivariateShares F G} (hs : sw.state = .merging bs) :
    bs.Merged generator sw.threshold sw.zeroHole sw.fullShare sw.me sw.shareholders := by
  have h := hi.state
  rw [hs] at h
  exact h

omit [DecidableEq F] in
theorem new {threshold : UInt8} {zeroHole fullShare : Bool} {me : F} {shareholders : List F}
    (hnodup : shareholders.Nodup) :
    (DimensionSwitch.new threshold zeroHole fullShare me shareholders : DimensionSwitch F G).Inv
      generator :=
  ⟨hnodup, trivial⟩

open DimensionSwitchState in
/-- Every call keeps the invariant. -/
theorem apply (hi : sw.Inv generator) (c : Call F G) : (sw.apply generator c).2.Inv generator := by
  by_cases hphase : sw.state.phase = c.phase
  swap
  · rw [apply_of_phase_ne hphase]
    exact hi
  cases c with
  | skipAccumulating =>
    dsimp only [DimensionSwitch.apply]
    rw [skipAccumulating_of_state (phase_eq_waitingForVerificationMatrix.mp hphase)]
    exact ⟨hi.nodup, trivial⟩
  | startAccumulating vm =>
    dsimp only [DimensionSwitch.apply]
    rcases startAccumulating_snd (phase_eq_waitingForVerificationMatrix.mp hphase) vm with
      h | ⟨sp, hnew, h⟩ <;> rw [h]
    · exact hi
    · exact ⟨hi.nodup, SwitchPoints.accumulated_of_new hnew⟩
  | addSwitchPoint point =>
    obtain ⟨sp, hs⟩ := phase_eq_accumulating.mp hphase
    have hacc := hi.accumulated hs
    dsimp only [DimensionSwitch.apply]
    rcases addSwitchPoint_snd hs point with
      h | ⟨sp₁, hadd, h | ⟨-, h | ⟨sh, h⟩ | ⟨sh, bs, hnew, h⟩⟩⟩ <;> rw [h]
    · exact hi
    · exact ⟨hi.nodup, hacc.addPoint hadd⟩
    · exact ⟨hi.nodup, (hacc.addPoint hadd).reconstructShareholder⟩
    · exact ⟨hi.nodup, trivial⟩
    · exact ⟨hi.nodup, BivariateShares.merged_of_new hnew⟩
  | startMerging shareholder =>
    dsimp only [DimensionSwitch.apply]
    rcases startMerging_snd (phase_eq_waitingForShareholder.mp hphase) shareholder with
      h | ⟨bs, hnew, h⟩ <;> rw [h]
    · exact hi
    · exact ⟨hi.nodup, BivariateShares.merged_of_new hnew⟩
  | addBivariateShare x vs =>
    obtain ⟨bs, hs⟩ := phase_eq_merging.mp hphase
    have hm := hi.merged hs
    dsimp only [DimensionSwitch.apply]
    rcases addBivariateShare_snd hs x vs with
      h | ⟨done, bs₁, hadd, h | ⟨-, h | ⟨sh, h⟩⟩⟩ <;> rw [h]
    · exact hi
    · exact ⟨hi.nodup, hm.addBivariateShare hadd⟩
    · exact ⟨hi.nodup, (hm.addBivariateShare hadd).proactivizeShareholder⟩
    · exact ⟨hi.nodup, trivial⟩
  | getShareholder => exact hi

/-- The invariant holds after any sequence of calls. -/
theorem run (hi : sw.Inv generator) (calls : List (Call F G)) :
    (sw.run generator calls).Inv generator := by
  induction calls generalizing sw with
  | nil => exact hi
  | cons c calls ih => exact ih (hi.apply c)

end Inv

/-! ### What the protocol guarantees -/

/-- A point that moves the switch on was accepted and left no point needed. -/
theorem addSwitchPoint_leaves {sp : SwitchPoints F G} (hs : sw.state = .accumulating sp)
    {point : Point F} (hexit : (sw.addSwitchPoint generator point).2.state.phase ≠ .accumulating) :
    ∃ sp₁, sp.addPoint generator point = .ok sp₁ ∧ sp₁.needsPoints = false := by
  rcases addSwitchPoint_snd hs point with h | ⟨sp₁, hadd, h | ⟨hneeds, h | h | h⟩⟩
  · rw [h, hs] at hexit
    exact (hexit rfl).elim
  · rw [h] at hexit
    exact (hexit rfl).elim
  · rw [h] at hexit
    exact (hexit rfl).elim
  · exact ⟨sp₁, hadd, hneeds⟩
  · exact ⟨sp₁, hadd, hneeds⟩

/-- A share that moves the switch on was accepted and left no share pending. -/
theorem addBivariateShare_leaves {bs : BivariateShares F G} (hs : sw.state = .merging bs) {x : F}
    {vs : VerifiableSecretShare F G}
    (hexit : (sw.addBivariateShare generator x vs).2.state.phase ≠ .merging) :
    ∃ bs₁, bs.addBivariateShare generator x vs = .ok (true, bs₁) := by
  rcases addBivariateShare_snd hs x vs with h | ⟨done, bs₁, hadd, h | ⟨hdone, h | ⟨sh, h⟩⟩⟩
  · rw [h, hs] at hexit
    exact (hexit rfl).elim
  · rw [h] at hexit
    exact (hexit rfl).elim
  · rw [h] at hexit
    exact (hexit rfl).elim
  · rw [← hdone]
    exact ⟨bs₁, hadd⟩

variable (generator) in
/-- What the protocol guarantees of the next call on a switch. -/
structure Guarantees (sw : DimensionSwitch F G) : Prop where
  /-- The call stays in its phase or moves along `Phase.Moves`. -/
  moves : ∀ c : Call F G, (sw.apply generator c).2.state.phase = sw.state.phase ∨
    Phase.Moves sw.state.phase (sw.apply generator c).2.state.phase
  /-- A call in another phase than its own fails with `InvalidState` and changes nothing. -/
  invalidState : ∀ c : Call F G, sw.state.phase ≠ c.phase →
    sw.apply generator c = (.error .invalidState, sw)
  /-- Accumulating is left only with all the points needed, of distinct x, each accepted by
  the verification vector that the matrix gives for `me`. -/
  accumulated : ∀ sp point, sw.state = .accumulating sp →
    (sw.addSwitchPoint generator point).2.state.phase ≠ .accumulating →
      (sp.points ++ [point]).length =
          (if sw.fullShare then 2 * sw.threshold.toNat + 1 else sw.threshold.toNat + 1) ∧
        ((sp.points ++ [point]).map (·.x)).Nodup ∧
        (∃ vm : VerificationMatrix G,
          vm.dimensions = (sw.threshold.toNat + 1, 2 * sw.threshold.toNat + 1) ∧
            sp.vv = if sw.fullShare then vm.verificationVectorForY sw.me
              else vm.verificationVectorForX sw.me) ∧
        ∀ q ∈ sp.points ++ [point], sp.vv.verify generator q.x q.y = true
  /-- Merging is left only with one share for `me` from each of the distinct shareholders,
  each verified with the switch's parameters. -/
  merged : ∀ bs x vs, sw.state = .merging bs →
    (sw.addBivariateShare generator x vs).2.state.phase ≠ .merging →
      sw.shareholders.Nodup ∧ ∃ accepted : List (F × VerifiableSecretShare F G),
        (accepted.map Prod.fst).Perm sw.shareholders ∧
          ∀ a ∈ accepted, a.2.share.x = sw.me ∧
            a.2.verify generator sw.threshold sw.zeroHole sw.fullShare = .ok ()
  /-- A point that the verification vector refuses changes nothing. -/
  pointRejected : ∀ sp point, sw.state = .accumulating sp →
    sp.vv.verify generator point.x point.y = false → (sw.addSwitchPoint generator point).2 = sw
  /-- A share that fails its verification changes nothing. -/
  shareRejected : ∀ bs x vs e, sw.state = .merging bs →
    vs.verify generator bs.threshold bs.zeroHole bs.fullShare = .error e →
      (sw.addBivariateShare generator x vs).2 = sw
  /-- A serving switch returns its shareholder and no call changes it. -/
  serving : ∀ sh, sw.state = .serving sh →
    sw.getShareholder = .ok sh ∧ ∀ c : Call F G, (sw.apply generator c).2 = sw

namespace Inv

theorem accumulated_of_leaves (hi : sw.Inv generator) {sp : SwitchPoints F G}
    (hs : sw.state = .accumulating sp) {point : Point F}
    (hexit : (sw.addSwitchPoint generator point).2.state.phase ≠ .accumulating) :
    (sp.points ++ [point]).length =
        (if sw.fullShare then 2 * sw.threshold.toNat + 1 else sw.threshold.toNat + 1) ∧
      ((sp.points ++ [point]).map (·.x)).Nodup ∧
      (∃ vm : VerificationMatrix G,
        vm.dimensions = (sw.threshold.toNat + 1, 2 * sw.threshold.toNat + 1) ∧
          sp.vv = if sw.fullShare then vm.verificationVectorForY sw.me
            else vm.verificationVectorForX sw.me) ∧
      ∀ q ∈ sp.points ++ [point], sp.vv.verify generator q.x q.y = true := by
  have hacc := hi.accumulated hs
  obtain ⟨sp₁, hadd, hneeds⟩ := addSwitchPoint_leaves hs hexit
  have hacc₁ := hacc.addPoint hadd
  obtain ⟨-, -, -, rfl⟩ := SwitchPoints.addPoint_eq_ok.mp hadd
  -- No point is needed any more, and at most the needed ones were taken.
  have hfull : ¬(sp.points ++ [point]).length < sp.n := by
    simpa [SwitchPoints.needsPoints] using hneeds
  have hle : (sp.points ++ [point]).length ≤ sp.n := hacc₁.length_le
  refine ⟨?_, hacc₁.nodup, hacc.vv_eq, hacc₁.verified⟩
  rw [← hacc.n_eq]
  omega

theorem merged_of_leaves (hi : sw.Inv generator) {bs : BivariateShares F G}
    (hs : sw.state = .merging bs) {x : F} {vs : VerifiableSecretShare F G}
    (hexit : (sw.addBivariateShare generator x vs).2.state.phase ≠ .merging) :
    ∃ accepted : List (F × VerifiableSecretShare F G),
      (accepted.map Prod.fst).Perm sw.shareholders ∧
        ∀ a ∈ accepted, a.2.share.x = sw.me ∧
          a.2.verify generator sw.threshold sw.zeroHole sw.fullShare = .ok () := by
  obtain ⟨bs₁, hadd⟩ := addBivariateShare_leaves hs hexit
  obtain ⟨accepted, hperm, hverified⟩ := ((hi.merged hs).addBivariateShare hadd).accepted
  -- The share was the last one pending.
  obtain ⟨-, -, -, -, -, hdone⟩ := BivariateShares.addBivariateShare_eq_ok hadd
  have hnil : bs₁.pendingShareholders = [] := List.isEmpty_iff.mp hdone.symm
  rw [hnil, List.append_nil] at hperm
  exact ⟨accepted, hperm, hverified⟩

/-- The invariant gives every guarantee of the protocol. -/
theorem guarantees (hi : sw.Inv generator) : sw.Guarantees generator where
  moves := phase_apply sw
  invalidState _ := apply_of_phase_ne
  accumulated _ _ hs hexit := hi.accumulated_of_leaves hs hexit
  merged _ _ _ hs hexit := ⟨hi.nodup, hi.merged_of_leaves hs hexit⟩
  pointRejected sp point hs hverify := by
    rcases addSwitchPoint_snd hs point with h | ⟨sp₁, hadd, -⟩
    · exact h
    · have := (SwitchPoints.addPoint_eq_ok.mp hadd).2.2.1
      simp [hverify] at this
  shareRejected bs x vs e hs hverify := by
    rcases addBivariateShare_snd hs x vs with h | ⟨done, bs₁, hadd, -⟩
    · exact h
    · have := (BivariateShares.addBivariateShare_eq_ok hadd).2.2.2.1
      simp [hverify] at this
  serving sh hs := by
    refine ⟨by simp [getShareholder, hs], fun c => ?_⟩
    by_cases hphase : sw.state.phase = c.phase
    · cases c <;> simp [hs, DimensionSwitchState.phase, Call.phase] at hphase
      rfl
    · rw [apply_of_phase_ne hphase]

end Inv

theorem protocolGuarantees_run (generator : G) (threshold : UInt8) (zeroHole fullShare : Bool)
    (me : F) {shareholders : List F} (hnodup : shareholders.Nodup) (calls : List (Call F G)) :
    ((DimensionSwitch.new threshold zeroHole fullShare me shareholders : DimensionSwitch F G).run
      generator calls).Guarantees generator :=
  ((Inv.new hnodup).run calls).guarantees

theorem protocolGuarantees_run_skipAccumulating :
    ([1, 2] : List ℚ).Nodup ∧
      ((DimensionSwitch.new 1 false true (3 : ℚ) [1, 2] : DimensionSwitch ℚ ℚ).run (1 : ℚ)
        [.skipAccumulating]).Guarantees (1 : ℚ) :=
  ⟨by norm_num, protocolGuarantees_run 1 1 false true 3 (by norm_num) [.skipAccumulating]⟩

end DimensionSwitch

end Churp

end SecretSharing

end OasisCore
