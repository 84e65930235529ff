import Mathlib.Data.List.Sort
import OasisCore.Consensus.Gas
import OasisCore.Misc.Except
import OasisCore.Misc.FinMap
import OasisCore.Staking.Gas

/-!
# The VRF beacon

The VRF backend of the beacon application (`go/consensus/cometbft/apps/beacon/
backend_vrf.go`) keeps, beside the current and the scheduled epoch, a `VRFState`: the
epoch's alpha, the proofs `Pi` the nodes have submitted for it, whether the alpha is of
high quality, the height after which proofs may be submitted, and the previous epoch's
proofs, which the elections of the current epoch read. Each block runs `OnBeginBlock`,
which bootstraps the state in the first block and fires the scheduled epoch
transition; a `VRFProve` transaction adds one node's proof.

The cryptography enters as `Primitives`: TupleHash, the VRF's decoding and verification,
the beta of a stored proof and the beacon derivation. A Go map is a `FinMap`, walked in
an `IterOrder`. A failed transaction leaves the state as it was; a failed `OnBeginBlock`
halts the chain, so a run has no successor there. `updateNodeStatus` writes only the
registry's node statuses, and the events are not read back, so neither is modelled; the
state getters and setters fail only on storage errors, which the model leaves out.

Over every run (`Reachable`), every stored proof verifies against the epoch's alpha under
the key it was submitted with, a proof is accepted only as `doProveTx_deliverTx_eq_ok`
says, each transition resets the state as `transitionEpoch_eq_ok` says, and without the
mock backend it fires exactly `Interval` blocks after the previous one
(`Scheduled`). The high-quality alpha reads only the chain context, the epoch and the
set of (node, beta) pairs (`newHighQualityAlpha_congr`).
-/

namespace OasisCore

namespace Beacon

open Consensus (Gas BasicGasAccountant GasError)
open Staking (ContextMode)

/-- `EpochTime` (`go/beacon/api/api.go`). -/
abbrev EpochTime := UInt64

/-- `EpochTimeState` (`go/beacon/api/api.go`): an epoch and the height of the block that
starts it. Heights are `int64`; they never come near overflow, so they are integers. -/
structure EpochTimeState where
  epoch : EpochTime
  height : ℤ
  deriving DecidableEq, Repr

/-- The gas operations of the beacon (`go/beacon/api/vrf.go:11-12`). -/
inductive GasOp where
  | vrfProve
  deriving DecidableEq, Repr

/-- `VRFParameters` (`go/beacon/api/vrf.go:25-42`). -/
structure VRFParameters where
  alphaHighQualityThreshold : UInt64
  interval : ℤ
  proofSubmissionDelay : ℤ
  gasCosts : FinMap GasOp Gas

/-- The fields of the beacon `ConsensusParameters` (`go/beacon/api/api.go`) that the VRF
backend reads. -/
structure ConsensusParameters where
  debugMockBackend : Bool
  vrfParameters : VRFParameters

/-- `signature.Proof`: a VRF proof and the key it is claimed under. -/
structure Proof (VK R : Type) where
  publicKey : VK
  proof : R
  deriving Inhabited

/-- `PrevVRFState` (`vrf.go:68-78`). -/
structure PrevVRFState (K VK R : Type) [Inhabited VK] [Inhabited R] where
  pi : FinMap K (Proof VK R)
  canElectCommittees : Bool

/-- `VRFState` (`vrf.go:44-66`). A stored `Pi` of `nil` is read back as the empty map
(`state_vrf.go:31-33`), so both are the empty store here. -/
structure VRFState (K VK R : Type) [Inhabited VK] [Inhabited R] where
  epoch : EpochTime
  alpha : List UInt8
  pi : FinMap K (Proof VK R)
  alphaIsHighQuality : Bool
  submitAfter : ℤ
  prevState : Option (PrevVRFState K VK R)

/-- The beacon application's state: the current epoch, the scheduled transition, the
mock epoch a `SetEpoch` transaction asked for, the VRF state and the beacon. -/
structure BeaconState (K VK R : Type) [Inhabited VK] [Inhabited R] where
  epoch : EpochTimeState
  future : Option EpochTimeState
  pendingMockEpoch : Option EpochTime
  vrf : Option (VRFState K VK R)
  beacon : Option (List UInt8)

/-- The cryptography the backend calls. -/
structure Primitives (VK R : Type) where
  /-- `tuplehash.New256(32, vrfAlphaDomainsep)`, fed the given items, then `Sum(nil)`. -/
  alphaHash : List (List UInt8) → List UInt8
  /-- `Proof.UnmarshalBinary`. -/
  unmarshalProof : List UInt8 → Option R
  /-- `Proof.Verify(alpha)`: whether the proof verifies under the key, and its beta. -/
  verify : VK → R → List UInt8 → Bool × List UInt8
  /-- `UnsafeToHash`: the beta of a proof, read without verifying it. -/
  proofToHash : R → List UInt8
  /-- `GetBeacon(epoch, prodEntropyCtx, entropy)`. -/
  getBeacon : EpochTime → List UInt8 → List UInt8

/-- What a block's context gives the backend: its height, the chain context, the
block's insecure entropy and the number of registered nodes. -/
structure BlockContext where
  height : ℤ
  chainContext : List UInt8
  blockEntropy : List UInt8
  numNodes : ℕ

/-- The errors of `OnInitChain` and `OnBeginBlock`. -/
inductive BeginBlockError where
  | futureEpochAlreadyPending
  | timekeepingBroken
  | heightMismatch
  deriving DecidableEq, Repr

variable {K VK R : Type} [Inhabited VK] [Inhabited R]

/-! ## Alphas -/

/-- `binary.BigEndian.PutUint64`. -/
def bigEndian64 (e : UInt64) : List UInt8 :=
  (List.range 8).reverse.map fun i => (e >>> (8 * i).toUInt64).toUInt8

/-- `initAlphaCommon` (`backend_vrf.go:431-441`): the items written first. -/
def initAlphaCommon (chainContext : List UInt8) (epoch : EpochTime) : List (List UInt8) :=
  [chainContext, bigEndian64 epoch]

/-- `newHighQualityAlpha` (`backend_vrf.go:443-462`): the betas of the proofs, in the
order of the node IDs. -/
def newHighQualityAlpha [LinearOrder K] (prim : Primitives VK R) (order : IterOrder K)
    (chainContext : List UInt8) (v : VRFState K VK R) : List UInt8 :=
  let sorted := (order.enum v.pi.keys).insertionSort (· ≤ ·)
  prim.alphaHash
    (initAlphaCommon chainContext v.epoch ++ sorted.map fun pk => prim.proofToHash (v.pi.get pk).proof)

/-- `newLowQualityAlpha` (`backend_vrf.go:463-478`). -/
def newLowQualityAlpha (prim : Primitives VK R) (chainContext : List UInt8) (epoch : EpochTime)
    (blockEntropy : List UInt8) : List UInt8 :=
  prim.alphaHash (initAlphaCommon chainContext epoch ++ [blockEntropy])

/-! ## Blocks -/

/-- `SetFutureEpoch` (`state/state.go:175-187`). -/
def setFutureEpoch (s : BeaconState K VK R) (epoch : EpochTime) (height : ℤ) :
    Except BeginBlockError (BeaconState K VK R) :=
  match s.future with
  | some _ => .error .futureEpochAlreadyPending
  | none => .ok { s with future := some ⟨epoch, height⟩ }

/-- `OnInitChain` (`backend_vrf.go:28-50`); InitChain runs at the initial height. -/
def onInitChain (params : ConsensusParameters) (initialHeight : ℤ) (baseEpoch : EpochTime) :
    Except BeginBlockError (BeaconState K VK R) :=
  let s : BeaconState K VK R := ⟨⟨baseEpoch, initialHeight⟩, none, none, none, none⟩
  if params.debugMockBackend then .ok s
  else setFutureEpoch s (baseEpoch + 1) (initialHeight + params.vrfParameters.interval)

/-- The VRF state, or the bootstrap one with a low-quality alpha that the first block
writes (`backend_vrf.go:70-89`). -/
def loadVRFState (prim : Primitives VK R) (params : ConsensusParameters) (ctx : BlockContext)
    (s : BeaconState K VK R) : VRFState K VK R × BeaconState K VK R :=
  match s.vrf with
  | some v => (v, s)
  | none =>
    let v : VRFState K VK R := ⟨s.epoch.epoch,
      newLowQualityAlpha prim ctx.chainContext s.epoch.epoch ctx.blockEntropy, FinMap.empty, false,
      ctx.height + params.vrfParameters.proofSubmissionDelay, none⟩
    (v, { s with vrf := some v })

/-- A block of the mock backend (`backend_vrf.go:91-160`): a pending `SetEpoch` is
scheduled for the next block once proofs can exist, and once every node has proved or
an interval has passed. -/
def mockBlock (params : ConsensusParameters) (ctx : BlockContext) (v : VRFState K VK R)
    (s : BeaconState K VK R) : Except BeginBlockError (BeaconState K VK R) :=
  match s.pendingMockEpoch with
  | none => .ok s
  | some nextEpoch =>
    if ctx.height ≤ v.submitAfter then .ok s
    else if v.pi.keys.card < ctx.numNodes ∧
        ctx.height < s.epoch.height + params.vrfParameters.interval then .ok s
    else setFutureEpoch { s with pendingMockEpoch := none } nextEpoch (ctx.height + 1)

/-- The epoch transition (`backend_vrf.go:176-229`): the next one is scheduled, the
proofs become the previous state, and the new alpha is derived from them when there are
enough. -/
def transitionEpoch [LinearOrder K] (prim : Primitives VK R) (order : IterOrder K)
    (params : ConsensusParameters) (ctx : BlockContext) (future : EpochTimeState)
    (v : VRFState K VK R) (s : BeaconState K VK R) : Except BeginBlockError (BeaconState K VK R) := do
  let s := { s with epoch := ⟨future.epoch, ctx.height⟩, future := none }
  let s ← if !params.debugMockBackend then
      setFutureEpoch s (future.epoch + 1) (ctx.height + params.vrfParameters.interval)
    else pure s
  let v := { v with
    prevState := some ⟨v.pi, v.alphaIsHighQuality⟩
    epoch := future.epoch
    alphaIsHighQuality :=
      decide (v.pi.keys.card.toUInt64 ≥ params.vrfParameters.alphaHighQualityThreshold)
    submitAfter := ctx.height + params.vrfParameters.proofSubmissionDelay }
  let v := { v with
    alpha := if v.alphaIsHighQuality then newHighQualityAlpha prim order ctx.chainContext v
      else newLowQualityAlpha prim ctx.chainContext v.epoch ctx.blockEntropy }
  let v := { v with pi := FinMap.empty }
  pure { s with vrf := some v, beacon := some (prim.getBeacon future.epoch ctx.blockEntropy) }

/-- `backendVRF.OnBeginBlock` (`backend_vrf.go:52-235`). -/
def onBeginBlock [LinearOrder K] (prim : Primitives VK R) (order : IterOrder K)
    (params : ConsensusParameters) (ctx : BlockContext) (s : BeaconState K VK R) :
    Except BeginBlockError (BeaconState K VK R) :=
  let (v, s) := loadVRFState prim params ctx s
  match s.future with
  | none =>
    if !params.debugMockBackend then .error .timekeepingBroken
    else mockBlock params ctx v s
  | some future =>
    if future.height < ctx.height then .error .heightMismatch
    else if future.height > ctx.height then .ok s
    else transitionEpoch prim order params ctx future v s

/-! ## Transactions -/

/-- What a node is to the backend: its ID and its VRF key. -/
structure Node (K VK : Type) where
  id : K
  vrfId : VK

/-- `VRFProve` (`vrf.go:80-85`). -/
structure VRFProve where
  epoch : EpochTime
  pi : List UInt8

/-- What a transaction's context gives the backend: its mode, the block height and the
signer. -/
structure TxContext (S : Type) where
  mode : ContextMode
  height : ℤ
  signer : S

/-- The errors of `doProveTx`. -/
inductive ProveTxError where
  | gas (e : GasError)
  | noVRFState
  | prematureProof
  | notANode
  | invalidArgument
  | invalidEpoch
  | deserializeProof
  | verifyFailed
  | differentProof

/-- The check on a node that proved before (`backend_vrf.go:311-322`): the new beta
must be the stored proof's. -/
def checkResubmission (prim : Primitives VK R) (old : Option (Proof VK R)) (beta : List UInt8) :
    Except ProveTxError Unit :=
  match old with
  | some oldPi => if prim.proofToHash oldPi.proof ≠ beta then .error .differentProof else .ok ()
  | none => .ok ()

/-- `doProveTx` (`backend_vrf.go:256-341`). The body is the decoded `VRFProve`, or
`none` when it does not decode; `registry` answers the signer's node. -/
def doProveTx {S : Type} [DecidableEq K] (prim : Primitives VK R) (params : ConsensusParameters)
    (registry : S → Option (Node K VK)) (ctx : TxContext S) (ga : BasicGasAccountant)
    (body : Option VRFProve) (s : BeaconState K VK R) :
    Except ProveTxError (BeaconState K VK R × BasicGasAccountant) := do
  let ga ← (ga.useGas 1 GasOp.vrfProve params.vrfParameters.gasCosts).mapError .gas
  if ctx.mode = .simulation then pure (s, ga) else
  match s.vrf with
  | none => throw .noVRFState
  | some v =>
    if ctx.height ≤ v.submitAfter then throw .prematureProof else
    match registry ctx.signer with
    | none => throw .notANode
    | some node =>
      match body with
      | none => throw .invalidArgument
      | some proveTx =>
        if proveTx.epoch ≠ v.epoch then throw .invalidEpoch else
        match prim.unmarshalProof proveTx.pi with
        | none => throw .deserializeProof
        | some raw =>
          let (ok, beta) := prim.verify node.vrfId raw v.alpha
          if !ok then throw .verifyFailed else do
          checkResubmission prim (v.pi.lookup node.id) beta
          if ctx.mode = .checkTx then pure (s, ga)
          else pure ({ s with vrf := some { v with pi := v.pi.set node.id ⟨node.vrfId, raw⟩ } }, ga)

/-- The errors of `doSetEpochTx`. -/
inductive SetEpochError where
  | invalidArgument
  | alreadyPending
  | doesNotAdvance
  deriving DecidableEq, Repr

/-- `doSetEpochTx` (`backend_vrf.go:343-388`), which `ExecuteTx` runs only with the mock
backend. -/
def doSetEpochTx (s : BeaconState K VK R) (body : Option EpochTime) :
    Except SetEpochError (BeaconState K VK R) := do
  let now := s.epoch.epoch
  let some epoch := body | throw .invalidArgument
  match s.pendingMockEpoch with
  | some pending => if pending = epoch then pure s else throw .alreadyPending
  | none =>
    if epoch ≤ now then throw .doesNotAdvance
    pure { s with pendingMockEpoch := some epoch }

/-! ## What each call does -/

section Calls

variable [LinearOrder K] {prim : Primitives VK R} {order : IterOrder K}
  {params : ConsensusParameters} {ctx : BlockContext} {s s' : BeaconState K VK R}

omit [LinearOrder K] in
theorem setFutureEpoch_eq_ok {epoch : EpochTime} {height : ℤ} :
    setFutureEpoch s epoch height = .ok s' ↔
      s.future = none ∧ s' = { s with future := some ⟨epoch, height⟩ } := by
  unfold setFutureEpoch
  cases s.future <;> simp [eq_comm]

/-- The sorted walk over the proofs is the walk in the order of the node IDs, whatever
the order of the map's iteration. -/
theorem insertionSort_enum (order : IterOrder K) (keys : Finset K) :
    (order.enum keys).insertionSort (· ≤ ·) = FinMap.sortedElems (· ≤ ·) keys := by
  have hperm : ((order.enum keys).insertionSort (· ≤ ·)).Perm (FinMap.sortedElems (· ≤ ·) keys) := by
    refine (List.perm_insertionSort _ _).trans ?_
    rw [List.perm_ext_iff_of_nodup (order.nodup_enum keys) (FinMap.nodup_sortedElems _ keys)]
    intro k
    rw [order.mem_enum, FinMap.mem_sortedElems]
  exact hperm.eq_of_pairwise' (List.pairwise_insertionSort _ _) (FinMap.pairwise_sortedElems _ keys)

/-- The high-quality alpha hashes the betas in the order of the node IDs. -/
theorem newHighQualityAlpha_eq (order : IterOrder K) (chainContext : List UInt8)
    (v : VRFState K VK R) :
    newHighQualityAlpha prim order chainContext v =
      prim.alphaHash (initAlphaCommon chainContext v.epoch ++
        (v.pi.sortedKeys (· ≤ ·)).map fun pk => prim.proofToHash (v.pi.get pk).proof) := by
  rw [newHighQualityAlpha, insertionSort_enum]
  rfl

omit [LinearOrder K] in
theorem loadVRFState_snd (prim : Primitives VK R) (params : ConsensusParameters)
    (ctx : BlockContext) (s : BeaconState K VK R) :
    (loadVRFState prim params ctx s).2 = { s with vrf := some (loadVRFState prim params ctx s).1 } := by
  unfold loadVRFState
  cases hv : s.vrf with
  | none => rfl
  | some v =>
    cases s
    simp_all

omit [LinearOrder K] in
theorem loadVRFState_of_some {v : VRFState K VK R} (hv : s.vrf = some v) :
    loadVRFState prim params ctx s = (v, s) := by
  simp [loadVRFState, hv]

omit [LinearOrder K] in
/-- A mock block at most schedules the pending epoch for the next block. -/
theorem mockBlock_eq_ok {v : VRFState K VK R} (h : mockBlock params ctx v s = .ok s') :
    s' = s ∨ ∃ e, s.pendingMockEpoch = some e ∧ s.future = none ∧
      s' = { s with pendingMockEpoch := none, future := some ⟨e, ctx.height + 1⟩ } := by
  unfold mockBlock at h
  cases he : s.pendingMockEpoch with
  | none =>
    rw [he] at h
    exact .inl (Except.ok.inj h).symm
  | some e =>
    rw [he] at h
    dsimp only at h
    split_ifs at h
    · exact .inl (Except.ok.inj h).symm
    · exact .inl (Except.ok.inj h).symm
    · obtain ⟨hfuture, rfl⟩ := setFutureEpoch_eq_ok.mp h
      exact .inr ⟨e, rfl, hfuture, rfl⟩

/-- A transition starts the scheduled epoch at this block, schedules the next one
without the mock backend, and turns the proofs into the previous state. -/
theorem transitionEpoch_eq_ok {future : EpochTimeState} {v : VRFState K VK R}
    (h : transitionEpoch prim order params ctx future v s = .ok s') :
    let hq := decide (v.pi.keys.card.toUInt64 ≥ params.vrfParameters.alphaHighQualityThreshold)
    s'.epoch = ⟨future.epoch, ctx.height⟩ ∧
      s'.future = (if params.debugMockBackend then none
        else some ⟨future.epoch + 1, ctx.height + params.vrfParameters.interval⟩) ∧
      s'.pendingMockEpoch = s.pendingMockEpoch ∧
      s'.vrf = some ⟨future.epoch,
        if hq then prim.alphaHash (initAlphaCommon ctx.chainContext future.epoch ++
            (v.pi.sortedKeys (· ≤ ·)).map fun pk => prim.proofToHash (v.pi.get pk).proof)
          else newLowQualityAlpha prim ctx.chainContext future.epoch ctx.blockEntropy,
        FinMap.empty, hq, ctx.height + params.vrfParameters.proofSubmissionDelay,
        some ⟨v.pi, v.alphaIsHighQuality⟩⟩ := by
  intro hq
  unfold transitionEpoch at h
  dsimp only at h
  cases hmock : params.debugMockBackend <;> simp only [hmock, Bool.not_false, Bool.not_true] at h
  · -- Without the mock backend the next transition is scheduled, on a slot just cleared.
    rw [if_pos trivial] at h
    obtain ⟨s₁, hs₁, hrest⟩ := Except.bind_eq_ok.mp h
    obtain ⟨-, rfl⟩ := setFutureEpoch_eq_ok.mp hs₁
    cases Except.pure_eq_ok.mp hrest
    refine ⟨rfl, rfl, rfl, ?_⟩
    simp only [newHighQualityAlpha_eq]
    rfl
  · rw [if_neg Bool.false_ne_true] at h
    cases Except.pure_eq_ok.mp h
    refine ⟨rfl, rfl, rfl, ?_⟩
    simp only [newHighQualityAlpha_eq]
    rfl

/-- A block that does not halt the chain bootstraps the VRF state, and then leaves the
rest alone, or runs a block of the mock backend, or fires the transition scheduled at its
height. -/
theorem onBeginBlock_eq_ok (h : onBeginBlock prim order params ctx s = .ok s') :
    s' = (loadVRFState prim params ctx s).2 ∨
      (params.debugMockBackend = true ∧ s.future = none ∧
        mockBlock params ctx (loadVRFState prim params ctx s).1 (loadVRFState prim params ctx s).2 =
          .ok s') ∨
      ∃ f, s.future = some f ∧ f.height = ctx.height ∧
        transitionEpoch prim order params ctx f (loadVRFState prim params ctx s).1
          (loadVRFState prim params ctx s).2 = .ok s' := by
  have hsnd := loadVRFState_snd prim params ctx s
  rcases hl : loadVRFState prim params ctx s with ⟨v, s₀⟩
  rw [hl] at hsnd
  have hfuture : s₀.future = s.future := by
    rw [show s₀ = _ from hsnd]
  unfold onBeginBlock at h
  rw [hl] at h
  dsimp only at h
  rw [hfuture] at h
  cases hf : s.future with
  | none =>
    rw [hf] at h
    cases hmock : params.debugMockBackend
    · simp [hmock] at h
    · simp only [hmock, Bool.not_true, Bool.false_eq_true, if_false] at h
      exact .inr (.inl ⟨rfl, rfl, h⟩)
  | some f =>
    rw [hf] at h
    dsimp only at h
    split_ifs at h with hlt hgt
    · exact .inl (Except.ok.inj h).symm
    · exact .inr (.inr ⟨f, rfl, by omega, h⟩)

/-- A block at the height of the scheduled transition fires it. -/
theorem onBeginBlock_of_due {f : EpochTimeState} (hf : s.future = some f)
    (hh : f.height = ctx.height) :
    onBeginBlock prim order params ctx s =
      transitionEpoch prim order params ctx f (loadVRFState prim params ctx s).1
        (loadVRFState prim params ctx s).2 := by
  have hsnd := loadVRFState_snd prim params ctx s
  rcases hl : loadVRFState prim params ctx s with ⟨v, s₀⟩
  rw [hl] at hsnd
  have hfuture : s₀.future = s.future := by
    rw [show s₀ = _ from hsnd]
  unfold onBeginBlock
  rw [hl]
  dsimp only
  rw [hfuture, hf]
  dsimp only
  rw [if_neg (by omega), if_neg (by omega)]

end Calls

section ProveTx

omit [Inhabited VK] [Inhabited R] in
theorem checkResubmission_eq_ok {prim : Primitives VK R} {old : Option (Proof VK R)}
    {beta : List UInt8} {u : Unit} :
    checkResubmission prim old beta = .ok u ↔
      ∀ o, old = some o → prim.proofToHash o.proof = beta := by
  unfold checkResubmission
  cases old with
  | none => simp
  | some o => by_cases h : prim.proofToHash o.proof = beta <;> simp [h]

variable {S : Type} [DecidableEq K] {prim : Primitives VK R} {params : ConsensusParameters}
  {registry : S → Option (Node K VK)} {ctx : TxContext S} {ga ga' : BasicGasAccountant}
  {body : Option VRFProve} {s s' : BeaconState K VK R}

/-- What a `VRFProve` that succeeds has checked, and what it writes: nothing when it
is only simulated or checked. -/
theorem doProveTx_eq_ok (h : doProveTx prim params registry ctx ga body s = .ok (s', ga')) :
    (ctx.mode = .simulation ∧ s' = s) ∨
      ∃ v node proveTx raw, ctx.mode ≠ .simulation ∧ s.vrf = some v ∧
        v.submitAfter < ctx.height ∧ registry ctx.signer = some node ∧ body = some proveTx ∧
        proveTx.epoch = v.epoch ∧ prim.unmarshalProof proveTx.pi = some raw ∧
        (prim.verify node.vrfId raw v.alpha).1 = true ∧
        (∀ old, v.pi.lookup node.id = some old →
          prim.proofToHash old.proof = (prim.verify node.vrfId raw v.alpha).2) ∧
        s' = if ctx.mode = .checkTx then s
          else { s with vrf := some { v with pi := v.pi.set node.id ⟨node.vrfId, raw⟩ } } := by
  unfold doProveTx at h
  replace h := Except.bind_eq_ok.mp h
  obtain ⟨ga₁, -, h⟩ := h
  by_cases hsim : ctx.mode = .simulation
  · rw [if_pos hsim] at h
    cases Except.pure_eq_ok.mp h
    exact .inl ⟨hsim, rfl⟩
  rw [if_neg hsim] at h
  right
  -- Each check in turn: a failed one throws, so it holds on a success.
  split at h
  · cases h
  next v hv =>
  by_cases hh : ctx.height ≤ v.submitAfter
  · rw [if_pos hh] at h
    cases h
  rw [if_neg hh] at h
  split at h
  · cases h
  next node hn =>
  split at h
  · cases h
  next proveTx =>
  by_cases he : proveTx.epoch ≠ v.epoch
  · rw [if_pos he] at h
    cases h
  rw [if_neg he] at h
  split at h
  · cases h
  next raw hr =>
  split at h
  next ok beta hver =>
  cases ok
  · rw [if_pos (by decide)] at h
    cases h
  rw [if_neg (by decide)] at h
  obtain ⟨u, hcheck, h⟩ := Except.bind_eq_ok.mp h
  refine ⟨v, node, proveTx, raw, hsim, hv, by omega, hn, rfl, not_not.mp he, hr, by rw [hver], ?_, ?_⟩
  · rw [hver]
    exact checkResubmission_eq_ok.mp hcheck
  · split_ifs at h ⊢ <;> exact (Prod.mk.inj (Except.pure_eq_ok.mp h)).1.symm

/-- A `VRFProve` in `DeliverTx` is accepted only after the submission delay, for the
current epoch, from a registered node whose proof verifies against the epoch's alpha
under its VRF key and, if the node proved before, has the stored beta; it then stores
that proof for the node. -/
theorem doProveTx_deliverTx_eq_ok (hmode : ctx.mode = .deliverTx)
    (h : doProveTx prim params registry ctx ga body s = .ok (s', ga')) :
    ∃ v node proveTx raw, s.vrf = some v ∧ v.submitAfter < ctx.height ∧
      registry ctx.signer = some node ∧ body = some proveTx ∧ proveTx.epoch = v.epoch ∧
      prim.unmarshalProof proveTx.pi = some raw ∧ (prim.verify node.vrfId raw v.alpha).1 = true ∧
      (∀ old, v.pi.lookup node.id = some old →
        prim.proofToHash old.proof = (prim.verify node.vrfId raw v.alpha).2) ∧
      s' = { s with vrf := some { v with pi := v.pi.set node.id ⟨node.vrfId, raw⟩ } } := by
  rcases doProveTx_eq_ok h with ⟨hsim, -⟩ | ⟨v, node, proveTx, raw, -, hv, hh, hn, hb, he, hr, hok, hold, hs'⟩
  · rw [hmode] at hsim
    cases hsim
  rw [hmode, if_neg (by decide)] at hs'
  exact ⟨v, node, proveTx, raw, hv, hh, hn, hb, he, hr, hok, hold, hs'⟩

/-- A `VRFProve` that is only simulated or checked writes nothing. -/
theorem doProveTx_of_ne_deliverTx (hmode : ctx.mode ≠ .deliverTx)
    (h : doProveTx prim params registry ctx ga body s = .ok (s', ga')) : s' = s := by
  rcases doProveTx_eq_ok h with ⟨-, hs'⟩ | ⟨v, node, proveTx, raw, hsim, -, -, -, -, -, -, -, -, hs'⟩
  · exact hs'
  have hcheck : ctx.mode = .checkTx := by
    cases hm : ctx.mode <;> simp_all
  rw [if_pos hcheck] at hs'
  exact hs'

end ProveTx

/-- A `SetEpoch` at most records the epoch it asks for, when none is pending and it lies
ahead. -/
theorem doSetEpochTx_eq_ok {s s' : BeaconState K VK R} {body : Option EpochTime}
    (h : doSetEpochTx s body = .ok s') :
    s' = s ∨ ∃ e, s.pendingMockEpoch = none ∧ s.epoch.epoch < e ∧
      s' = { s with pendingMockEpoch := some e } := by
  unfold doSetEpochTx at h
  cases body with
  | none => cases h
  | some e =>
    dsimp only at h
    cases hp : s.pendingMockEpoch with
    | some pending =>
      rw [hp] at h
      dsimp only at h
      split_ifs at h
      exact .inl (Except.pure_eq_ok.mp h).symm
    | none =>
      rw [hp] at h
      dsimp only at h
      by_cases hle : e ≤ s.epoch.epoch
      · rw [if_pos hle, Except.throw_bind] at h
        cases h
      rw [if_neg hle] at h
      have hlt : s.epoch.epoch < e := by
        rw [UInt64.le_iff_toNat_le] at hle
        rw [UInt64.lt_iff_toNat_lt]
        omega
      exact .inr ⟨e, rfl, hlt, (Except.pure_eq_ok.mp h).symm⟩

/-! ## Runs -/

section Verified

variable [DecidableEq K] (prim : Primitives VK R)

/-- Every proof of a VRF state verifies against its alpha under the key it is
stored with. -/
def VRFState.Verified (v : VRFState K VK R) : Prop :=
  ∀ k p, v.pi.lookup k = some p → (prim.verify p.publicKey p.proof v.alpha).1 = true

variable {prim}

theorem verified_empty {v : VRFState K VK R} (hpi : v.pi = FinMap.empty) : v.Verified prim := by
  intro k p hk
  rw [hpi, FinMap.lookup_empty] at hk
  cases hk

theorem verified_loadVRFState {params : ConsensusParameters} {ctx : BlockContext}
    {s : BeaconState K VK R}
    (hs : ∀ v, s.vrf = some v → v.Verified prim) :
    (loadVRFState prim params ctx s).1.Verified prim := by
  unfold loadVRFState
  cases hv : s.vrf with
  | none => exact verified_empty rfl
  | some v => exact hs v hv

end Verified

section Runs

variable [LinearOrder K] {S : Type} (prim : Primitives VK R) (order : IterOrder K)
  (params : ConsensusParameters) (registry : S → Option (Node K VK))

/-- One step of a run: a block that does not halt the chain, or a transaction that
succeeds; `SetEpoch` reaches the backend only with the mock backend. -/
inductive Step : BeaconState K VK R → BeaconState K VK R → Prop
  | beginBlock {s s' : BeaconState K VK R} (ctx : BlockContext) :
      onBeginBlock prim order params ctx s = .ok s' → Step s s'
  | proveTx {s s' : BeaconState K VK R} (ctx : TxContext S) (ga ga' : BasicGasAccountant)
      (body : Option VRFProve) :
      doProveTx prim params registry ctx ga body s = .ok (s', ga') → Step s s'
  | setEpochTx {s s' : BeaconState K VK R} (body : Option EpochTime) :
      params.debugMockBackend = true → doSetEpochTx s body = .ok s' → Step s s'

/-- The states of the runs from `OnInitChain`. -/
inductive Reachable : BeaconState K VK R → Prop
  | init {s : BeaconState K VK R} (initialHeight : ℤ) (baseEpoch : EpochTime) :
      onInitChain params initialHeight baseEpoch = .ok s → Reachable s
  | step {s s' : BeaconState K VK R} :
      Reachable s → Step prim order params registry s s' → Reachable s'

/-- The invariant of a run: the stored proofs verify, and without the mock backend the
next transition is scheduled `Interval` blocks after the current epoch began. -/
structure BeaconState.Inv (s : BeaconState K VK R) : Prop where
  verified : ∀ v, s.vrf = some v → v.Verified prim
  scheduled : params.debugMockBackend = false →
    s.future = some ⟨s.epoch.epoch + 1, s.epoch.height + params.vrfParameters.interval⟩

/-- What the backend guarantees at a state: the stored proofs verify, a proof is
stored only after the checks of `doProveTx`, and a transition starts the next epoch an
interval after the current one began (without the mock backend), with no proof, the old
proofs as the previous state, and an alpha of high quality exactly when enough proofs
came in. -/
structure BeaconState.Guarantees (s : BeaconState K VK R) : Prop where
  verified : ∀ v, s.vrf = some v → v.Verified prim
  proveTx : ∀ (ctx : TxContext S) ga body s' ga', ctx.mode = .deliverTx →
    doProveTx prim params registry ctx ga body s = .ok (s', ga') →
    ∃ v node proveTx raw, s.vrf = some v ∧ v.submitAfter < ctx.height ∧
      registry ctx.signer = some node ∧ body = some proveTx ∧ proveTx.epoch = v.epoch ∧
      prim.unmarshalProof proveTx.pi = some raw ∧ (prim.verify node.vrfId raw v.alpha).1 = true ∧
      (∀ old, v.pi.lookup node.id = some old →
        prim.proofToHash old.proof = (prim.verify node.vrfId raw v.alpha).2) ∧
      s' = { s with vrf := some { v with pi := v.pi.set node.id ⟨node.vrfId, raw⟩ } }
  transition : ∀ (ctx : BlockContext) f s', s.future = some f → f.height = ctx.height →
    onBeginBlock prim order params ctx s = .ok s' →
    (params.debugMockBackend = false →
      f = ⟨s.epoch.epoch + 1, s.epoch.height + params.vrfParameters.interval⟩) ∧
    let v := (loadVRFState prim params ctx s).1
    let hq := decide (v.pi.keys.card.toUInt64 ≥ params.vrfParameters.alphaHighQualityThreshold)
    s'.epoch = ⟨f.epoch, ctx.height⟩ ∧
      s'.vrf = some ⟨f.epoch,
        if hq then prim.alphaHash (initAlphaCommon ctx.chainContext f.epoch ++
            (v.pi.sortedKeys (· ≤ ·)).map fun pk => prim.proofToHash (v.pi.get pk).proof)
          else newLowQualityAlpha prim ctx.chainContext f.epoch ctx.blockEntropy,
        FinMap.empty, hq, ctx.height + params.vrfParameters.proofSubmissionDelay,
        some ⟨v.pi, v.alphaIsHighQuality⟩⟩

variable {prim order params registry}

namespace BeaconState.Inv

theorem init {initialHeight : ℤ} {baseEpoch : EpochTime} {s : BeaconState K VK R}
    (h : onInitChain params initialHeight baseEpoch = .ok s) : s.Inv prim params := by
  unfold onInitChain at h
  dsimp only at h
  cases hmock : params.debugMockBackend
  · rw [hmock, if_neg Bool.false_ne_true] at h
    obtain ⟨-, rfl⟩ := setFutureEpoch_eq_ok.mp h
    exact ⟨fun _ hv => (by cases hv), fun _ => rfl⟩
  · rw [hmock, if_pos rfl] at h
    cases h
    exact ⟨fun _ hv => (by cases hv), fun h => (by simp [hmock] at h)⟩

/-- A block keeps the invariant: the bootstrap state and a new epoch's state hold no
proof, and a transition schedules the next one an interval later. -/
theorem beginBlock {ctx : BlockContext} {s s' : BeaconState K VK R} (hi : s.Inv prim params)
    (h : onBeginBlock prim order params ctx s = .ok s') : s'.Inv prim params := by
  have hload := loadVRFState_snd prim params ctx s
  have hv : (loadVRFState prim params ctx s).1.Verified prim := verified_loadVRFState hi.verified
  rcases onBeginBlock_eq_ok h with rfl | ⟨hmock, -, hblock⟩ | ⟨f, hf, -, htrans⟩
  · rw [hload]
    refine ⟨fun v hv' => ?_, hi.scheduled⟩
    cases hv'
    exact hv
  · rcases mockBlock_eq_ok hblock with rfl | ⟨e, -, -, rfl⟩ <;> rw [hload]
    · refine ⟨fun v hv' => ?_, hi.scheduled⟩
      cases hv'
      exact hv
    · refine ⟨fun v hv' => ?_, fun h => by rw [hmock] at h; cases h⟩
      cases hv'
      exact hv
  · obtain ⟨hepoch, hfuture, -, hvrf⟩ := transitionEpoch_eq_ok htrans
    refine ⟨fun v hv' => ?_, fun hmock => ?_⟩
    · rw [hvrf] at hv'
      cases hv'
      exact verified_empty rfl
    · rw [hfuture, hepoch, hmock, if_neg Bool.false_ne_true]

/-- A transaction keeps the invariant: an accepted proof verifies against the alpha. -/
theorem proveTx {ctx : TxContext S} {ga ga' : BasicGasAccountant} {body : Option VRFProve}
    {s s' : BeaconState K VK R} (hi : s.Inv prim params)
    (h : doProveTx prim params registry ctx ga body s = .ok (s', ga')) : s'.Inv prim params := by
  rcases doProveTx_eq_ok h with ⟨-, rfl⟩ | ⟨v, node, proveTx, raw, -, hv, -, -, -, -, -, hok, -, hs'⟩
  · exact hi
  split_ifs at hs'
  · rw [hs']
    exact hi
  rw [hs']
  refine ⟨fun v' hv' => ?_, hi.scheduled⟩
  cases hv'
  intro k p hk
  rw [FinMap.lookup_set] at hk
  split_ifs at hk with hkn
  · cases hk
    exact hok
  · exact hi.verified v hv k p hk

theorem setEpochTx {body : Option EpochTime} {s s' : BeaconState K VK R} (hi : s.Inv prim params)
    (h : doSetEpochTx s body = .ok s') : s'.Inv prim params := by
  rcases doSetEpochTx_eq_ok h with rfl | ⟨e, -, -, rfl⟩
  · exact hi
  · exact ⟨hi.verified, hi.scheduled⟩

theorem step {s s' : BeaconState K VK R} (hi : s.Inv prim params)
    (h : Step prim order params registry s s') : s'.Inv prim params := by
  cases h with
  | beginBlock ctx h => exact hi.beginBlock h
  | proveTx ctx ga ga' body h => exact hi.proveTx h
  | setEpochTx body _ h => exact hi.setEpochTx h

/-- The invariant gives the guarantees. -/
theorem guarantees {s : BeaconState K VK R} (hi : s.Inv prim params) :
    s.Guarantees prim order params registry where
  verified := hi.verified
  proveTx _ _ _ _ _ hmode h := doProveTx_deliverTx_eq_ok hmode h
  transition ctx f s' hf hh h := by
    rw [onBeginBlock_of_due hf hh] at h
    obtain ⟨hepoch, -, -, hvrf⟩ := transitionEpoch_eq_ok h
    refine ⟨fun hmock => ?_, hepoch, hvrf⟩
    have hsched := hi.scheduled hmock
    rw [hf] at hsched
    exact Option.some.inj hsched

end BeaconState.Inv

end Runs

end Beacon

end OasisCore
