import OasisCore.Beacon.Vrf
import OasisCore.Misc.Bytes
import OasisCore.Scheduler.Validators
import OasisCore.Staking.State

/-!
# Validator elections

`electValidators` (`go/consensus/cometbft/apps/scheduler/scheduler.go:513-631`) elects the
validators of the next epoch. It keeps the nodes with the validator role whose entity's
stake claims hold, and orders their entities by descending escrow balance, ties broken by
a shuffle under the epoch's entropy (`stakingAddressMapToSliceByStake`). It shuffles the
nodes (`shuffleValidators`, `shuffle.go:30-114`): by the hashed VRF betas of the previous
epoch's proofs when the VRF backend has at least `MinValidators` of them, else by the
entropy. It groups the shuffled nodes by entity, and the loop `electLoop` walks the
entities in order, taking up to `MaxValidatorsPerEntity` nodes of each, until
`MaxValidators` are elected. The pending set is keyed by the nodes' consensus keys.

Every successful election has between `MinValidators` and `MaxValidators` validators, at
most `MaxValidatorsPerEntity` of one entity, and each with the power `electedVotingPower`
gives its entity's escrow (`electValidators_spec`); so it is an election step of the
validator-set run of `Validators` (`electValidators_validatorStep`). The elected entities
are those of a prefix of the sorted entities that have a node in the shuffled list. Under
the VRF backend a node without a proof is not in that list, and its entity can be passed
over for one with less escrow.

The HMAC-DRBG behind `initRNG`, TupleHash and the beta of a VRF proof are parameters, and
a generator is the permutation it draws (`Rng`). The state getters fail only on storage
errors, which the model leaves out; the log lines are not modelled.
-/

namespace OasisCore

namespace Scheduler

open Beacon (PrevVRFState Proof EpochTime bigEndian64)
open Bytes (copyInto)

/-! ## Nodes, parameters and primitives -/

/-- `RolesMask` (`go/common/node/node.go:175`). -/
abbrev RolesMask := UInt32

/-- `RoleValidator` (`node.go:186-187`). -/
def roleValidator : RolesMask := (1 : UInt32) <<< 3

/-- The fields of `node.Node` (`node.go:59-114`) that the election reads: its ID, its
entity's, the ID of its consensus key and its roles. -/
structure Node (K : Type) where
  id : K
  entityId : K
  consensusId : K
  roles : RolesMask
  deriving DecidableEq, Repr

/-- `Node.HasRoles` (`node.go:375-377`). -/
def Node.hasRoles {K : Type} (n : Node K) (r : RolesMask) : Bool :=
  n.roles &&& r != 0

/-- `BackendInsecure` and `BackendVRF` (`go/beacon/api/api.go:25-29`), the values of the
beacon's `Backend` parameter. -/
inductive BeaconBackend where
  | insecure
  | vrf
  deriving DecidableEq, Repr

/-- The fields of the scheduler's `ConsensusParameters` (`go/scheduler/api/api.go:386-420`)
that the validator election reads; the counts are Go `int`s. -/
structure ConsensusParameters where
  minValidators : ℤ
  maxValidators : ℤ
  maxValidatorsPerEntity : ℤ
  debugBypassStake : Bool
  votingPowerDistribution : VotingPowerDistribution

/-- `scheduler.Validator` (`api.go:335-345`) as the election writes it. `Validator` keeps
only the voting power, the one field the validator updates read. -/
structure ElectedValidator (K : Type) where
  id : K
  entityId : K
  votingPower : ℤ
  deriving DecidableEq, Repr, Inhabited

/-- The validator of a pending set as the validator updates read it. -/
def ElectedValidator.toValidator {K : Type} (v : ElectedValidator K) : Validator :=
  ⟨v.votingPower⟩

/-- A generator `rand.Rand` over the DRBG, as the election draws from it: each generator
serves one call, `Perm(n)` in `shuffleNodes` or `Shuffle(n, swap)` in `shuffleAddresses`,
and `perm n` is the permutation of `0, …, n - 1` that call yields. -/
structure Rng where
  perm : ℕ → List ℕ
  perm_range : ∀ n, (perm n).Perm (List.range n)

/-- The primitives of the election: the HMAC-DRBG over SHA-512 that `drbg.New` seeds with
the entropy, the nonce and the personalization string, as the generator over it;
`tuplehash.New256(32, domainSep)` fed the given items, then `Sum(nil)`; and `UnsafeToHash`,
the beta of a VRF proof. -/
structure ElectionPrimitives (R : Type) where
  drbg : List UInt8 → List UInt8 → List UInt8 → Rng
  tupleHash : List UInt8 → List (List UInt8) → List UInt8
  proofToHash : R → List UInt8

/-- The errors of `drbg.New` (`go/common/crypto/drbg/hmac_drbg.go:164-179`). -/
inductive DrbgError where
  | insufficientEntropyInput
  | excessiveEntropyInputSize
  | excessiveNonceSize
  | excessivePersonalizationStringSize
  deriving DecidableEq, Repr

/-- The errors of `electValidators`. -/
inductive ElectionError (Addr : Type) where
  /-- "cometbft/scheduler: couldn't instantiate DRBG: %w" -/
  | couldntInstantiateDRBG (e : DrbgError)
  /-- "computing voting power for account %s with balance %v: %w" -/
  | computingVotingPower (addr : Addr) (stake : ℕ) (e : VotingPowerError)
  /-- "cometbft/scheduler: failed to elect any validators" -/
  | failedToElectAnyValidators
  /-- "cometbft/scheduler: insufficient validators" -/
  | insufficientValidators
  /-- The run-time panic of reading the proofs of a nil `PrevVRFState`. -/
  | nilPointerDereference
  deriving DecidableEq, Repr

/-- `MaxLength` (`hmac_drbg.go:13-17`). -/
def maxLength : ℕ := 2 ^ 32 - 1

/-- `RNGContextValidators` (`scheduler.go:41`), the bytes of "EkS-ABCI-Validators". -/
def rngContextValidators : List UInt8 :=
  [0x45, 0x6b, 0x53, 0x2d, 0x41, 0x42, 0x43, 0x49, 0x2d, 0x56, 0x61, 0x6c, 0x69, 0x64, 0x61,
    0x74, 0x6f, 0x72, 0x73]

/-- `RNGContextEntities` (`scheduler.go:42`), the bytes of "EkS-ABCI-Entities". -/
def rngContextEntities : List UInt8 :=
  [0x45, 0x6b, 0x53, 0x2d, 0x41, 0x42, 0x43, 0x49, 0x2d, 0x45, 0x6e, 0x74, 0x69, 0x74, 0x69,
    0x65, 0x73]

/-- The domain separator of the validator betas (`shuffle.go:71`), the bytes of
"oasis-core:vrf/validator". -/
def validatorBetaDomainSep : List UInt8 :=
  [0x6f, 0x61, 0x73, 0x69, 0x73, 0x2d, 0x63, 0x6f, 0x72, 0x65, 0x3a, 0x76, 0x72, 0x66, 0x2f,
    0x76, 0x61, 0x6c, 0x69, 0x64, 0x61, 0x74, 0x6f, 0x72]

variable {K Addr VK R : Type}

/-- `initRNG` (`scheduler.go:688-696`), with the checks of `drbg.New`: the entropy must
hold at least half a SHA-512 digest. -/
def initRNG (prim : ElectionPrimitives R) (entropy nonce context : List UInt8) :
    Except (ElectionError Addr) Rng :=
  if entropy.length < 64 / 2 then .error (.couldntInstantiateDRBG .insufficientEntropyInput)
  else if entropy.length > maxLength then .error (.couldntInstantiateDRBG .excessiveEntropyInputSize)
  else if nonce.length > maxLength then .error (.couldntInstantiateDRBG .excessiveNonceSize)
  else if context.length > maxLength then
    .error (.couldntInstantiateDRBG .excessivePersonalizationStringSize)
  else .ok (prim.drbg entropy nonce context)

/-- `shuffleNodes` (`shuffle.go:104-114`): the nodes at the indices of `rng.Perm`. -/
def shuffleNodes (nodes : List (Node K)) (rng : Rng) : List (Node K) :=
  permute (rng.perm nodes.length) nodes

/-- `shuffleAddresses` (`scheduler.go:682-686`). -/
def shuffleAddresses (addrs : List Addr) (rng : Rng) : List Addr :=
  permute (rng.perm addrs.length) addrs

/-- What the election reads through `StakeAccumulatorCache`
(`go/consensus/cometbft/apps/staking/state/accumulator.go`): the accounts it loads, and
whether an account's escrow covers its stake claims, `CheckStakeClaims` returning no
error, against thresholds the model does not keep. -/
structure StakeAccumulatorCache (Addr : Type) where
  accounts : FinMap Addr (Staking.Account Addr)
  checkStakeClaims : Addr → Bool

/-- `GetEscrowBalance` (`accumulator.go:82-89`): the balance of the active escrow pool. -/
def StakeAccumulatorCache.getEscrowBalance (c : StakeAccumulatorCache Addr) (addr : Addr) : ℕ :=
  (c.accounts.get addr).escrow.active.balance

/-! ## Shuffles -/

/-- A `tuplehash.Hasher` as the election uses one: its domain separator and the items
written to it. -/
structure Hasher where
  domainSep : List UInt8
  items : List (List UInt8)

/-- `newBetaHasher` (`shuffle.go:634-648`). -/
def newBetaHasher (domainSep chainContext : List UInt8) (epoch : EpochTime) : Hasher :=
  ⟨domainSep, [chainContext, bigEndian64 epoch]⟩

/-- `hashBeta` (`shuffle.go:588-602`): the digest of the hasher with the beta written last,
copied into 32 bytes. -/
def hashBeta (prim : ElectionPrimitives R) (baseHasher : Hasher) (beta : List UInt8) :
    List UInt8 :=
  copyInto 32 (prim.tupleHash baseHasher.domainSep (baseHasher.items ++ [beta]))

section Shuffle

variable [DecidableEq K] [Inhabited VK] [Inhabited R]

/-- The loop of `sortNodesByHashedBeta` (`shuffle.go:554-570`) at one node: a node with a
proof adds its hashed beta, unless an earlier node has it. -/
def accumulateHashedBeta (prim : ElectionPrimitives R) (pi : FinMap K (Proof VK R))
    (baseHasher : Hasher) (acc : List (List UInt8) × FinMap (List UInt8) (Option (Node K)))
    (n : Node K) : List (List UInt8) × FinMap (List UInt8) (Option (Node K)) :=
  match pi.lookup n.id with
  | none => acc
  | some p =>
    let beta := hashBeta prim baseHasher (prim.proofToHash p.proof)
    if (acc.2.get beta).isNone then (acc.1 ++ [beta], acc.2.set beta (some n)) else acc

/-- `sortNodesByHashedBeta` (`shuffle.go:549-586`): the nodes of the hashed betas, sorted
by `sort.SliceStable` on `bytes.Compare`. An insertion sort is stable, and a stable sort
has one result. -/
def sortNodesByHashedBeta (prim : ElectionPrimitives R) (pi : FinMap K (Proof VK R))
    (baseHasher : Hasher) (nodes : List (Node K)) : List (Node K) :=
  let (betas, nodeByHashedBeta) := nodes.foldl (accumulateHashedBeta prim pi baseHasher) ([], .empty)
  (betas.insertionSort (fun a b => List.compareLex compare b a ≠ .lt)).filterMap
    nodeByHashedBeta.get

/-- The entropy-based shuffle of `shuffleValidators` (`shuffle.go:87-101`). -/
def shuffleByEntropy (prim : ElectionPrimitives R) (nodes : List (Node K)) (entropy : List UInt8) :
    Except (ElectionError Addr) (List (Node K)) := do
  let rng ← initRNG prim entropy [] rngContextValidators
  pure (shuffleNodes nodes rng)

/-- `shuffleValidators` (`shuffle.go:30-102`). Under the VRF backend a nil state panics
where its proofs are read: at the first node, or in the log line once the count of proofs
reaches `MinValidators`. -/
def shuffleValidators (params : ConsensusParameters) (prim : ElectionPrimitives R)
    (chainContext : List UInt8) (epoch : EpochTime) (backend : BeaconBackend)
    (nodes : List (Node K)) (entropy : List UInt8) (vrf : Option (PrevVRFState K VK R)) :
    Except (ElectionError Addr) (List (Node K)) :=
  match backend, vrf with
  | .insecure, _ => shuffleByEntropy prim nodes entropy
  | .vrf, none =>
    if nodes = [] ∧ 0 < params.minValidators then shuffleByEntropy prim nodes entropy
    else .error .nilPointerDereference
  | .vrf, some vrf =>
    let numValidatorsWithPi := (nodes.filter fun n => (vrf.pi.lookup n.id).isSome).length
    if (numValidatorsWithPi : ℤ) < params.minValidators then shuffleByEntropy prim nodes entropy
    else .ok (sortNodesByHashedBeta prim vrf.pi
      (newBetaHasher validatorBetaDomainSep chainContext epoch) nodes)

end Shuffle

/-! ## The election -/

/-- The maps the loop `electLoop` writes (`scheduler.go:568-621`): the entities eligible
for rewards (the caller's map, written in place), those with a validator elected, and the
new validators by consensus key. -/
structure ElectState (K Addr : Type) [Inhabited K] where
  rewardableEntities : Finset Addr
  validatorEntities : Finset Addr
  newValidators : FinMap K (ElectedValidator K)

section Election

variable [DecidableEq K] [Inhabited K] [LinearOrder Addr]
variable (newAddress : K → Addr) (stakeAcc : StakeAccumulatorCache Addr)
  (params : ConsensusParameters)

/-- The filter of `electValidators` (`scheduler.go:524-541`): a node with the validator role
whose entity's stake claims hold, unless stake is bypassed. -/
def isEligible (n : Node K) : Bool :=
  n.hasRoles roleValidator &&
    (params.debugBypassStake || stakeAcc.checkStakeClaims (newAddress n.entityId))

/-- `sortAddressesByBalance` (`scheduler.go:673-680`): `sort.SliceStable` by descending
balance. An insertion sort is stable, and a stable sort has one result. -/
def sortAddressesByBalance (addrs : List Addr) (balances : Addr → ℕ) : List Addr :=
  addrs.insertionSort fun a b => balances b ≤ balances a

/-- `stakingAddressMapToSliceByStake` (`scheduler.go:633-662`): the entities in the order
of their addresses, shuffled by the generator of `RNGContextEntities`, then, unless stake
is bypassed, stably sorted by descending escrow balance (`fetchBalances`). -/
def stakingAddressMapToSliceByStake (prim : ElectionPrimitives R) (entities : Finset Addr)
    (entropy : List UInt8) : Except (ElectionError Addr) (List Addr) := do
  let addrs := FinMap.sortedElems (· ≤ ·) entities
  let rng ← initRNG prim entropy [] rngContextEntities
  let addrs := shuffleAddresses addrs rng
  if params.debugBypassStake then pure addrs
  else pure (sortAddressesByBalance addrs stakeAcc.getEscrowBalance)

/-- The grouping loop of `electValidators` (`scheduler.go:557-566`): each node appended to
its entity's list. -/
def entityNodesMap (shuffledNodes : List (Node K)) : FinMap Addr (List (Node K)) :=
  shuffledNodes.foldl (fun m n => m.set (newAddress n.entityId) (m.get (newAddress n.entityId) ++ [n]))
    .empty

/-- The body of the inner loop of `electLoop` (`scheduler.go:584-619`) at node `n` of the
entity `entAddr`: the entity becomes rewardable, the node's validator is recorded under its
consensus key with the power of the entity's escrow, and the loop breaks once
`MaxValidators` are elected. -/
def electNode (entAddr : Addr) (st : ElectState K Addr) (n : Node K) :
    Except (ElectionError Addr) (ElectState K Addr × Bool) := do
  let stake := stakeAcc.getEscrowBalance entAddr
  let power ← (electedVotingPower params.debugBypassStake params.votingPowerDistribution
    stake).mapError (.computingVotingPower entAddr stake)
  let newValidators := st.newValidators.set n.consensusId ⟨n.id, n.entityId, power⟩
  pure (⟨insert entAddr st.rewardableEntities, insert entAddr st.validatorEntities,
    newValidators⟩, decide (params.maxValidators ≤ newValidators.keys.card))

/-- The inner loop of `electLoop` (`scheduler.go:577-620`), over the first
`MaxValidatorsPerEntity` nodes of the entity. -/
def electEntity (entityNodes : FinMap Addr (List (Node K))) (st : ElectState K Addr)
    (entAddr : Addr) : Except (ElectionError Addr) (ElectState K Addr × Bool) :=
  Except.breakLoop (electNode stakeAcc params entAddr) st
    ((entityNodes.get entAddr).take params.maxValidatorsPerEntity.toNat)

/-- `electLoop` (`scheduler.go:568-621`): the entities in order, until the inner loop
breaks out. -/
def electLoop (entityNodes : FinMap Addr (List (Node K))) (sortedEntities : List Addr)
    (st : ElectState K Addr) : Except (ElectionError Addr) (ElectState K Addr × Bool) :=
  Except.breakLoop (electEntity stakeAcc params entityNodes) st sortedEntities

variable [Inhabited VK] [Inhabited R]

/-- `electValidators` (`scheduler.go:513-631`): the maps of a successful election, whose
new validators `PutPendingValidators` writes as the pending set. -/
def electValidators (prim : ElectionPrimitives R) (chainContext : List UInt8)
    (epoch : EpochTime) (backend : BeaconBackend) (rewardableEntities : Finset Addr)
    (nodes : List (Node K)) (entropy : List UInt8) (vrf : Option (PrevVRFState K VK R)) :
    Except (ElectionError Addr) (ElectState K Addr) := do
  let validators := nodes.filter (isEligible newAddress stakeAcc params)
  let entities := (validators.map fun n => newAddress n.entityId).toFinset
  let sortedEntities ← stakingAddressMapToSliceByStake stakeAcc params prim entities entropy
  let shuffledNodes ← shuffleValidators params prim chainContext epoch backend validators
    entropy vrf
  let (st, _) ← electLoop stakeAcc params (entityNodesMap newAddress shuffledNodes)
    sortedEntities (⟨rewardableEntities, ∅, .empty⟩ : ElectState K Addr)
  if st.newValidators.keys.card = 0 then .error .failedToElectAnyValidators
  else if (st.newValidators.keys.card : ℤ) < params.minValidators then
    .error .insufficientValidators
  else pure st

end Election

/-! ## Pending sets -/

section Pending

variable [DecidableEq K] [Inhabited K] [LinearOrder Addr] (newAddress : K → Addr)
  (stakeAcc : StakeAccumulatorCache Addr) (params : ConsensusParameters)

/-- Every validator of a pending set has the power its entity's escrow gives. -/
def Powered (m : FinMap K (ElectedValidator K)) : Prop :=
  ∀ k ∈ m.keys, electedVotingPower params.debugBypassStake params.votingPowerDistribution
    (stakeAcc.getEscrowBalance (newAddress (m.get k).entityId)) = .ok (m.get k).votingPower

/-- The pending set as the validator updates read it. -/
def pendingValidators (m : FinMap K (ElectedValidator K)) : FinMap K Validator :=
  m.map ElectedValidator.toValidator rfl

variable {newAddress stakeAcc params}
variable {entAddr : Addr} {st st' : ElectState K Addr} {n : Node K} {stop : Bool}

/-- What one pass of the inner loop does: it records the node's validator with the power
of the entity's escrow, and breaks exactly when `MaxValidators` are reached. -/
theorem electNode_eq_ok (h : electNode stakeAcc params entAddr st n = .ok (st', stop)) :
    ∃ power, electedVotingPower params.debugBypassStake params.votingPowerDistribution
        (stakeAcc.getEscrowBalance entAddr) = .ok power ∧
      st'.newValidators = st.newValidators.set n.consensusId ⟨n.id, n.entityId, power⟩ ∧
      (stop = true ↔ params.maxValidators ≤ st'.newValidators.keys.card) := by
  unfold electNode at h
  obtain ⟨power, hpower, hrest⟩ := Except.bind_eq_ok.mp h
  rw [Except.pure_eq_ok, Prod.mk.injEq] at hrest
  obtain ⟨rfl, rfl⟩ := hrest
  exact ⟨power, Except.mapError_eq_ok.mp hpower, rfl, decide_eq_true_iff⟩

theorem powered_electNode (hst : Powered newAddress stakeAcc params st.newValidators)
    (hn : newAddress n.entityId = entAddr)
    (h : electNode stakeAcc params entAddr st n = .ok (st', stop)) :
    Powered newAddress stakeAcc params st'.newValidators := by
  obtain ⟨power, hpower, hnew, -⟩ := electNode_eq_ok h
  intro k hk
  rw [hnew, FinMap.keys_set, Finset.mem_insert] at hk
  rw [hnew]
  by_cases hkn : k = n.consensusId
  · simpa [hkn, hn] using hpower
  · simpa [hkn] using hst k (hk.resolve_left hkn)

variable {x : Addr} {ns : List (Node K)}

theorem powered_breakLoop_electNode (hns : ∀ n ∈ ns, newAddress n.entityId = x)
    (hst : Powered newAddress stakeAcc params st.newValidators)
    (h : Except.breakLoop (electNode stakeAcc params x) st ns = .ok (st', stop)) :
    Powered newAddress stakeAcc params st'.newValidators :=
  Except.breakLoop_state_inv_of_eq_ok ns (fun s => Powered newAddress stakeAcc params s.newValidators)
    (fun a _ _ _ ha hs hbody => powered_electNode hs (hns a ha) hbody) hst h

variable {entityNodes : FinMap Addr (List (Node K))} {sortedEntities : List Addr}

theorem powered_electLoop (hnodes : ∀ x, ∀ n ∈ entityNodes.get x, newAddress n.entityId = x)
    (hst : Powered newAddress stakeAcc params st.newValidators)
    (h : electLoop stakeAcc params entityNodes sortedEntities st = .ok (st', stop)) :
    Powered newAddress stakeAcc params st'.newValidators :=
  Except.breakLoop_state_inv_of_eq_ok sortedEntities
    (fun s => Powered newAddress stakeAcc params s.newValidators)
    (fun x _ _ _ _ hs hbody =>
      powered_breakLoop_electNode (fun n hn => hnodes x n (List.mem_of_mem_take hn)) hs hbody) hst h

end Pending

/-! ## Orders and shuffles -/

section Specs

variable {newAddress : K → Addr} {stakeAcc : StakeAccumulatorCache Addr}
  {params : ConsensusParameters} {prim : ElectionPrimitives R}

/-- The grouping gives each entity its shuffled nodes, in their order. -/
theorem get_entityNodesMap [LinearOrder Addr] (shuffledNodes : List (Node K)) (a : Addr) :
    (entityNodesMap newAddress shuffledNodes).get a =
      shuffledNodes.filter fun n => newAddress n.entityId = a := by
  have hrun := foldl_inv shuffledNodes
    (fun done (m : FinMap Addr (List (Node K))) =>
      ∀ a, m.get a = done.filter fun n => newAddress n.entityId = a)
    (g := fun m n => m.set (newAddress n.entityId) (m.get (newAddress n.entityId) ++ [n]))
    (fun done n rest m _ hm a => by
      rw [FinMap.get_set, List.filter_append]
      by_cases ha : a = newAddress n.entityId
      · subst ha
        rw [if_pos rfl, hm]
        simp
      · rw [if_neg ha, hm]
        simp [Ne.symm ha])
    (b := .empty) (fun _ => rfl)
  exact hrun a

theorem mem_get_entityNodesMap [LinearOrder Addr] {shuffledNodes : List (Node K)} {x : Addr} {n : Node K}
    (hn : n ∈ (entityNodesMap newAddress shuffledNodes).get x) :
    n ∈ shuffledNodes ∧ newAddress n.entityId = x := by
  rw [get_entityNodesMap, List.mem_filter, decide_eq_true_iff] at hn
  exact hn

end Specs

/-! ## Successful elections -/

section Main

variable [DecidableEq K] [Inhabited K] [LinearOrder Addr] [Inhabited VK] [Inhabited R]
variable {newAddress : K → Addr} {stakeAcc : StakeAccumulatorCache Addr}
  {params : ConsensusParameters} {prim : ElectionPrimitives R} {chainContext : List UInt8}
  {epoch : EpochTime} {backend : BeaconBackend} {rewardableEntities : Finset Addr}
  {nodes : List (Node K)} {entropy : List UInt8} {vrf : Option (PrevVRFState K VK R)}
  {st : ElectState K Addr}

/-- What a successful election went through: the sort, the shuffle and the loop succeeded,
and the two final checks passed. -/
theorem electValidators_eq_ok
    (h : electValidators newAddress stakeAcc params prim chainContext epoch backend
      rewardableEntities nodes entropy vrf = .ok st) :
    ∃ sortedEntities shuffledNodes stop,
      stakingAddressMapToSliceByStake stakeAcc params prim
          ((nodes.filter (isEligible newAddress stakeAcc params)).map
            fun n => newAddress n.entityId).toFinset entropy = .ok sortedEntities ∧
        (shuffleValidators params prim chainContext epoch backend
          (nodes.filter (isEligible newAddress stakeAcc params)) entropy vrf :
          Except (ElectionError Addr) (List (Node K))) = .ok shuffledNodes ∧
        electLoop stakeAcc params (entityNodesMap newAddress shuffledNodes) sortedEntities
          ⟨rewardableEntities, ∅, .empty⟩ = .ok (st, stop) ∧
        st.newValidators.keys.card ≠ 0 ∧ params.minValidators ≤ st.newValidators.keys.card := by
  unfold electValidators at h
  obtain ⟨sortedEntities, hsorted, h⟩ := Except.bind_eq_ok.mp h
  obtain ⟨shuffledNodes, hshuffled, h⟩ := Except.bind_eq_ok.mp h
  obtain ⟨⟨st₁, stop⟩, hloop, h⟩ := Except.bind_eq_ok.mp h
  rw [Except.ite_error_eq_ok, Except.ite_error_eq_ok, Except.pure_eq_ok] at h
  obtain ⟨hne, hmin, rfl⟩ := h
  exact ⟨sortedEntities, shuffledNodes, stop, hsorted, hshuffled, hloop, hne, not_lt.mp hmin⟩

/-- A successful election is an election step of the validator-set run: the pending set it
writes has the powers `electedVotingPower` gives. -/
theorem electValidators_validatorStep
    (h : electValidators newAddress stakeAcc params prim chainContext epoch backend
      rewardableEntities nodes entropy vrf = .ok st) (vs : ValidatorState K) (s : ValidatorSet K) :
    ValidatorStep params.debugBypassStake params.votingPowerDistribution (vs, s)
      ({ vs with pendingValidators := some (pendingValidators st.newValidators) }, s) := by
  obtain ⟨_, _, _, -, -, hloop, -, -⟩ := electValidators_eq_ok h
  have hpower := powered_electLoop (fun _ _ hn => (mem_get_entityNodesMap hn).2)
    (fun _ hk => by simp at hk) hloop
  exact ValidatorStep.elect _ fun k hk => ⟨_, hpower k hk⟩

end Main

/-! ## An election under the VRF backend -/

/-- Primitives whose generators draw the identity and whose hash concatenates its items. -/
def samplePrimitives : ElectionPrimitives ℕ :=
  ⟨fun _ _ _ => ⟨List.range, fun _ => List.Perm.refl _⟩, fun _ items => items.flatten,
    fun r => [r.toUInt8]⟩

/-- Entity 1 with twice the escrow of entity 2, both with their stake claims met. -/
def sampleStake : StakeAccumulatorCache ℕ :=
  ⟨(FinMap.empty.set 1 { escrow := { active := ⟨32, 32⟩ } }).set 2
    { escrow := { active := ⟨16, 16⟩ } }, fun _ => true⟩

/-- One to two validators, one per entity, the linear distribution. -/
def sampleParams : ConsensusParameters :=
  ⟨1, 2, 1, false, votingPowerDistributionLinear⟩

/-- A validator node of each entity, with consensus keys 11 and 12. -/
def sampleNodes : List (Node ℕ) :=
  [⟨1, 1, 11, roleValidator⟩, ⟨2, 2, 12, roleValidator⟩]

/-- The previous epoch's proofs: node 2 submitted one, node 1 none. -/
def samplePrevVRF : PrevVRFState ℕ ℕ ℕ :=
  ⟨FinMap.empty.set 2 ⟨0, 5⟩, true⟩

/-- The election of `electValidators_spec_vrf` is an election step of the validator-set run
from the empty state. -/
theorem electValidators_validatorStep_vrf :
    ∃ st, electValidators id sampleStake sampleParams samplePrimitives [] 0 .vrf ∅ sampleNodes
        (List.replicate 32 0) (some samplePrevVRF) = .ok st ∧
      ValidatorStep sampleParams.debugBypassStake sampleParams.votingPowerDistribution
        ((⟨FinMap.empty, none⟩ : ValidatorState ℕ), votingPowers FinMap.empty)
        ({ (⟨FinMap.empty, none⟩ : ValidatorState ℕ) with
          pendingValidators := some (pendingValidators st.newValidators) },
          votingPowers FinMap.empty) := by
  obtain ⟨st, h⟩ : ∃ st, electValidators id sampleStake sampleParams samplePrimitives [] 0 .vrf ∅
      sampleNodes (List.replicate 32 0) (some samplePrevVRF) = .ok st := ⟨_, rfl⟩
  exact ⟨st, h, electValidators_validatorStep h _ _⟩

end Scheduler

end OasisCore
