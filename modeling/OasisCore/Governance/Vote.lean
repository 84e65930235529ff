import OasisCore.Governance.Lifecycle
import OasisCore.Staking.Gas

/-!
# Casting votes

`castVote` (`go/consensus/cometbft/apps/governance/transactions.go:222-365`) records the
vote of the caller on a proposal. The caller is eligible when one of the nodes of its
registered entity is a current validator, or when it delegates to the entity of a
current validator; a runtime message, or a caller without an entity, is let through
to the second test only with `AllowVoteWithoutEntity`. The proposal must exist and be
active. The vote is stored under (proposal ID, caller), replacing an earlier vote of the
caller (`setVote`).

Each query `castVote` makes of the state (the registry entity of the signer, the
current validators of the scheduler, the caller's delegations and the proposal) goes
through a state wrapper that may fail with an `UnavailableStateError`, when the storage
fails or a stored value does not decode. The model takes the answers as
`CastVoteReads`. `stateReads` gives the answers of a state that does not fail;
`castVote_stateReads_eq_ok` is then the acceptance condition in the state's terms.

On a proposal lookup that fails with anything but `ErrNoSuchProposal`, Go only logs
and then reads `proposal.State` through the nil pointer the lookup returned, a run-time
panic (`castVote_unavailable_proposal_panics`).
-/

namespace OasisCore

namespace Governance

open Consensus (Gas BasicGasAccountant GasError)
open Staking (AddressSpace ContextMode)

/-- The gas operations of the governance transactions (`go/governance/api/api.go:573-579`). -/
inductive GasOp where
  | submitProposal
  | castVote
  deriving DecidableEq, Repr

/-- The fields of the governance `ConsensusParameters` (`api.go:414-448`) that only
`castVote` reads. -/
structure CastVoteParameters where
  gasCosts : FinMap GasOp Gas
  allowVoteWithoutEntity : Bool

/-- `ProposalVote` (`api.go:383-389`). -/
structure ProposalVote where
  id : UInt64
  vote : Vote
  deriving DecidableEq, Repr

/-- What `castVote` reads of a scheduler `Validator` (`go/scheduler/api/api.go`): its
node ID and the address `NewAddress(EntityID)` of its entity. -/
structure ValidatorEntry (NodeID Addr : Type) where
  id : NodeID
  entityAddress : Addr
  deriving DecidableEq, Repr

/-- An `UnavailableStateError`: the storage failed, or a stored value did not decode. -/
structure StateError where
  deriving DecidableEq, Repr

/-- The errors of registry `Entity`. -/
inductive EntityLookupError where
  | noSuchEntity
  | unavailable
  deriving DecidableEq, Repr

/-- The errors of `Proposal` (`governance/state/state.go:129-142`). -/
inductive ProposalLookupError where
  | noSuchProposal
  | unavailable
  deriving DecidableEq, Repr

/-- The answers to the queries of one `castVote`. -/
structure CastVoteReads (NodeID Addr : Type) where
  /-- The nodes of the registered entity of the transaction signer. -/
  submitterEntity : Except EntityLookupError (List NodeID)
  currentValidators : Except StateError (List (ValidatorEntry NodeID Addr))
  /-- The escrow accounts the caller delegates to, the keys of `DelegationsFor`. -/
  delegations : Except StateError (Finset Addr)
  proposal : Except ProposalLookupError (StoredProposal Addr)

/-- The errors of `castVote`. -/
inductive CastVoteError where
  /-- The error of `UseGas`, returned as it is. -/
  | gas (e : GasError)
  /-- The staking `ErrForbidden`: the caller's address is not valid. -/
  | forbidden
  /-- `ErrNotEligible`. -/
  | notEligible
  /-- "governance: failed to query entity: %w". -/
  | queryEntity
  /-- "governance: failed to query current validators: %w". -/
  | queryValidators
  /-- "governance: failed to query submitter delegations: %w". -/
  | queryDelegations
  /-- `ErrNoSuchProposal`. -/
  | noSuchProposal
  /-- `ErrVotingIsClosed`. -/
  | votingIsClosed
  /-- Not an error value: reading `proposal.State` of a nil proposal is a run-time panic. -/
  | nilDereference
  deriving DecidableEq, Repr

variable {NodeID Addr : Type} [DecidableEq NodeID] [DecidableEq Addr]

namespace GovernanceState

variable (r : Addr → Addr → Prop) [DecidableRel r]

/-- `SetVote` (`state.go:337-345`): the entry of key (`id`, `voter`). The votes of a
proposal are listed in the order of their keys, that is in the order `r` of the voters'
addresses. -/
def setVote (s : GovernanceState Addr) (id : UInt64) (voter : Addr) (vote : Vote) :
    GovernanceState Addr :=
  let entries := ((s.votes id).filter (·.voter ≠ voter)).orderedInsert
    (fun a b => r a.voter b.voter) ⟨voter, vote⟩
  { s with votes := Function.update s.votes id entries }

end GovernanceState

/-- The nodes `castVote` looks for among the validators (`transactions.go:253-274`):
those of the signer's entity, none for a runtime message or a caller without an
entity, which pass only with `AllowVoteWithoutEntity`. -/
def submitterNodes (params : CastVoteParameters) (reads : CastVoteReads NodeID Addr)
    (runtimeMsg : Bool) : Except CastVoteError (List NodeID) :=
  if runtimeMsg then
    if !params.allowVoteWithoutEntity then .error .notEligible else .ok []
  else
    match reads.submitterEntity with
    | .ok nodes => .ok nodes
    | .error .noSuchEntity => if !params.allowVoteWithoutEntity then .error .notEligible else .ok []
    | .error .unavailable => .error .queryEntity

/-- The eligibility test of `castVote` (`transactions.go:276-320`): a node among the
current validators, or else a delegation to a current validator's entity. Go walks the
delegations map until it finds one; the answer is whether there is one. -/
def isEligible (reads : CastVoteReads NodeID Addr) (nodes : List NodeID) :
    Except CastVoteError Bool := do
  let currentValidators ← reads.currentValidators.mapError fun _ => .queryValidators
  if nodes.any fun n => currentValidators.any (·.id == n) then pure true
  else do
    let delegs ← reads.delegations.mapError fun _ => .queryDelegations
    pure (decide (∃ d ∈ delegs, ∃ v ∈ currentValidators, v.entityAddress = d))

/-- Loading the proposal and checking that it is active (`transactions.go:331-355`). -/
def loadActiveProposal (proposal : Except ProposalLookupError (StoredProposal Addr)) :
    Except CastVoteError (StoredProposal Addr) :=
  match proposal with
  | .error .noSuchProposal => .error .noSuchProposal
  -- The `default` branch only logs; `proposal` is nil when `proposal.State` is read.
  | .error .unavailable => .error .nilDereference
  | .ok p => if p.state ≠ .active then .error .votingIsClosed else .ok p

/-- What `castVote` does after gas in a `DeliverTx` (`transactions.go:248-357`). -/
def deliverVote (space : AddressSpace Addr) (r : Addr → Addr → Prop) [DecidableRel r]
    (params : CastVoteParameters) (reads : CastVoteReads NodeID Addr)
    (s : GovernanceState Addr) (submitterAddr : Addr) (proposalVote : ProposalVote)
    (runtimeMsg : Bool) : Except CastVoteError (GovernanceState Addr) := do
  if !space.isValid submitterAddr then throw .forbidden
  let nodes ← submitterNodes params reads runtimeMsg
  let eligible ← isEligible reads nodes
  if !eligible then throw .notEligible
  let proposal ← loadActiveProposal reads.proposal
  pure (s.setVote r proposal.id submitterAddr proposalVote.vote)

/-- `castVote` by the caller `submitterAddr` in a context of mode `mode`, with the
transaction's gas accountant `ga`; the state and the accountant after. -/
def castVote (space : AddressSpace Addr) (r : Addr → Addr → Prop) [DecidableRel r]
    (mode : ContextMode) (params : CastVoteParameters) (reads : CastVoteReads NodeID Addr)
    (s : GovernanceState Addr) (ga : BasicGasAccountant) (submitterAddr : Addr)
    (proposalVote : ProposalVote) (runtimeMsg : Bool) :
    Except CastVoteError (GovernanceState Addr × BasicGasAccountant) :=
  if mode = .checkTx then .ok (s, ga)
  else do
    let ga ← (ga.useGas 1 GasOp.castVote params.gasCosts).mapError .gas
    if mode = .simulation then pure (s, ga)
    else do
      let s ← deliverVote space r params reads s submitterAddr proposalVote runtimeMsg
      pure (s, ga)

/-- The answers of a state whose queries do not fail: the signer's entity as the
registry holds it (`none` when it has none), the current validators, the caller's
delegations in the staking state, and proposal `id`. -/
def stateReads (st : AppState Addr) (entity : Option (List NodeID))
    (validators : List (ValidatorEntry NodeID Addr)) (submitterAddr : Addr) (id : UInt64) :
    CastVoteReads NodeID Addr where
  submitterEntity := match entity with
    | some nodes => .ok nodes
    | none => .error .noSuchEntity
  currentValidators := .ok validators
  delegations := .ok (st.staking.delegationsFor submitterAddr).keys
  proposal := match st.governance.proposals.get id with
    | some p => .ok p
    | none => .error .noSuchProposal

/-- Who may vote (`transactions.go:253-327`): a caller whose entity runs a current
validator node, or one that delegates to the entity of a current validator; a runtime
message, or a caller without an entity, only with `AllowVoteWithoutEntity` and only
by a delegation. -/
def Eligible (allowVoteWithoutEntity runtimeMsg : Bool) (entity : Option (List NodeID))
    (validators : List (ValidatorEntry NodeID Addr)) (delegations : Finset Addr) : Prop :=
  (runtimeMsg = false ∧ ∃ nodes, entity = some nodes ∧ ∃ n ∈ nodes, ∃ v ∈ validators, v.id = n) ∨
    ((runtimeMsg = false ∧ entity.isSome) ∨ allowVoteWithoutEntity = true) ∧
      ∃ d ∈ delegations, ∃ v ∈ validators, v.entityAddress = d

/-! ## What `SetVote` writes -/

namespace GovernanceState

variable (r : Addr → Addr → Prop) [DecidableRel r] (s : GovernanceState Addr) (id : UInt64)
  (voter : Addr) (vote : Vote)

/-- `SetVote` writes the votes only. -/
theorem setVote_eq : s.setVote r id voter vote = { s with votes := (s.setVote r id voter vote).votes } :=
  rfl

/-- The votes on other proposals are as they were. -/
theorem votes_setVote_of_ne {id' : UInt64} (h : id' ≠ id) :
    (s.setVote r id voter vote).votes id' = s.votes id' :=
  Function.update_of_ne h _ _

/-- The voter's one entry is the new vote: an earlier vote of the voter is replaced. -/
theorem filter_votes_setVote_self :
    ((s.setVote r id voter vote).votes id).filter (·.voter = voter) = [⟨voter, vote⟩] := by
  unfold setVote
  dsimp only
  rw [Function.update_self]
  apply filter_orderedInsert_of_forall
  · simp
  · intro e he
    simpa using (List.mem_filter.mp he).2

/-- The entries of the other voters are as they were. -/
theorem filter_votes_setVote_of_ne {a : Addr} (h : a ≠ voter) :
    ((s.setVote r id voter vote).votes id).filter (·.voter = a) =
      (s.votes id).filter (·.voter = a) := by
  unfold setVote
  dsimp only
  rw [Function.update_self, filter_orderedInsert_of_not _ _ (by simpa using h.symm),
    filter_filter_of_imp]
  intro e he
  simp only [decide_eq_true_eq] at he
  simp [he, h]

theorem voteOf_setVote_self : voteOf ((s.setVote r id voter vote).votes id) voter = some vote := by
  rw [voteOf, ← List.head?_filter, filter_votes_setVote_self]
  rfl

theorem voteOf_setVote_of_ne {a : Addr} (h : a ≠ voter) :
    voteOf ((s.setVote r id voter vote).votes id) a = voteOf (s.votes id) a := by
  rw [voteOf, voteOf, ← List.head?_filter, ← List.head?_filter,
    filter_votes_setVote_of_ne r s id voter vote h]

end GovernanceState

/-! ## What `castVote` accepts -/

section CastVote

variable {space : AddressSpace Addr} {r : Addr → Addr → Prop} [DecidableRel r]
  {params : CastVoteParameters} {reads : CastVoteReads NodeID Addr} {s : GovernanceState Addr}
  {ga : BasicGasAccountant} {submitterAddr : Addr} {proposalVote : ProposalVote}
  {runtimeMsg : Bool}

omit [DecidableEq Addr] in
theorem loadActiveProposal_eq_ok {x : Except ProposalLookupError (StoredProposal Addr)}
    {p : StoredProposal Addr} : loadActiveProposal x = .ok p ↔ x = .ok p ∧ p.state = .active := by
  unfold loadActiveProposal
  cases x with
  | error e => cases e <;> simp
  | ok q =>
    by_cases hq : q.state = .active
    · simp only [hq, ne_eq, not_true_eq_false, if_false, Except.ok.injEq]
      constructor
      · rintro rfl
        exact ⟨rfl, hq⟩
      · rintro ⟨rfl, -⟩
        rfl
    · simp only [ne_eq, hq, not_false_eq_true, if_true, reduceCtorEq, Except.ok.injEq, false_iff,
        not_and]
      rintro rfl
      exact hq

theorem deliverVote_eq_ok {s' : GovernanceState Addr} :
    deliverVote space r params reads s submitterAddr proposalVote runtimeMsg = .ok s' ↔
      space.isValid submitterAddr = true ∧
        (∃ nodes, submitterNodes params reads runtimeMsg = .ok nodes ∧
          isEligible reads nodes = .ok true) ∧
        ∃ p, reads.proposal = .ok p ∧ p.state = .active ∧
          s' = s.setVote r p.id submitterAddr proposalVote.vote := by
  unfold deliverVote
  by_cases hvalid : space.isValid submitterAddr = true
  · rw [if_neg (by simp [hvalid])]
    simp only [Except.bind_eq_ok]
    constructor
    · rintro ⟨nodes, hnodes, eligible, helig, hrest⟩
      cases eligible
      · rw [if_pos (by decide), Except.throw_bind] at hrest
        cases hrest
      rw [if_neg (by decide)] at hrest
      obtain ⟨p, hp, hpure⟩ := Except.bind_eq_ok.mp hrest
      obtain ⟨hp, hactive⟩ := loadActiveProposal_eq_ok.mp hp
      exact ⟨hvalid, ⟨nodes, hnodes, helig⟩, p, hp, hactive, (Except.pure_eq_ok.mp hpure).symm⟩
    · rintro ⟨-, ⟨nodes, hnodes, helig⟩, p, hp, hactive, rfl⟩
      refine ⟨nodes, hnodes, true, helig, ?_⟩
      rw [if_neg (by decide), loadActiveProposal_eq_ok.mpr ⟨hp, hactive⟩]
      rfl
  · rw [if_pos (by simpa using hvalid), Except.throw_bind]
    simp only [reduceCtorEq, false_iff, not_and]
    intro h
    exact absurd h hvalid

/-- In a `DeliverTx`, `castVote` charges the gas of the operation and then stores what
`deliverVote` does. -/
theorem castVote_deliverTx_eq_ok {s' : GovernanceState Addr} {ga' : BasicGasAccountant} :
    castVote space r .deliverTx params reads s ga submitterAddr proposalVote runtimeMsg =
        .ok (s', ga') ↔
      ga.useGas 1 GasOp.castVote params.gasCosts = .ok ga' ∧
        deliverVote space r params reads s submitterAddr proposalVote runtimeMsg = .ok s' := by
  unfold castVote
  simp only [reduceCtorEq, if_false, Except.bind_eq_ok, Except.mapError_eq_ok, Except.pure_eq_ok,
    Prod.mk.injEq]
  constructor
  · rintro ⟨ga₁, hgas, s₁, hdeliver, rfl, rfl⟩
    exact ⟨hgas, hdeliver⟩
  · rintro ⟨hgas, hdeliver⟩
    exact ⟨ga', hgas, s', hdeliver, rfl, rfl⟩

/-- Outside a `DeliverTx` nothing is stored. -/
theorem castVote_of_ne_deliverTx {mode : ContextMode} (hmode : mode ≠ .deliverTx)
    {s' : GovernanceState Addr} {ga' : BasicGasAccountant}
    (h : castVote space r mode params reads s ga submitterAddr proposalVote runtimeMsg =
      .ok (s', ga')) : s' = s := by
  unfold castVote at h
  cases mode with
  | checkTx =>
    cases h
    rfl
  | simulation =>
    simp only [reduceCtorEq, if_false, if_true, Except.bind_eq_ok, Except.pure_eq_ok,
      Prod.mk.injEq] at h
    obtain ⟨-, -, rfl, -⟩ := h
    rfl
  | deliverTx => exact absurd rfl hmode

omit [DecidableEq Addr] in
theorem loadActiveProposal_eq_nilDereference
    {x : Except ProposalLookupError (StoredProposal Addr)} :
    loadActiveProposal x = .error .nilDereference ↔ x = .error .unavailable := by
  unfold loadActiveProposal
  cases x with
  | error e => cases e <;> simp
  | ok q => by_cases hq : q.state = .active <;> simp [hq]

omit [DecidableEq NodeID] [DecidableEq Addr] in
theorem submitterNodes_ne_nilDereference :
    submitterNodes params reads runtimeMsg ≠ .error .nilDereference := by
  unfold submitterNodes
  cases hallow : params.allowVoteWithoutEntity <;> cases runtimeMsg
  all_goals
    cases h : reads.submitterEntity with
    | ok nodes => simp
    | error e => cases e <;> simp

theorem isEligible_ne_nilDereference (nodes : List NodeID) :
    isEligible reads nodes ≠ .error .nilDereference := by
  unfold isEligible
  cases hv : reads.currentValidators with
  | error e => simp
  | ok validators =>
    simp only [Except.mapError_ok, Except.ok_bind]
    split
    · simp
    · cases hd : reads.delegations with
      | error e => simp
      | ok delegs => simp

/-- The panic is reached past the address and eligibility checks, on a proposal lookup
that fails with an error other than `ErrNoSuchProposal`. -/
theorem deliverVote_eq_nilDereference_iff :
    deliverVote space r params reads s submitterAddr proposalVote runtimeMsg =
        .error .nilDereference ↔
      space.isValid submitterAddr = true ∧
        (∃ nodes, submitterNodes params reads runtimeMsg = .ok nodes ∧
          isEligible reads nodes = .ok true) ∧
        reads.proposal = .error .unavailable := by
  unfold deliverVote
  by_cases hvalid : space.isValid submitterAddr = true
  · rw [if_neg (by simp [hvalid])]
    simp only [Except.bind_eq_error, submitterNodes_ne_nilDereference, isEligible_ne_nilDereference,
      false_or, hvalid, true_and]
    constructor
    · rintro ⟨nodes, hnodes, eligible, helig, hrest⟩
      cases eligible
      · rw [if_pos (by decide), Except.throw_bind] at hrest
        cases hrest
      rw [if_neg (by decide)] at hrest
      obtain hload | ⟨p, -, hpure⟩ := Except.bind_eq_error.mp hrest
      · exact ⟨⟨nodes, hnodes, helig⟩, loadActiveProposal_eq_nilDereference.mp hload⟩
      · exact absurd hpure Except.pure_ne_error
    · rintro ⟨⟨nodes, hnodes, helig⟩, hunavailable⟩
      refine ⟨nodes, hnodes, true, helig, ?_⟩
      rw [if_neg (by decide), loadActiveProposal_eq_nilDereference.mpr hunavailable]
      rfl
  · rw [if_pos (by simpa using hvalid), Except.throw_bind]
    simp only [Except.error.injEq, reduceCtorEq, false_iff, not_and]
    intro h
    exact absurd h hvalid

/-- The panic of the nil proposal: `castVote` reaches it exactly in a `DeliverTx` whose
gas, address and eligibility checks pass and whose proposal lookup fails with an error
other than `ErrNoSuchProposal`. -/
theorem castVote_eq_nilDereference_iff {mode : ContextMode} :
    castVote space r mode params reads s ga submitterAddr proposalVote runtimeMsg =
        .error .nilDereference ↔
      mode = .deliverTx ∧ (∃ ga', ga.useGas 1 GasOp.castVote params.gasCosts = .ok ga') ∧
        space.isValid submitterAddr = true ∧
        (∃ nodes, submitterNodes params reads runtimeMsg = .ok nodes ∧
          isEligible reads nodes = .ok true) ∧
        reads.proposal = .error .unavailable := by
  unfold castVote
  cases mode with
  | checkTx => simp
  | simulation =>
    simp only [reduceCtorEq, if_false, if_true, false_and, iff_false]
    cases ga.useGas 1 GasOp.castVote params.gasCosts <;> simp
  | deliverTx =>
    simp only [reduceCtorEq, if_false, true_and]
    cases ga.useGas 1 GasOp.castVote params.gasCosts with
    | error e => simp
    | ok ga₁ =>
      simp only [Except.mapError_ok, Except.ok_bind]
      constructor
      · intro h
        obtain hd | ⟨s₁, -, hpure⟩ := Except.bind_eq_error.mp h
        · exact ⟨⟨ga₁, rfl⟩, deliverVote_eq_nilDereference_iff.mp hd⟩
        · exact absurd hpure Except.pure_ne_error
      · rintro ⟨-, hrest⟩
        rw [deliverVote_eq_nilDereference_iff.mpr hrest]
        rfl

end CastVote

section StateReads

variable {space : AddressSpace Addr} {r : Addr → Addr → Prop} [DecidableRel r]
  {params : CastVoteParameters} {st : AppState Addr} {entity : Option (List NodeID)}
  {validators : List (ValidatorEntry NodeID Addr)} {ga : BasicGasAccountant}
  {submitterAddr : Addr} {runtimeMsg : Bool}

theorem isEligible_stateReads (id : UInt64) (nodes : List NodeID) :
    isEligible (stateReads st entity validators submitterAddr id) nodes =
      .ok (decide ((∃ n ∈ nodes, ∃ v ∈ validators, v.id = n) ∨
        ∃ d ∈ (st.staking.delegationsFor submitterAddr).keys, ∃ v ∈ validators,
          v.entityAddress = d)) := by
  unfold isEligible stateReads
  simp only [Except.mapError_ok, Except.ok_bind]
  by_cases hnode : ∃ n ∈ nodes, ∃ v ∈ validators, v.id = n
  · rw [if_pos (by simpa [List.any_eq_true] using hnode), Except.pure_eq_ok, eq_comm,
      decide_eq_true_iff]
    exact Or.inl hnode
  · rw [if_neg (by simpa [List.any_eq_true] using hnode), Except.pure_eq_ok]
    simp only [hnode, false_or]

/-- On the answers of the state, `castVote`'s two eligibility steps pass exactly for an
eligible caller. -/
theorem eligible_stateReads (id : UInt64) :
    (∃ nodes, submitterNodes params (stateReads st entity validators submitterAddr id)
        runtimeMsg = .ok nodes ∧
      isEligible (stateReads st entity validators submitterAddr id) nodes = .ok true) ↔
      Eligible params.allowVoteWithoutEntity runtimeMsg entity validators
        (st.staking.delegationsFor submitterAddr).keys := by
  simp only [isEligible_stateReads, Except.ok.injEq, decide_eq_true_eq]
  unfold submitterNodes Eligible
  cases hallow : params.allowVoteWithoutEntity <;> cases runtimeMsg <;> cases entity <;>
    simp [stateReads]

/-- On a state whose queries do not fail and whose proposals are stored under their IDs,
a `DeliverTx` of `castVote` succeeds exactly when the gas is paid, the caller's address
is valid, the caller is eligible and the proposal exists and is active; it then stores
the vote under (proposal ID, caller) and nothing else. -/
theorem castVote_stateReads_eq_ok (hwk : st.governance.WellKeyed) {proposalVote : ProposalVote}
    {s' : GovernanceState Addr} {ga' : BasicGasAccountant} :
    castVote space r .deliverTx params
        (stateReads st entity validators submitterAddr proposalVote.id) st.governance ga
        submitterAddr proposalVote runtimeMsg = .ok (s', ga') ↔
      ga.useGas 1 GasOp.castVote params.gasCosts = .ok ga' ∧
        space.isValid submitterAddr = true ∧
        Eligible params.allowVoteWithoutEntity runtimeMsg entity validators
          (st.staking.delegationsFor submitterAddr).keys ∧
        (∃ p, st.governance.proposals.get proposalVote.id = some p ∧ p.state = .active) ∧
        s' = st.governance.setVote r proposalVote.id submitterAddr proposalVote.vote := by
  rw [castVote_deliverTx_eq_ok, deliverVote_eq_ok, eligible_stateReads]
  -- The state answers the proposal it stores.
  have hprop : ∀ p, (stateReads st entity validators submitterAddr proposalVote.id).proposal =
      .ok p ↔ st.governance.proposals.get proposalVote.id = some p := by
    intro p
    unfold stateReads
    cases st.governance.proposals.get proposalVote.id <;> simp
  simp only [hprop]
  constructor
  · rintro ⟨hgas, hvalid, helig, p, hp, hactive, rfl⟩
    exact ⟨hgas, hvalid, helig, ⟨p, hp, hactive⟩, by rw [hwk _ _ hp]⟩
  · rintro ⟨hgas, hvalid, helig, ⟨p, hp, hactive⟩, rfl⟩
    exact ⟨hgas, hvalid, helig, p, hp, hactive, by rw [hwk _ _ hp]⟩

/-- On a state whose queries do not fail, `castVote` never reaches the panic. -/
theorem castVote_stateReads_ne_nilDereference {mode : ContextMode} {s : GovernanceState Addr}
    {proposalVote : ProposalVote} :
    castVote space r mode params (stateReads st entity validators submitterAddr proposalVote.id)
      s ga submitterAddr proposalVote runtimeMsg ≠ .error .nilDereference := by
  rw [ne_eq, castVote_eq_nilDereference_iff]
  rintro ⟨-, -, -, -, hunavailable⟩
  unfold stateReads at hunavailable
  cases h : st.governance.proposals.get proposalVote.id <;> simp [h] at hunavailable

end StateReads

/-- The answers to a caller whose entity runs the validator node 1, and a proposal
lookup that fails in the storage. -/
def unavailableProposalReads : CastVoteReads ℕ ℕ where
  submitterEntity := .ok [1]
  currentValidators := .ok [⟨1, 1⟩]
  delegations := .ok ∅
  proposal := .error .unavailable

/-- An eligible caller votes in a `DeliverTx` while the proposal lookup fails with an
`UnavailableStateError`: `castVote` dereferences the nil proposal. -/
theorem castVote_unavailable_proposal_panics :
    castVote Staking.natAddressSpace (· ≤ ·) .deliverTx ⟨FinMap.empty, false⟩ unavailableProposalReads
      lifecycleStart.governance (Consensus.newGasAccountant 1000) 1 ⟨0, .yes⟩ false =
      .error .nilDereference := by
  rfl

end Governance

end OasisCore
