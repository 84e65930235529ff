import Mathlib.Algebra.BigOperators.Group.Finset.Piecewise
import OasisCore.Governance.Proposal
import OasisCore.Misc.List
import OasisCore.Staking.Genesis
import OasisCore.Staking.State

/-!
# Tallying a proposal

`validatorsEscrow` and `closeProposal` of
`go/consensus/cometbft/apps/governance/governance.go:338-518`. Only the entities of
the current validators vote with stake. A validator entity's vote puts all the
shares of its active escrow pool behind it; a delegator that votes moves the
shares of its delegations to validator entities over to its own vote. The shares
behind each vote are then valued in stake, pool by pool, and `CloseProposal`
decides.

The current validators are the entity addresses of the validator nodes, in the
order of Go's iteration over them; Go's map iterations are any `IterOrder`.
-/

namespace OasisCore

namespace Governance

open Staking

/-- `VoteEntry` (`go/governance/api/api.go`): a stored vote. -/
structure VoteEntry (Addr : Type) where
  voter : Addr
  vote : Vote
  deriving DecidableEq, Repr

/-- The errors of `closeProposal`. -/
inductive CloseError where
  /-- `subShares` took more shares off a vote than it had. -/
  | subShares (e : QuantityError)
  /-- Not an error value: a validator without a pool is a run-time panic. -/
  | missingValidatorPool
  | proposal (e : ProposalError)
  deriving DecidableEq, Repr

instance : Inhabited SharePool := ⟨⟨0, 0⟩⟩

variable {Addr : Type} [DecidableEq Addr]

/-- `validatorsEscrow` (`governance.go:338-372`): the total active escrow of the
validator entities, each counted once however many validator nodes it runs, and
their active escrow pools. -/
def validatorsEscrow (s : StakingState Addr) (validators : List Addr) :
    ℕ × FinMap Addr SharePool :=
  validators.foldl step (0, .empty)
where
  /-- One validator node of entity `entityAddr`. -/
  step (acc : ℕ × FinMap Addr SharePool) (entityAddr : Addr) : ℕ × FinMap Addr SharePool :=
    let (totalVotingStake, validatorEntitiesEscrow) := acc
    if entityAddr ∈ validatorEntitiesEscrow.keys then acc
    else
      let account := s.accounts.get entityAddr
      (totalVotingStake + account.escrow.active.balance,
        validatorEntitiesEscrow.set entityAddr account.escrow.active)

/-- `addShares` (`governance.go:500-508`). -/
def addShares (validatorVoteShares : FinMap Vote ℕ) (vote : Vote) (amount : ℕ) :
    FinMap Vote ℕ :=
  validatorVoteShares.set vote (amount + validatorVoteShares.get vote)

/-- `subShares` (`governance.go:510-518`). -/
def subShares (validatorVoteShares : FinMap Vote ℕ) (vote : Vote) (amount : ℕ) :
    Except QuantityError (FinMap Vote ℕ) := do
  let currShares ← Quantity.sub (validatorVoteShares.get vote) amount
  pure (validatorVoteShares.set vote currShares)

/-- The shares by vote of each validator entity before any vote: no shares, for
every entity of the validator set (`governance.go:402-405`). -/
def initVoteShares (validatorEntitiesPool : FinMap Addr SharePool) :
    FinMap Addr (FinMap Vote ℕ) :=
  ⟨validatorEntitiesPool.keys, fun _ => .empty, fun _ _ => rfl⟩

/-- One vote of the validator-vote loop (`governance.go:407-418`): a validator
entity's vote puts all the shares of its pool behind it. -/
def tallyValidatorVote (validatorEntitiesPool : FinMap Addr SharePool)
    (acc : FinMap Addr (Option Vote) × FinMap Addr (FinMap Vote ℕ)) (vote : VoteEntry Addr) :
    FinMap Addr (Option Vote) × FinMap Addr (FinMap Vote ℕ) :=
  let (validatorVotes, validatorVoteShares) := acc
  match validatorEntitiesPool.lookup vote.voter with
  -- Skip non-validator votes.
  | none => acc
  | some escrow =>
    (validatorVotes.set vote.voter (some vote.vote),
      validatorVoteShares.set vote.voter
        (addShares (validatorVoteShares.get vote.voter) vote.vote escrow.totalShares))

/-- One delegation, to `toAddr`, of a voting delegator (`governance.go:433-456`): a
delegation to a validator entity moves its shares from the entity's vote, when it
voted otherwise, to the delegator's. The flag records a delegation to a validator
entity. -/
def tallyDelegation (validatorEntitiesPool : FinMap Addr SharePool)
    (validatorVotes : FinMap Addr (Option Vote)) (vote : Vote) (delegations : FinMap Addr Delegation)
    (acc : FinMap Addr (FinMap Vote ℕ) × Bool) (toAddr : Addr) :
    Except QuantityError (FinMap Addr (FinMap Vote ℕ) × Bool) :=
  let (validatorVoteShares, _) := acc
  if toAddr ∉ validatorEntitiesPool.keys then .ok acc
  else
    let validatorVote := validatorVotes.get toAddr
    -- Skip if vote matches the delegated validator vote.
    if validatorVote = some vote then .ok (validatorVoteShares, true)
    else do
      -- Deduct shares from the validators shares.
      let shares ← match validatorVote with
        | some validatorVote =>
          subShares (validatorVoteShares.get toAddr) validatorVote (delegations.get toAddr).shares
        | none => pure (validatorVoteShares.get toAddr)
      -- Add shares to the voters vote.
      pure (validatorVoteShares.set toAddr
        (addShares shares vote (delegations.get toAddr).shares), true)

/-- One vote of the delegator-vote loop (`governance.go:420-461`): the voter's
delegations, and a count of the voters without a delegation to a validator
entity. -/
def tallyDelegatorVote (s : StakingState Addr) (order : IterOrder Addr)
    (validatorEntitiesPool : FinMap Addr SharePool) (validatorVotes : FinMap Addr (Option Vote))
    (acc : FinMap Addr (FinMap Vote ℕ) × ℕ) (vote : VoteEntry Addr) :
    Except QuantityError (FinMap Addr (FinMap Vote ℕ) × ℕ) := do
  let delegations := s.delegationsFor vote.voter
  let (validatorVoteShares, delegationToValidator) ←
    (order.enum delegations.keys).foldlM
      (tallyDelegation validatorEntitiesPool validatorVotes vote.vote delegations) (acc.1, false)
  pure (validatorVoteShares, if delegationToValidator then acc.2 else acc.2 + 1)

/-- The stake of one validator entity's shares for `vote`, added to the results
(`governance.go:470-484`). -/
def addResult (validatorPool : SharePool) (votes : FinMap Vote ℕ) (results : FinMap Vote ℕ)
    (vote : Vote) : FinMap Vote ℕ :=
  results.set vote (results.get vote + validatorPool.stakeForShares (votes.get vote))

/-- The conversion of the shares behind each vote into stake (`governance.go:463-485`). -/
def finalizeResults (order : IterOrder Addr) (voteOrder : IterOrder Vote)
    (validatorEntitiesPool : FinMap Addr SharePool)
    (validatorVoteShares : FinMap Addr (FinMap Vote ℕ)) : Except CloseError (FinMap Vote ℕ) :=
  (order.enum validatorVoteShares.keys).foldlM step .empty
where
  /-- The votes of one validator entity. -/
  step (results : FinMap Vote ℕ) (validator : Addr) : Except CloseError (FinMap Vote ℕ) :=
    match validatorEntitiesPool.lookup validator with
    | none => .error .missingValidatorPool
    | some validatorPool =>
      let votes := validatorVoteShares.get validator
      .ok ((voteOrder.enum votes.keys).foldl (addResult validatorPool votes) results)

/-- `closeProposal` (`governance.go:374-498`) with the stored votes of the proposal,
the total voting stake and the pools of `validatorsEscrow`, and the governance
parameter `StakeThreshold`. -/
def closeProposal (s : StakingState Addr) (order : IterOrder Addr) (voteOrder : IterOrder Vote)
    (stakeThreshold : UInt8) (votes : List (VoteEntry Addr)) (totalVotingStake : ℕ)
    (validatorEntitiesPool : FinMap Addr SharePool) (proposal : Proposal) :
    Except CloseError Proposal := do
  -- Tally the validator votes.
  let (validatorVotes, validatorVoteShares) :=
    votes.foldl (tallyValidatorVote validatorEntitiesPool)
      (.empty, initVoteShares validatorEntitiesPool)
  -- Tally delegator votes.
  let (validatorVoteShares, invalidVotes) ←
    (votes.foldlM (tallyDelegatorVote s order validatorEntitiesPool validatorVotes)
      (validatorVoteShares, proposal.invalidVotes)).mapError .subShares
  -- Finalize the voting results - convert votes in shares into results in stake.
  let results ← finalizeResults order voteOrder validatorEntitiesPool validatorVoteShares
  ({ proposal with results := some results, invalidVotes := invalidVotes }.closeProposal
    totalVotingStake stakeThreshold).mapError .proposal

/-! ## What the tally counts -/

/-- The vote `a` cast, if it voted. -/
def voteOf (votes : List (VoteEntry Addr)) (a : Addr) : Option Vote :=
  (votes.find? (·.voter = a)).map (·.vote)

/-- The vote a delegation of `delegator` to `v` counts for: the delegator's own if
it voted, else `v`'s. -/
def effectiveVote (votes : List (VoteEntry Addr)) (delegator v : Addr) : Option Vote :=
  (voteOf votes delegator).or (voteOf votes v)

/-- The shares of the delegations to `v` whose effective vote is `o`. -/
def votedShares (s : StakingState Addr) (votes : List (VoteEntry Addr)) (v : Addr) (o : Vote) :
    ℕ :=
  s.delegations.sum fun k shares => if k.1 = v ∧ effectiveVote votes k.2 v = some o then shares else 0

/-- The shares of the delegations to `v` that count for `o` once the delegators of
`cast` have voted, those of the others staying with `v`'s vote `validatorVote`. -/
def sharesFor (s : StakingState Addr) (cast : List (VoteEntry Addr))
    (validatorVote : Option Vote) (v : Addr) (o : Vote) : ℕ :=
  s.delegations.sum fun k shares =>
    if k.1 = v ∧ (voteOf cast k.2).or validatorVote = some o then shares else 0

section Spec

variable {s : StakingState Addr} {votes : List (VoteEntry Addr)}

theorem voteOf_append_singleton (done : List (VoteEntry Addr)) (e : VoteEntry Addr) (a : Addr) :
    voteOf (done ++ [e]) a = (voteOf done a).or (if e.voter = a then some e.vote else none) := by
  unfold voteOf
  rw [List.find?_append]
  cases done.find? (·.voter = a) with
  | some e' => rfl
  | none => by_cases ha : e.voter = a <;> simp [ha]

theorem voteOf_eq_none {done : List (VoteEntry Addr)} {a : Addr}
    (ha : a ∉ done.map (·.voter)) : voteOf done a = none := by
  unfold voteOf
  rw [Option.map_eq_none_iff, List.find?_eq_none]
  intro e he hvoter
  exact ha (List.mem_map.mpr ⟨e, he, by simpa using hvoter⟩)

theorem toFinset_append_singleton (l : List Addr) (a : Addr) :
    (l ++ [a]).toFinset = insert a l.toFinset := by
  ext x
  simp

/-- `validatorsEscrow` pools the active escrow of each validator entity once, and
its total is their balance. -/
theorem validatorsEscrow_spec (s : StakingState Addr) (validators : List Addr) :
    (validatorsEscrow s validators).2.keys = validators.toFinset ∧
      (∀ v ∈ validators.toFinset,
        (validatorsEscrow s validators).2.get v = (s.accounts.get v).escrow.active) ∧
      (validatorsEscrow s validators).1 =
        ∑ v ∈ validators.toFinset, (s.accounts.get v).escrow.active.balance := by
  unfold validatorsEscrow
  apply foldl_inv validators (fun done (acc : ℕ × FinMap Addr SharePool) =>
    acc.2.keys = done.toFinset ∧
      (∀ v ∈ done.toFinset, acc.2.get v = (s.accounts.get v).escrow.active) ∧
      acc.1 = ∑ v ∈ done.toFinset, (s.accounts.get v).escrow.active.balance)
  · rintro done e - ⟨total, pools⟩ - ⟨hkeys, hget, htotal⟩
    dsimp only at hkeys hget htotal
    rw [toFinset_append_singleton]
    by_cases hseen : e ∈ pools.keys
    -- An entity counted already, for another of its nodes.
    · have hins : insert e done.toFinset = done.toFinset := Finset.insert_eq_of_mem (hkeys ▸ hseen)
      simp only [validatorsEscrow.step, if_pos hseen, hins]
      exact ⟨hkeys, hget, htotal⟩
    · have hnew : e ∉ done.toFinset := hkeys ▸ hseen
      simp only [validatorsEscrow.step, if_neg hseen]
      refine ⟨by simp [hkeys], fun v hv => ?_, ?_⟩
      · by_cases hve : v = e
        · simp [hve]
        · simp only [FinMap.get_set, if_neg hve]
          exact hget v (by simpa [hve] using hv)
      · rw [Finset.sum_insert hnew, htotal, Nat.add_comm]
  · simp

/-- A voter of votes with distinct voters has not voted before its entry. -/
theorem voteOf_prefix_eq_none {done rest : List (VoteEntry Addr)} {e : VoteEntry Addr}
    (hvoters : (votes.map (·.voter)).Nodup) (hl : done ++ e :: rest = votes) :
    voteOf done e.voter = none := by
  apply voteOf_eq_none
  rw [← hl, List.map_append, List.map_cons, List.nodup_append] at hvoters
  intro hmem
  exact hvoters.2.2 _ hmem _ List.mem_cons_self rfl

/-- The validator-vote loop over votes of distinct voters records each validator
entity's vote, with all the shares of its pool behind it. -/
theorem tallyValidatorVote_foldl {pools : FinMap Addr SharePool}
    (hvoters : (votes.map (·.voter)).Nodup) {validatorVotes : FinMap Addr (Option Vote)}
    {shares : FinMap Addr (FinMap Vote ℕ)}
    (h : votes.foldl (tallyValidatorVote pools) (.empty, initVoteShares pools) =
      (validatorVotes, shares)) :
    (∀ v ∈ pools.keys, validatorVotes.get v = voteOf votes v) ∧ shares.keys = pools.keys ∧
      ∀ v ∈ pools.keys, ∀ o,
        (shares.get v).get o = if voteOf votes v = some o then (pools.get v).totalShares else 0 := by
  have hrun := foldl_inv votes (fun done (acc : FinMap Addr (Option Vote) × FinMap Addr (FinMap Vote ℕ)) =>
    (∀ v ∈ pools.keys, acc.1.get v = voteOf done v) ∧ acc.2.keys = pools.keys ∧
      ∀ v ∈ pools.keys, ∀ o,
        (acc.2.get v).get o = if voteOf done v = some o then (pools.get v).totalShares else 0)
    (g := tallyValidatorVote pools) ?step (b := (.empty, initVoteShares pools)) ?init
  · rw [h] at hrun
    exact hrun
  case init =>
    refine ⟨fun v _ => rfl, rfl, fun v _ o => ?_⟩
    simp [voteOf, initVoteShares]
  case step =>
    rintro done e rest ⟨vv, sh⟩ hl ⟨hvv, hkeys, hsh⟩
    have hfresh := voteOf_prefix_eq_none hvoters hl
    unfold tallyValidatorVote
    dsimp only at hvv hkeys hsh ⊢
    cases hlook : pools.lookup e.voter with
    | none =>
      -- A vote of a node that is not a validator entity changes nothing.
      have hnot : e.voter ∉ pools.keys := FinMap.lookup_eq_none.mp hlook
      have hsame : ∀ v ∈ pools.keys, voteOf (done ++ [e]) v = voteOf done v := by
        intro v hv
        rw [voteOf_append_singleton, if_neg (fun h : e.voter = v => hnot (h ▸ hv)), Option.or_none]
      refine ⟨fun v hv => ?_, hkeys, fun v hv o => ?_⟩
      · rw [hvv v hv, hsame v hv]
      · rw [hsh v hv o, hsame v hv]
    | some escrow =>
      obtain ⟨hmem, rfl⟩ := FinMap.lookup_eq_some.mp hlook
      have hself : voteOf (done ++ [e]) e.voter = some e.vote := by
        rw [voteOf_append_singleton, hfresh, if_pos rfl, Option.none_or]
      have hother : ∀ v, v ≠ e.voter → voteOf (done ++ [e]) v = voteOf done v := by
        intro v hve
        rw [voteOf_append_singleton, if_neg (Ne.symm hve), Option.or_none]
      refine ⟨fun v hv => ?_, by simp [hkeys, hmem], fun v hv o => ?_⟩
      · by_cases hve : v = e.voter
        · subst hve
          rw [FinMap.get_set_self, hself]
        · rw [FinMap.get_set_ne _ _ hve, hvv v hv, hother v hve]
      · by_cases hve : v = e.voter
        · subst hve
          -- The entity's own entry was empty: it had not voted.
          have hempty := hsh e.voter hv o
          rw [hfresh, if_neg (by simp)] at hempty
          by_cases ho : o = e.vote
          · subst ho
            simp [addShares, hself, hempty]
          · simp [addShares, hself, ho, hempty, Ne.symm ho]
        · rw [FinMap.get_set_ne _ _ hve, hsh v hv o, hother v hve]

/-- A voter's vote moves the shares of its delegation to `v`, and only those, from
`v`'s vote `validatorVote` to its own. -/
theorem sharesFor_append {done : List (VoteEntry Addr)} {e : VoteEntry Addr}
    (hfresh : voteOf done e.voter = none) (validatorVote : Option Vote) (v : Addr) (o : Vote) :
    sharesFor s (done ++ [e]) validatorVote v o +
        (if validatorVote = some o then s.delegations.get (v, e.voter) else 0) =
      sharesFor s done validatorVote v o +
        (if e.vote = o then s.delegations.get (v, e.voter) else 0) := by
  have hother : ∀ d, d ≠ e.voter → voteOf (done ++ [e]) d = voteOf done d := by
    intro d hd
    rw [voteOf_append_singleton, if_neg (Ne.symm hd), Option.or_none]
  have hself : voteOf (done ++ [e]) e.voter = some e.vote := by
    rw [voteOf_append_singleton, hfresh, if_pos rfl, Option.none_or]
  -- The summands differ at the delegation of the voter to `v` only.
  have hupdate := FinMap.sum_update
    (fun k shares => if k.1 = v ∧ (voteOf done k.2).or validatorVote = some o then shares else 0)
    (fun k shares =>
      if k.1 = v ∧ (voteOf (done ++ [e]) k.2).or validatorVote = some o then shares else 0)
    (fun _ => by simp) (fun _ => by simp) s.delegations (v, e.voter) (by
      rintro ⟨w, d⟩ hk
      funext shares
      by_cases hw : w = v
      · have hd : d ≠ e.voter := fun hd => hk (by rw [hw, hd])
        simp only [hother d hd]
      · simp [hw])
  simp only [hfresh, hself, Option.none_or, Option.some_or, true_and, Option.some.injEq]
    at hupdate
  unfold sharesFor
  omega

/-- One delegation of a voter to a validator entity moves its shares from the
entity's vote to the voter's: from an entry holding `A`, to one holding `B`. -/
theorem tallyDelegation_of_mem {pools : FinMap Addr SharePool}
    {validatorVotes : FinMap Addr (Option Vote)} {vote : Vote} {delegations : FinMap Addr Delegation}
    {sh : FinMap Addr (FinMap Vote ℕ)} {toAddr : Addr} {A B : Vote → ℕ} (flag : Bool)
    (hpool : toAddr ∈ pools.keys) (hA : ∀ o, (sh.get toAddr).get o = A o)
    (hmove : ∀ o, B o + (if validatorVotes.get toAddr = some o then
        (delegations.get toAddr).shares else 0) =
      A o + (if vote = o then (delegations.get toAddr).shares else 0)) :
    ∃ sh', tallyDelegation pools validatorVotes vote delegations (sh, flag) toAddr = .ok (sh', true) ∧
      (∀ v, v ≠ toAddr → sh'.get v = sh.get v) ∧ (toAddr ∈ sh.keys → sh'.keys = sh.keys) ∧
      ∀ o, (sh'.get toAddr).get o = B o := by
  unfold tallyDelegation
  dsimp only
  rw [if_neg (not_not.mpr hpool)]
  cases hvv : validatorVotes.get toAddr with
  | none =>
    -- The entity did not vote: the shares go to the voter's vote.
    rw [if_neg (by simp)]
    refine ⟨_, rfl, fun v hv => by simp [hv], fun hk => by simp [hk], fun o => ?_⟩
    have hm := hmove o
    rw [hvv] at hm
    by_cases ho : o = vote
    · subst ho
      simp [addShares, hA] at hm ⊢
      omega
    · simp [addShares, hA, ho, Ne.symm ho] at hm ⊢
      omega
  | some ov =>
    by_cases hsame : ov = vote
    -- Skip if vote matches the delegated validator vote.
    · subst hsame
      rw [if_pos rfl]
      refine ⟨sh, rfl, fun _ _ => rfl, fun _ => rfl, fun o => ?_⟩
      have hm := hmove o
      rw [hvv] at hm
      rw [hA]
      by_cases ho : ov = o <;> simp [ho] at hm <;> omega
    · rw [if_neg (by simpa using hsame)]
      -- The entity's vote holds the delegation's shares, which move.
      have henough : (delegations.get toAddr).shares ≤ (sh.get toAddr).get ov := by
        have hm := hmove ov
        rw [hvv, if_pos rfl, if_neg (Ne.symm hsame)] at hm
        rw [hA]
        omega
      have hsub : subShares (sh.get toAddr) ov (delegations.get toAddr).shares =
          .ok ((sh.get toAddr).set ov ((sh.get toAddr).get ov - (delegations.get toAddr).shares)) := by
        simp [subShares, Quantity.sub_eq_ok.mpr ⟨henough, rfl⟩]
      simp only [hsub]
      refine ⟨_, rfl, fun v hv => by simp [hv], fun hk => by simp [hk], fun o => ?_⟩
      have hm := hmove o
      rw [hvv] at hm
      by_cases ho : o = vote
      · subst ho
        simp [addShares, hA, hsame, Ne.symm hsame] at hm ⊢
        omega
      · by_cases hov : o = ov
        · subst hov
          rw [hA] at henough
          simp [addShares, hA, ho, Ne.symm ho] at hm ⊢
          omega
        · simp [addShares, hA, ho, hov, Ne.symm ho, Ne.symm hov] at hm ⊢
          omega

/-- A delegation to a node that is not a validator entity is skipped. -/
theorem tallyDelegation_of_not_mem {pools : FinMap Addr SharePool}
    {validatorVotes : FinMap Addr (Option Vote)} {vote : Vote} {delegations : FinMap Addr Delegation}
    {acc : FinMap Addr (FinMap Vote ℕ) × Bool} {toAddr : Addr} (hpool : toAddr ∉ pools.keys) :
    tallyDelegation pools validatorVotes vote delegations acc toAddr = .ok acc := by
  obtain ⟨sh, flag⟩ := acc
  unfold tallyDelegation
  dsimp only
  rw [if_pos hpool]

/-- Before any delegator has voted, the shares of a validator entity count for its
own vote. -/
theorem sharesFor_nil (validatorVote : Option Vote) (v : Addr) (o : Vote) :
    sharesFor s [] validatorVote v o = if validatorVote = some o then s.delegatedShares v else 0 := by
  unfold sharesFor StakingState.delegatedShares
  by_cases ho : validatorVote = some o
  · simp [voteOf, ho]
  · simp [voteOf, ho, FinMap.sum]

/-- The invariant of the loop over the delegations of a voter `e` not counted in
`done`, the escrow accounts `tdone` done: the shares of the validator entities in
`tdone` count `e`'s vote and those of the others do not yet, and the flag records a
validator entity in `tdone`. -/
def DelegationLoopInv (s : StakingState Addr) (votes : List (VoteEntry Addr))
    (pools : FinMap Addr SharePool) (done : List (VoteEntry Addr)) (e : VoteEntry Addr)
    (tdone : List Addr) (acc : FinMap Addr (FinMap Vote ℕ) × Bool) : Prop :=
  acc.1.keys = pools.keys ∧
    (∀ v ∈ pools.keys, ∀ o, (acc.1.get v).get o = if v ∈ tdone
      then sharesFor s (done ++ [e]) (voteOf votes v) v o
      else sharesFor s done (voteOf votes v) v o) ∧
    (acc.2 = true ↔ ∃ v ∈ tdone, v ∈ pools.keys)

/-- One delegation keeps the invariant of the delegation loop. -/
theorem DelegationLoopInv.step {order : IterOrder Addr} {pools : FinMap Addr SharePool}
    {validatorVotes : FinMap Addr (Option Vote)} {done : List (VoteEntry Addr)}
    {e : VoteEntry Addr} (hvv : ∀ v ∈ pools.keys, validatorVotes.get v = voteOf votes v)
    (hfresh : voteOf done e.voter = none) {tdone rest : List Addr} {toAddr : Addr}
    {acc : FinMap Addr (FinMap Vote ℕ) × Bool}
    (hl : tdone ++ toAddr :: rest = order.enum (s.delegationsFor e.voter).keys)
    (hinv : DelegationLoopInv s votes pools done e tdone acc) :
    ∃ acc', tallyDelegation pools validatorVotes e.vote (s.delegationsFor e.voter) acc toAddr =
      .ok acc' ∧ DelegationLoopInv s votes pools done e (tdone ++ [toAddr]) acc' := by
  obtain ⟨sh₀, flag₀⟩ := acc
  obtain ⟨hkeys₀, hsh₀, hflag₀⟩ := hinv
  dsimp only at hkeys₀ hsh₀ hflag₀
  -- The delegations are walked once each.
  have hnew : toAddr ∉ tdone := by
    have hnodup := order.nodup_enum (s.delegationsFor e.voter).keys
    rw [← hl, List.nodup_append] at hnodup
    exact fun hmem => hnodup.2.2 _ hmem _ List.mem_cons_self rfl
  by_cases hpool : toAddr ∈ pools.keys
  · obtain ⟨sh₁, hstep, hother, hkeys₁, hnew₁⟩ := tallyDelegation_of_mem
      (B := fun o => sharesFor s (done ++ [e]) (voteOf votes toAddr) toAddr o)
      flag₀ hpool (fun o => by rw [hsh₀ toAddr hpool o, if_neg hnew])
      (fun o => by
        rw [hvv toAddr hpool, StakingState.delegationsFor_get]
        exact sharesFor_append hfresh (voteOf votes toAddr) toAddr o)
    refine ⟨(sh₁, true), hstep, by rw [hkeys₁ (hkeys₀ ▸ hpool), hkeys₀], fun v hv o => ?_, ?_⟩
    · by_cases hvt : v = toAddr
      · subst hvt
        simp [hnew₁ o]
      · rw [hother v hvt, hsh₀ v hv o]
        simp [hvt]
    · simp only [true_iff, List.mem_append, List.mem_singleton]
      exact ⟨toAddr, .inr rfl, hpool⟩
  · refine ⟨(sh₀, flag₀), tallyDelegation_of_not_mem hpool, hkeys₀, fun v hv o => ?_, ?_⟩
    · have hvt : v ≠ toAddr := fun h => hpool (h ▸ hv)
      rw [hsh₀ v hv o]
      simp [hvt]
    · rw [hflag₀]
      simp only [List.mem_append, List.mem_singleton]
      constructor
      · rintro ⟨v, hv, hp⟩
        exact ⟨v, .inl hv, hp⟩
      · rintro ⟨v, hv | rfl, hp⟩
        · exact ⟨v, hv, hp⟩
        · exact absurd hp hpool

/-- A delegator's vote, not counted in `done`, over the validator entities' shares
that count `done`: the shares then count `done` and the vote, and the count of
invalid votes grows when no delegation of the voter is to a validator entity. -/
theorem tallyDelegatorVote_spec {pools : FinMap Addr SharePool}
    {validatorVotes : FinMap Addr (Option Vote)} {done : List (VoteEntry Addr)}
    {e : VoteEntry Addr} {sh : FinMap Addr (FinMap Vote ℕ)} (order : IterOrder Addr) (invalid : ℕ)
    (hvv : ∀ v ∈ pools.keys, validatorVotes.get v = voteOf votes v)
    (hkeys : sh.keys = pools.keys)
    (hsh : ∀ v ∈ pools.keys, ∀ o, (sh.get v).get o = sharesFor s done (voteOf votes v) v o)
    (hfresh : voteOf done e.voter = none) :
    ∃ sh', tallyDelegatorVote s order pools validatorVotes (sh, invalid) e =
        .ok (sh', if ∃ v ∈ pools.keys, (v, e.voter) ∈ s.delegations.keys then invalid
          else invalid + 1) ∧
      sh'.keys = pools.keys ∧
      ∀ v ∈ pools.keys, ∀ o, (sh'.get v).get o = sharesFor s (done ++ [e]) (voteOf votes v) v o := by
  obtain ⟨⟨sh', flag⟩, hloop, hkeys', hsh', hflag⟩ := Except.foldlM_eq_ok_of_inv
    (order.enum (s.delegationsFor e.voter).keys) (DelegationLoopInv s votes pools done e)
    (fun _ _ _ _ hl hinv => DelegationLoopInv.step hvv hfresh hl hinv)
    (b := (sh, false)) ⟨hkeys, fun v hv o => by simp [hsh v hv o], by simp⟩
  dsimp only at hkeys' hsh' hflag
  -- The flag: a delegation of the voter to a validator entity.
  have hflag' : flag = decide (∃ v ∈ pools.keys, (v, e.voter) ∈ s.delegations.keys) := by
    rw [Bool.eq_iff_iff, hflag, decide_eq_true_iff]
    simp only [IterOrder.mem_enum, StakingState.mem_delegationsFor_keys]
    exact ⟨fun ⟨v, hd, hp⟩ => ⟨v, hp, hd⟩, fun ⟨v, hp, hd⟩ => ⟨v, hd, hp⟩⟩
  refine ⟨sh', ?_, hkeys', fun v hv o => ?_⟩
  · unfold tallyDelegatorVote
    dsimp only
    rw [hloop, hflag']
    by_cases hto : ∃ v ∈ pools.keys, (v, e.voter) ∈ s.delegations.keys
    · simp [hto]
    · simp [hto]
  · rw [hsh' v hv o]
    split
    · rfl
    -- A validator entity the voter does not delegate to keeps its shares.
    · rename_i hnot
      have hd : s.delegations.get (v, e.voter) = 0 := by
        apply s.delegations.get_eq_default
        rw [← StakingState.mem_delegationsFor_keys, ← IterOrder.mem_enum order]
        exact hnot
      have hmove := sharesFor_append (s := s) hfresh (voteOf votes v) v o
      rw [hd] at hmove
      simp only [ite_self, Nat.add_zero] at hmove
      exact hmove.symm

/-- The delegator-vote loop over votes of distinct voters: the shares of each
validator entity end up behind the effective votes of its delegations, and the
invalid votes are those of voters without a delegation to a validator entity. -/
theorem tallyDelegatorVote_foldlM {pools : FinMap Addr SharePool}
    {validatorVotes : FinMap Addr (Option Vote)} (order : IterOrder Addr) (hvoters : (votes.map (·.voter)).Nodup)
    (hvv : ∀ v ∈ pools.keys, validatorVotes.get v = voteOf votes v)
    {sh : FinMap Addr (FinMap Vote ℕ)} (hkeys : sh.keys = pools.keys)
    (hsh : ∀ v ∈ pools.keys, ∀ o, (sh.get v).get o = sharesFor s [] (voteOf votes v) v o)
    (invalid : ℕ) :
    ∃ sh', votes.foldlM (tallyDelegatorVote s order pools validatorVotes) (sh, invalid) =
        .ok (sh', invalid + votes.countP
          (fun e => ¬ ∃ v ∈ pools.keys, (v, e.voter) ∈ s.delegations.keys)) ∧
      sh'.keys = pools.keys ∧ ∀ v ∈ pools.keys, ∀ o, (sh'.get v).get o = votedShares s votes v o := by
  obtain ⟨⟨sh', n⟩, hloop, hkeys', hsh', hn⟩ := Except.foldlM_eq_ok_of_inv votes
    (fun done (acc : FinMap Addr (FinMap Vote ℕ) × ℕ) =>
      acc.1.keys = pools.keys ∧
      (∀ v ∈ pools.keys, ∀ o, (acc.1.get v).get o = sharesFor s done (voteOf votes v) v o) ∧
      acc.2 = invalid + done.countP
        (fun e => ¬ ∃ v ∈ pools.keys, (v, e.voter) ∈ s.delegations.keys))
    (fun done e rest ⟨sh₀, n₀⟩ hl ⟨hkeys₀, hsh₀, hn₀⟩ => by
      obtain ⟨sh₁, hstep, hkeys₁, hsh₁⟩ :=
        tallyDelegatorVote_spec order n₀ hvv hkeys₀ hsh₀
          (voteOf_prefix_eq_none hvoters hl)
      refine ⟨_, hstep, hkeys₁, hsh₁, ?_⟩
      dsimp only at hn₀ ⊢
      rw [hn₀, List.countP_append, List.countP_singleton]
      by_cases hto : ∃ v ∈ pools.keys, (v, e.voter) ∈ s.delegations.keys
      · simp [hto]
      · simp only [hto, if_false, not_false_eq_true, decide_true, if_true]
        omega)
    (b := (sh, invalid)) ⟨hkeys, hsh, by simp⟩
  dsimp only at hkeys' hsh' hn
  rw [hn] at hloop
  exact ⟨sh', hloop, hkeys', fun v hv o => hsh' v hv o⟩

/-- Valuing shares apart rounds down at least as much as valuing them together. -/
theorem sum_stakeForShares_le {ι : Type} (p : SharePool) (t : Finset ι) (x : ι → ℕ) :
    ∑ i ∈ t, p.stakeForShares (x i) ≤ p.stakeForShares (∑ i ∈ t, x i) := by
  classical
  induction t using Finset.induction_on with
  | empty => simp
  | insert i t hi ih =>
    rw [Finset.sum_insert hi, Finset.sum_insert hi]
    calc p.stakeForShares (x i) + ∑ j ∈ t, p.stakeForShares (x j)
        ≤ p.stakeForShares (x i) + p.stakeForShares (∑ j ∈ t, x j) := Nat.add_le_add_left ih _
      _ ≤ p.stakeForShares (x i + ∑ j ∈ t, x j) := SharePool.stakeForShares_add_le p _ _

/-- The shares behind the votes of a validator entity are at most those delegated
to it: a delegation counts for one vote at most. -/
theorem sum_votedShares_le (t : Finset Vote) (v : Addr) :
    ∑ o ∈ t, votedShares s votes v o ≤ s.delegatedShares v := by
  unfold votedShares StakingState.delegatedShares FinMap.sum
  rw [Finset.sum_comm]
  apply Finset.sum_le_sum
  intro k _
  by_cases hk : k.1 = v
  · cases heff : effectiveVote votes k.2 v with
    | none => simp [heff]
    | some o₀ =>
      simp only [hk, heff, true_and, Option.some.injEq, if_true]
      rw [Finset.sum_ite_eq]
      split <;> simp
  · simp [hk]

/-- The results, stake by vote, from the validator entities' shares. -/
theorem finalizeResults_spec {pools : FinMap Addr SharePool} {sh : FinMap Addr (FinMap Vote ℕ)}
    (order : IterOrder Addr) (voteOrder : IterOrder Vote) (hkeys : sh.keys = pools.keys) :
    ∃ results, finalizeResults order voteOrder pools sh = .ok results ∧
      ∀ o, results.get o = ∑ v ∈ pools.keys, (pools.get v).stakeForShares ((sh.get v).get o) := by
  obtain ⟨results, hloop, hres⟩ := Except.foldlM_eq_ok_of_inv (order.enum sh.keys)
    (fun done (results : FinMap Vote ℕ) => ∀ o, results.get o =
      (done.map fun v => (pools.get v).stakeForShares ((sh.get v).get o)).sum)
    (f := finalizeResults.step voteOrder pools sh)
    (fun done v rest results hl hres => by
      have hv : v ∈ pools.keys := by
        rw [← hkeys, ← order.mem_enum, ← hl]
        simp
      have hstep : finalizeResults.step voteOrder pools sh results v =
          .ok ((voteOrder.enum (sh.get v).keys).foldl (addResult (pools.get v) (sh.get v)) results) := by
        simp [finalizeResults.step, FinMap.lookup_eq_some.mpr ⟨hv, rfl⟩]
      refine ⟨_, hstep, fun o => ?_⟩
      -- One entity's votes add its stake for `o` to the result for `o`.
      have hinner := foldl_add (fun r : FinMap Vote ℕ => r.get o)
        (addResult (pools.get v) (sh.get v))
        (fun o' => if o' = o then (pools.get v).stakeForShares ((sh.get v).get o') else 0)
        (fun r o' => by
          by_cases ho : o = o'
          · subst ho
            simp [addResult]
          · simp [addResult, ho, Ne.symm ho])
        (voteOrder.enum (sh.get v).keys) results
      rw [hinner, IterOrder.sum_map_enum, Finset.sum_ite_eq', hres o, List.map_append,
        List.sum_append]
      by_cases hmem : o ∈ (sh.get v).keys
      · simp [hmem]
      · simp [hmem, (sh.get v).get_eq_default o hmem])
    (b := .empty) (fun o => by simp)
  refine ⟨results, hloop, fun o => ?_⟩
  rw [hres o, IterOrder.sum_map_enum, hkeys]

/-- The stake behind all votes is at most the pools' balance: the shares behind the
votes of an entity are at most those of its pool, and valuing them vote by vote
rounds down. -/
theorem sum_results_le {pools : FinMap Addr SharePool}
    (hshares : ∀ v ∈ pools.keys, (pools.get v).totalShares = s.delegatedShares v)
    {results : FinMap Vote ℕ}
    (hres : ∀ o, results.get o =
      ∑ v ∈ pools.keys, (pools.get v).stakeForShares (votedShares s votes v o)) :
    results.sum (fun _ q => q) ≤ ∑ v ∈ pools.keys, (pools.get v).balance := by
  unfold FinMap.sum
  simp only [hres]
  rw [Finset.sum_comm]
  apply Finset.sum_le_sum
  intro v hv
  calc ∑ o ∈ results.keys, (pools.get v).stakeForShares (votedShares s votes v o)
      ≤ (pools.get v).stakeForShares (∑ o ∈ results.keys, votedShares s votes v o) :=
        sum_stakeForShares_le _ _ _
    _ ≤ (pools.get v).balance := by
        apply SharePool.stakeForShares_le_balance
        rw [hshares v hv]
        exact sum_votedShares_le _ v

end Spec

/-- The tally of a proposal closing over votes of distinct voters, when the
validator entities' pools hold the shares of their delegations (as the ledger
invariant has it), their total balance is positive and the threshold is
positive: `closeProposal` succeeds; the result for each vote is, over the
validator entities, each once, the stake of the shares whose effective vote it is;
the results add up to at most the total voting stake, the entities' active escrow;
the invalid votes grow by the voters without a delegation to a validator entity;
and the proposal passes exactly when `100 * yes ≥ StakeThreshold * total`, and is
rejected otherwise. -/
theorem closeProposal_tally (s : StakingState Addr) (order : IterOrder Addr)
    (voteOrder : IterOrder Vote) (stakeThreshold : UInt8) (validators : List Addr)
    (votes : List (VoteEntry Addr)) (proposal : Proposal)
    (hshares : ∀ v ∈ validators, (s.accounts.get v).escrow.active.totalShares = s.delegatedShares v)
    (hvoters : (votes.map (·.voter)).Nodup) (hactive : proposal.state = .active)
    (hstake : 0 < (validatorsEscrow s validators).1) (hthreshold : 0 < stakeThreshold.toNat) :
    ∃ p', closeProposal s order voteOrder stakeThreshold votes (validatorsEscrow s validators).1
        (validatorsEscrow s validators).2 proposal = .ok p' ∧
      ∃ results, p'.results = some results ∧
        (∀ o, results.get o = ∑ v ∈ validators.toFinset,
          (s.accounts.get v).escrow.active.stakeForShares (votedShares s votes v o)) ∧
        p'.votedSum ≤ (validatorsEscrow s validators).1 ∧
        (validatorsEscrow s validators).1 =
          ∑ v ∈ validators.toFinset, (s.accounts.get v).escrow.active.balance ∧
        p'.invalidVotes = proposal.invalidVotes + votes.countP
          (fun e => ¬ ∃ v ∈ validators.toFinset, (v, e.voter) ∈ s.delegations.keys) ∧
        (p'.state = .passed ↔
          stakeThreshold.toNat * (validatorsEscrow s validators).1 ≤ 100 * results.get .yes) ∧
        (p'.state = .rejected ↔
          ¬ stakeThreshold.toNat * (validatorsEscrow s validators).1 ≤ 100 * results.get .yes) := by
  have hspec := validatorsEscrow_spec s validators
  generalize validatorsEscrow s validators = ve at hspec hstake ⊢
  obtain ⟨total, pools⟩ := ve
  obtain ⟨hpkeys, hpget, htotal⟩ := hspec
  dsimp only at hpkeys hpget htotal hstake ⊢
  have hpools : ∀ v ∈ pools.keys, (pools.get v).totalShares = s.delegatedShares v := by
    intro v hv
    rw [hpkeys] at hv
    rw [hpget v hv]
    exact hshares v (List.mem_toFinset.mp hv)
  -- The validator-vote loop, the delegator-vote loop and the results.
  generalize hl1 : votes.foldl (tallyValidatorVote pools) (.empty, initVoteShares pools) = r1
  obtain ⟨validatorVotes, sh₁⟩ := r1
  obtain ⟨hvv, hkeys₁, hsh₁⟩ := tallyValidatorVote_foldl hvoters hl1
  obtain ⟨sh₂, hl2, hkeys₂, hsh₂⟩ := tallyDelegatorVote_foldlM (s := s) order hvoters hvv
    hkeys₁ (fun v hv o => by rw [hsh₁ v hv o, sharesFor_nil, hpools v hv]) proposal.invalidVotes
  obtain ⟨results, hl3, hres⟩ := finalizeResults_spec order voteOrder hkeys₂
  have hres' : ∀ o, results.get o =
      ∑ v ∈ pools.keys, (pools.get v).stakeForShares (votedShares s votes v o) := by
    intro o
    rw [hres o]
    exact Finset.sum_congr rfl fun v hv => by rw [hsh₂ v hv o]
  -- The proposal with its results, and how `CloseProposal` decides it.
  let tallied : Proposal :=
    { proposal with
      results := some results
      invalidVotes := proposal.invalidVotes + votes.countP
        (fun e => ¬ ∃ v ∈ pools.keys, (v, e.voter) ∈ s.delegations.keys) }
  have hvoted : tallied.votedSum ≤ total := by
    have hbalance : ∑ v ∈ pools.keys, (pools.get v).balance = total := by
      rw [htotal, hpkeys]
      exact Finset.sum_congr rfl fun v hv => by rw [hpget v hv]
    show results.sum (fun _ q => q) ≤ total
    rw [← hbalance]
    exact sum_results_le hpools hres'
  have hclose := Proposal.closeProposal_eq_ok (p := tallied) hactive rfl hstake hvoted hthreshold
  have hrun : closeProposal s order voteOrder stakeThreshold votes total pools proposal =
      (tallied.closeProposal total stakeThreshold).mapError .proposal := by
    unfold closeProposal
    simp only [hl1, hl2, Except.mapError_ok, Except.ok_bind, hl3]
    rfl
  refine ⟨{ tallied with state :=
      if stakeThreshold.toNat * total ≤ 100 * results.get .yes then .passed else .rejected },
    by rw [hrun, hclose, Except.mapError_ok], results, rfl, fun o => ?_, hvoted, htotal,
    by simp [tallied, hpkeys], ?_, ?_⟩
  · rw [hres', ← hpkeys]
    exact Finset.sum_congr rfl fun v hv => by rw [hpget v (hpkeys ▸ hv)]
  · split <;> simp_all
  · split <;> simp_all

/-! ## A tally and a failing close -/

/-- The votes in the order of their constants. -/
def voteConstOrder : IterOrder Vote :=
  .ofList [.yes, .no, .abstain] (by decide) fun o => by cases o <;> decide

/-- Entity `1` runs the validators; its active escrow pool holds 100 tokens in 100
shares, 60 delegated by itself and 40 by account `2`. -/
def tallyState : StakingState ℕ where
  parameters := zeroShareParameters
  accounts := FinMap.empty.set 1 { escrow := { active := ⟨100, 100⟩ } }
  delegations := (FinMap.empty.set (1, 1) 60).set (1, 2) 40
  debondingDelegations := .empty
  debondingQueue := ∅
  totalSupply := 100
  commonPool := 0
  lastBlockFees := 0
  governanceDeposits := 0

/-- The validator entity votes yes and its delegator `2` no: the 40 shares of `2`
count for no, and 60 of 100 tokens fall short of a two-thirds threshold. -/
theorem closeProposal_tally_rejected :
    ∃ p', closeProposal tallyState (.sorted (· ≤ ·)) voteConstOrder 67 [⟨1, .yes⟩, ⟨2, .no⟩]
        (validatorsEscrow tallyState [1]).1 (validatorsEscrow tallyState [1]).2
        ⟨.active, none, 0⟩ = .ok p' ∧ p'.state = .rejected := by
  obtain ⟨p', hrun, results, -, hres, -, -, -, -, hrejected⟩ :=
    closeProposal_tally tallyState (.sorted (· ≤ ·)) voteConstOrder 67 [1] [⟨1, .yes⟩, ⟨2, .no⟩]
      ⟨.active, none, 0⟩ (by decide) (by decide) rfl (by decide) (by decide)
  refine ⟨p', hrun, hrejected.mpr ?_⟩
  rw [hres .yes]
  decide

/-- `tallyState` with no accounts and no delegations: entity `1` still runs the
validators, with an empty pool. -/
def unstakedState : StakingState ℕ :=
  { tallyState with accounts := .empty, delegations := .empty, totalSupply := 0 }

/-- No stake behind the validator entities, whose pools hold their delegations'
shares: `CloseProposal` rejects the zero total voting stake, and closing the
proposal fails. -/
theorem closeProposal_zero_voting_stake :
    (∀ v ∈ [1], (unstakedState.accounts.get v).escrow.active.totalShares =
      unstakedState.delegatedShares v) ∧
    closeProposal unstakedState (.sorted (· ≤ ·)) voteConstOrder 67 [⟨1, .yes⟩]
        (validatorsEscrow unstakedState [1]).1 (validatorsEscrow unstakedState [1]).2
        ⟨.active, none, 0⟩ = .error (.proposal .totalVotingStakeZero) := by
  refine ⟨by decide, ?_⟩
  rfl

end Governance

end OasisCore
