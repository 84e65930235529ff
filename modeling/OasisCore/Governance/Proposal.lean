import OasisCore.Misc.FinMap

/-!
# Governance proposals

The votes, the proposal states and `CloseProposal` of
`go/governance/api/proposal.go`: a proposal closes as passed when the stake that
voted yes is at least `StakeThreshold` percent of the total voting stake.

Stake amounts are `quantity.Quantity` values, unbounded naturals here. A proposal's
ID, submitter, deposit, content and epochs are read by neither `CloseProposal` nor
the tally that calls it, and are left out; so are the `uint8` values of `Vote` and
`ProposalState` outside their named constants, which no stored proposal or vote
holds.
-/

namespace OasisCore

namespace Governance

/-- `Vote` (`proposal.go:172-181`). -/
inductive Vote where
  | yes
  | no
  | abstain
  deriving DecidableEq, Repr

/-- `ProposalState` (`proposal.go:12-25`). -/
inductive ProposalState where
  | active
  | passed
  | rejected
  | failed
  deriving DecidableEq, Repr

/-- What `CloseProposal` reads and writes of a `Proposal` (`proposal.go:78-103`):
its state, its results by vote (`nil` until it closes) and its count of invalid
votes. -/
structure Proposal where
  state : ProposalState
  results : Option (FinMap Vote ℕ)
  invalidVotes : ℕ

/-- The errors of `CloseProposal`, each wrapping `errInvalidProposalState`
(`proposal.go:76`). -/
inductive ProposalError where
  | notActive (state : ProposalState)
  | resultsNotInitialized
  | totalVotingStakeZero
  | votedStakeExceedsTotal (voted total : ℕ)
  deriving DecidableEq, Repr

namespace Proposal

/-- `VotedSum` (`proposal.go:105-114`): the stake of all votes. -/
def votedSum (p : Proposal) : ℕ :=
  match p.results with
  | none => 0
  | some results => results.sum fun _ q => q

/-- `CloseProposal` (`proposal.go:116-169`): the proposal passes when the yes votes,
as a percentage of the total voting stake rounded down, reach the threshold. -/
def closeProposal (p : Proposal) (totalVotingStake : ℕ) (stakeThreshold : UInt8) :
    Except ProposalError Proposal :=
  if p.state ≠ .active then .error (.notActive p.state)
  else
    match p.results with
    | none => .error .resultsNotInitialized
    | some results =>
      if totalVotingStake = 0 then .error .totalVotingStakeZero
      -- Ensure Voted is not more than the total possible voting stake.
      else if p.votedSum > totalVotingStake then
        .error (.votedStakeExceedsTotal p.votedSum totalVotingStake)
      else
        let votedYesStake := results.get .yes
        -- If there's no yes votes, we can early reject the vote.
        if votedYesStake = 0 then .ok { p with state := .rejected }
        else if votedYesStake * 100 / totalVotingStake < stakeThreshold.toNat then
          .ok { p with state := .rejected }
        else .ok { p with state := .passed }

/-- An active proposal with results within a positive total voting stake closes,
and passes exactly when `100 * yes ≥ StakeThreshold * total`: the rounding of the
percentage loses nothing against a whole threshold, and a positive threshold
rejects a proposal without yes votes as the early rejection does. -/
theorem closeProposal_eq_ok {p : Proposal} {results : FinMap Vote ℕ} {total : ℕ}
    {stakeThreshold : UInt8} (hactive : p.state = .active) (hresults : p.results = some results)
    (htotal : 0 < total) (hvoted : p.votedSum ≤ total) (hthreshold : 0 < stakeThreshold.toNat) :
    p.closeProposal total stakeThreshold = .ok { p with state :=
      if stakeThreshold.toNat * total ≤ 100 * results.get .yes then .passed else .rejected } := by
  unfold closeProposal
  rw [if_neg (by simp [hactive]), hresults]
  dsimp only
  rw [if_neg (by omega), if_neg (by omega)]
  by_cases hyes : results.get .yes = 0
  · -- Early rejection: a positive threshold of a positive total is not reached.
    have hlt : ¬ stakeThreshold.toNat * total ≤ 100 * results.get .yes := by
      rw [hyes, Nat.mul_zero, Nat.le_zero]
      exact Nat.ne_of_gt (Nat.mul_pos hthreshold htotal)
    rw [if_pos hyes, if_neg hlt]
  · have hpct : stakeThreshold.toNat ≤ results.get .yes * 100 / total ↔
        stakeThreshold.toNat * total ≤ 100 * results.get .yes := by
      rw [Nat.le_div_iff_mul_le htotal, Nat.mul_comm (results.get .yes)]
    rw [if_neg hyes]
    by_cases hpass : stakeThreshold.toNat * total ≤ 100 * results.get .yes
    · rw [if_neg (Nat.not_lt.mpr (hpct.mpr hpass)), if_pos hpass]
    · rw [if_pos (Nat.lt_of_not_le (fun h => hpass (hpct.mp h))), if_neg hpass]

end Proposal

end Governance

end OasisCore
