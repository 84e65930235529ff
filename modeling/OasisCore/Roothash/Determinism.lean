import OasisCore.Roothash.Pool

/-!
# The order of the walks of `ProcessCommitments`

`processCommitments` (`pool.go:328-452`) walks the committee's member slice, whose
order is fixed, and reads the votes of the lead's entry by key. The one Go map it
ranges over is the count of votes by hash in discrepancy resolution
(`pool.go:413-424`), where it keeps the first strict maximum; `ProcessCommitments`
(`pool.go:309-326`) then drops entries, which the model renders as a filter.

Over any enumeration of the counted hashes the search ends with the same count, the
largest. The check reads the hash only once that count is a majority of the counted
members, and as no more votes are counted than members, the hash is then the one hash
with a strict majority. So neither the result nor the pool after the call depends on
the order of the walk.
-/

namespace OasisCore

namespace Roothash

open Scheduler Pool

variable {N H M : Type}

section BestVote

variable [DecidableEq H] (votes : FinMap H ℕ)

omit [DecidableEq H] in
/-- The search ends with its start or with a hash of the walk and that hash's count,
and its count bounds its start and every count it met. -/
theorem bestVote_spec : ∀ (hs : List H) (acc : Option H × ℕ),
    acc.2 ≤ (bestVote votes hs acc).2 ∧ (∀ h ∈ hs, votes.get h ≤ (bestVote votes hs acc).2) ∧
      (bestVote votes hs acc = acc ∨ ∃ h ∈ hs, bestVote votes hs acc = (some h, votes.get h))
  | [], acc => ⟨le_rfl, by simp, .inl rfl⟩
  | x :: hs, (hash, best) => by
    unfold bestVote
    split
    · rename_i hgt
      obtain ⟨hacc, hall, hend⟩ := bestVote_spec hs (some x, votes.get x)
      dsimp only at hacc hgt ⊢
      refine ⟨by omega, ?_, .inr ?_⟩
      · intro h hh
        rcases List.mem_cons.mp hh with rfl | hh
        · exact hacc
        · exact hall h hh
      · rcases hend with hend | ⟨h, hh, hend⟩
        · exact ⟨x, List.mem_cons_self, hend⟩
        · exact ⟨h, List.mem_cons_of_mem _ hh, hend⟩
    · rename_i hle
      obtain ⟨hacc, hall, hend⟩ := bestVote_spec hs (hash, best)
      dsimp only at hacc hle ⊢
      refine ⟨hacc, ?_, ?_⟩
      · intro h hh
        rcases List.mem_cons.mp hh with rfl | hh
        · omega
        · exact hall h hh
      · rcases hend with hend | ⟨h, hh, hend⟩
        · exact .inl hend
        · exact .inr ⟨h, List.mem_cons_of_mem _ hh, hend⟩

/-- Walks over the same hashes end with the same count. -/
theorem bestVote_snd_eq {hs hs' : List H} (hmem : ∀ h, h ∈ hs ↔ h ∈ hs') :
    (bestVote votes hs (none, 0)).2 = (bestVote votes hs' (none, 0)).2 := by
  have hle : ∀ {l l' : List H}, (∀ h, h ∈ l → h ∈ l') →
      (bestVote votes l (none, 0)).2 ≤ (bestVote votes l' (none, 0)).2 := by
    intro l l' hsub
    obtain ⟨-, -, hend⟩ := bestVote_spec votes l (none, 0)
    obtain ⟨-, hall', -⟩ := bestVote_spec votes l' (none, 0)
    rcases hend with hend | ⟨h, hh, hend⟩
    · rw [hend]
      exact Nat.zero_le _
    · rw [hend]
      exact hall' h (hsub h hh)
  exact le_antisymm (hle fun h => (hmem h).mp) (hle fun h => (hmem h).mpr)

/-- Of counts that add up to at most `total`, at most one is over half of `total`. -/
theorem eq_of_lt_two_mul {total : ℕ} (htotal : votes.sum (fun _ v => v) ≤ total) {h h' : H}
    (hh : total < 2 * votes.get h) (hh' : total < 2 * votes.get h') : h = h' := by
  by_contra hne
  have hpair := FinMap.add_le_sum (fun _ v => v) (fun _ => rfl) votes hne
  omega

/-- Once the search ends with a count over half of `total`, it ends with the one hash
whose count is over half of `total`. -/
theorem bestVote_eq_of_majority {total : ℕ} (htotal : votes.sum (fun _ v => v) ≤ total)
    (hs : List H) (hmaj : total < 2 * (bestVote votes hs (none, 0)).2) :
    ∃ h, (bestVote votes hs (none, 0)).1 = some h ∧ ∀ h', total < 2 * votes.get h' ↔ h' = h := by
  obtain ⟨-, -, hend⟩ := bestVote_spec votes hs (none, 0)
  rcases hend with hend | ⟨h, -, hend⟩
  · rw [hend] at hmaj
    dsimp only at hmaj
    omega
  rw [hend] at hmaj ⊢
  refine ⟨h, rfl, fun h' => ⟨fun hh' => eq_of_lt_two_mul votes htotal hh' hmaj, ?_⟩⟩
  rintro rfl
  exact hmaj

end BestVote

section Tally

variable [DecidableEq N] [DecidableEq H] {counted : Role} {votes : FinMap N (Option H)}

/-- Counting a member adds a vote only with the member. -/
theorem VoteTally.sum_votes_count_le {t : VoteTally H} (n : CommitteeNode N)
    (ht : t.votes.sum (fun _ v => v) ≤ t.total) :
    (t.count counted votes n).votes.sum (fun _ v => v) ≤ (t.count counted votes n).total := by
  unfold VoteTally.count
  by_cases hrole : n.role = counted
  · rw [if_neg (not_not.mpr hrole)]
    cases votes.lookup n.publicKey with
    | none =>
      dsimp only
      omega
    | some vote =>
      cases vote with
      | none =>
        dsimp only [VoteTally.record]
        omega
      | some v =>
        have hset := FinMap.sum_set (fun _ v => v) (fun _ => rfl) t.votes v (t.votes.get v + 1)
        dsimp only [VoteTally.record] at hset ⊢
        omega
  · rw [if_pos hrole]
    exact ht

/-- No more votes are counted than members. -/
theorem VoteTally.sum_votes_foldl_le :
    ∀ (ns : List (CommitteeNode N)) {t : VoteTally H}, t.votes.sum (fun _ v => v) ≤ t.total →
      (ns.foldl (VoteTally.count counted votes) t).votes.sum (fun _ v => v) ≤
        (ns.foldl (VoteTally.count counted votes) t).total
  | [], _, ht => ht
  | n :: ns, _, ht => VoteTally.sum_votes_foldl_le ns (VoteTally.sum_votes_count_le n ht)

/-- The tally of a gathering loop that did not exit counts no more votes than members. -/
theorem sum_votes_le_of_gatherVotes {p : Pool N H M} {sc : SchedulerCommitment N H M}
    {s : UInt16} {timeout : Bool} {ns : List (CommitteeNode N)} {t : VoteTally H}
    (h : p.gatherVotes sc s timeout ns {} = .ok t) : t.votes.sum (fun _ v => v) ≤ t.total := by
  rw [gatherVotes_eq_ok h]
  exact VoteTally.sum_votes_foldl_le ns (Nat.zero_le _)

end Tally

namespace Pool

variable [DecidableEq N] [DecidableEq H] (resultsHash : ComputeResultsHeader H → H)

omit [DecidableEq N] in
/-- Discrepancy resolution gives the same answer in every order of the walk over the
counted hashes. -/
theorem checkResolution_order (o₁ o₂ : IterOrder H) (sc : SchedulerCommitment N H M)
    (timeout : Bool) {t : VoteTally H} (ht : t.votes.sum (fun _ v => v) ≤ t.total) :
    checkResolution resultsHash o₁.enum sc timeout t =
      checkResolution resultsHash o₂.enum sc timeout t := by
  have hsnd := bestVote_snd_eq t.votes fun h =>
    (o₁.mem_enum t.votes.keys h).trans (o₂.mem_enum t.votes.keys h).symm
  have hhash : t.total < 2 * (bestVote t.votes (o₁.enum t.votes.keys) (none, 0)).2 →
      (bestVote t.votes (o₁.enum t.votes.keys) (none, 0)).1 =
        (bestVote t.votes (o₂.enum t.votes.keys) (none, 0)).1 := by
    intro hmaj
    obtain ⟨h, hh, hall⟩ := bestVote_eq_of_majority t.votes ht _ hmaj
    obtain ⟨h', hh', hall'⟩ := bestVote_eq_of_majority t.votes ht _ (hsnd ▸ hmaj)
    have hmaj' : t.total < 2 * t.votes.get h' := (hall' h').mpr rfl
    rw [hh, hh', (hall h').mp hmaj']
  unfold checkResolution
  generalize bestVote t.votes (o₁.enum t.votes.keys) (none, 0) = r₁ at hsnd hhash ⊢
  generalize bestVote t.votes (o₂.enum t.votes.keys) (none, 0) = r₂ at hsnd hhash ⊢
  obtain ⟨hash₁, best₁⟩ := r₁
  obtain ⟨hash₂, best₂⟩ := r₂
  dsimp only at hsnd hhash ⊢
  subst hsnd
  by_cases hmaj : t.total < 2 * best₁
  · rw [hhash hmaj]
  · have hlt : (best₁ : ℤ) < t.total / 2 + 1 := by omega
    simp only [hlt, true_and, ↓reduceIte]

/-- `processCommitments` gives the same answer in every order of the walk. -/
theorem processCommitments_order (o₁ o₂ : IterOrder H) (p : Pool N H M) (c : Committee N)
    (s : UInt16) (timeout : Bool) :
    p.processCommitments resultsHash o₁.enum c s timeout =
      p.processCommitments resultsHash o₂.enum c s timeout := by
  unfold processCommitments
  by_cases hmem : p.highestRank ∈ p.schedulerCommitments.keys
  · rw [if_neg (not_not.mpr hmem), if_neg (not_not.mpr hmem)]
    dsimp only
    cases hg : p.gatherVotes (p.schedulerCommitments.get p.highestRank) s timeout c.members {} with
    | error e => rw [Except.error_bind, Except.error_bind]
    | ok t =>
      rw [Except.ok_bind, Except.ok_bind,
        checkResolution_order resultsHash o₁ o₂ _ timeout (sum_votes_le_of_gatherVotes hg)]
  · rw [if_pos hmem, if_pos hmem]

/-- The walks of `ProcessCommitments` do not change its outcome: in every order of the
Go maps it returns the same error or entry and leaves the same pool, and the hash that
the search of discrepancy resolution ends with is read only when it has the count of
the one hash that a strict majority of the counted members voted for. -/
theorem processCommitments_deterministic (p : Pool N H M) (c : Committee N) (s : UInt16)
    (timeout : Bool) :
    (∀ o₁ o₂ : IterOrder H,
      p.processCommitmentsAndSwitch resultsHash o₁.enum c s timeout =
        p.processCommitmentsAndSwitch resultsHash o₂.enum c s timeout) ∧
    ∀ (o : IterOrder H) (t : VoteTally H),
      p.gatherVotes (p.schedulerCommitments.get p.highestRank) s timeout c.members {} = .ok t →
      (t.total : ℤ) / 2 + 1 ≤ (bestVote t.votes (o.enum t.votes.keys) (none, 0)).2 →
        ∃ h, (bestVote t.votes (o.enum t.votes.keys) (none, 0)).1 = some h ∧
          ∀ h', t.total < 2 * t.votes.get h' ↔ h' = h := by
  constructor
  · intro o₁ o₂
    unfold processCommitmentsAndSwitch
    rw [processCommitments_order resultsHash o₁ o₂]
  · intro o t ht hreq
    have hmaj : t.total < 2 * (bestVote t.votes (o.enum t.votes.keys) (none, 0)).2 := by
      omega
    exact bestVote_eq_of_majority t.votes (sum_votes_le_of_gatherVotes ht) _ hmaj

end Pool

end Roothash

end OasisCore
