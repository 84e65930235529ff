import OasisCore.Misc.Except
import OasisCore.Staking.Genesis

/-!
# Block fees

The fees of a block are split in two halves of a relay
(`go/consensus/cometbft/apps/staking/fees.go`). At the end of the block
`disburseFeesP` keeps, of the block's fees `F`, the share of the voters and the next
proposer, `F * (vote + nextPropose) / (propose + vote + nextPropose)`, as the last block
fees, and pays the rest to the proposer, or to the common pool when there is none. At
the beginning of the next block `disburseFeesVQ` divides the last block fees among the
eligible validators; of each part the next proposer gets its weight's share for each
voter and each voter the rest, and what is left goes to the common pool.

With weights not all zero and at most as many voters as eligible validators, the two
halves pay out a block's fees in full and no payment fails
(`disburseFees_pays_out_block_fees`). `disburseFeesVQ` pays out the last block fees but
does not write them back: the stored `LastBlockFees` keep their value until
`disburseFeesP` overwrites them at the end of the block
(`disburseFeesVQ_keeps_lastBlockFees`).

Each payment is a `quantity.Move` from the amount left into an account's general
balance (`creditAccount`); it fails only when the amount left is short.
-/

namespace OasisCore

namespace Staking

variable {Addr : Type} [DecidableEq Addr]

/-- The account with `amount` more in its general balance. -/
def Account.addGeneralBalance (a : Account Addr) (amount : ℕ) : Account Addr :=
  { a with general := { a.general with balance := a.general.balance + amount } }

namespace StakingState

/-- A payment of the fee code (`fees.go:66-79`): `Account`, a `quantity.Move` of
`amount` from `src` into the account's general balance, and `SetAccount`; the state and
what is left of `src`. -/
def creditAccount (s : StakingState Addr) (addr : Addr) (src amount : ℕ) :
    Except QuantityError (StakingState Addr × ℕ) := do
  let acct := s.accounts.get addr
  let (balance, src) ← Quantity.move acct.general.balance src amount
  pure (s.setAccount addr { acct with general := { acct.general with balance } }, src)

/-- The payment of a proposer in both halves (`fees.go:63-84`, `fees.go:178-198`):
`amount` from `src` into the proposer's account, when there is a proposer and the
amount is not zero. -/
def payProposer (s : StakingState Addr) (proposerEntity : Option Addr) (src amount : ℕ) :
    Except QuantityError (StakingState Addr × ℕ) :=
  match proposerEntity with
  | some proposerAddr =>
    if amount ≠ 0 then s.creditAccount proposerAddr src amount else pure (s, src)
  | none => pure (s, src)

/-- The end of both halves (`fees.go:86-106`, `fees.go:224-244`): what is left of
`src` moves into the common pool. -/
def moveToCommonPool (s : StakingState Addr) (src : ℕ) : Except QuantityError (StakingState Addr) :=
  if src ≠ 0 then do
    let (commonPool, _) ← Quantity.move s.commonPool src src
    pure { s with commonPool }
  else pure s

/-- `disburseFeesP` (`fees.go:13-109`). -/
def disburseFeesP (s : StakingState Addr) (proposerEntity : Option Addr) (totalFees : ℕ) :
    Except QuantityError (StakingState Addr) :=
  if totalFees = 0 then .ok { s with lastBlockFees := totalFees }
  else do
    let params := s.parameters
    -- Compute how much to persist for voters and the next proposer.
    let weightVQ := params.feeSplitWeightVote + params.feeSplitWeightNextPropose
    let weightPVQ := weightVQ + params.feeSplitWeightPropose
    let feePersistAmt ← Quantity.quo (totalFees * weightVQ) weightPVQ
    let (feePersist, totalFees) ← Quantity.move 0 totalFees feePersistAmt
    let s := { s with lastBlockFees := feePersist }
    let feeProposerAmt := totalFees
    let (s, totalFees) ← s.payProposer proposerEntity totalFees feeProposerAmt
    s.moveToCommonPool totalFees

/-- The loop paying the voters in `disburseFeesVQ` (`fees.go:200-222`). -/
def payVoters (s : StakingState Addr) (votingEntities : List Addr) (lastBlockFees shareVote : ℕ) :
    Except QuantityError (StakingState Addr × ℕ) :=
  votingEntities.foldlM (fun acc voter => acc.1.creditAccount voter acc.2 shareVote)
    (s, lastBlockFees)

/-- `disburseFeesVQ` (`fees.go:111-247`); the stored last block fees are read and not
written. -/
def disburseFeesVQ (s : StakingState Addr) (proposerEntity : Option Addr)
    (numEligibleValidators : ℕ) (votingEntities : List Addr) :
    Except QuantityError (StakingState Addr) :=
  let lastBlockFees := s.lastBlockFees
  if lastBlockFees = 0 then .ok s
  else do
    let params := s.parameters
    let perValidator ← Quantity.quo lastBlockFees numEligibleValidators
    let denom := params.feeSplitWeightVote + params.feeSplitWeightNextPropose
    let shareNextProposer ←
      Quantity.quo (perValidator * params.feeSplitWeightNextPropose) denom
    let shareVote ← Quantity.sub perValidator shareNextProposer
    let nextProposerTotal := shareNextProposer * votingEntities.length
    let (s, lastBlockFees) ← s.payProposer proposerEntity lastBlockFees nextProposerTotal
    let (s, lastBlockFees) ← (if shareVote ≠ 0 then s.payVoters votingEntities lastBlockFees shareVote
      else pure (s, lastBlockFees) : Except QuantityError (StakingState Addr × ℕ))
    s.moveToCommonPool lastBlockFees

/-! ## One payment -/

/-- The general balance of `a`. -/
def generalBalance (s : StakingState Addr) (a : Addr) : ℕ :=
  (s.accounts.get a).general.balance

theorem creditAccount_eq_ok {s s' : StakingState Addr} {addr : Addr} {src amount src' : ℕ} :
    s.creditAccount addr src amount = .ok (s', src') ↔ amount ≤ src ∧ src' = src - amount ∧
      s' = s.setAccount addr ((s.accounts.get addr).addGeneralBalance amount) := by
  unfold creditAccount
  constructor
  · intro h
    obtain ⟨⟨balance, rest⟩, hmove, hpure⟩ := Except.bind_eq_ok.mp h
    obtain ⟨hle, rfl, rfl⟩ := Quantity.move_eq_ok.mp hmove
    cases Except.pure_eq_ok.mp hpure
    exact ⟨hle, rfl, rfl⟩
  · rintro ⟨hle, rfl, rfl⟩
    rw [Except.bind_eq_ok]
    exact ⟨(_, _), Quantity.move_eq_ok.mpr ⟨hle, rfl, rfl⟩, rfl⟩

/-- Crediting an account adds to the total of the accounts' balances. -/
theorem accountBalances_credit (s : StakingState Addr) (addr : Addr) (amount : ℕ) :
    (s.setAccount addr ((s.accounts.get addr).addGeneralBalance amount)).accountBalances =
      s.accountBalances + amount := by
  have hset := FinMap.sum_set (fun _ a => a.general.balance + a.escrow.active.balance +
    a.escrow.debonding.balance) (fun _ => rfl) s.accounts addr
    ((s.accounts.get addr).addGeneralBalance amount)
  unfold accountBalances
  simp only [accounts_setAccount, Account.addGeneralBalance] at hset ⊢
  omega

theorem generalBalance_credit (s : StakingState Addr) (addr b : Addr) (amount : ℕ) :
    (s.setAccount addr ((s.accounts.get addr).addGeneralBalance amount)).generalBalance b =
      s.generalBalance b + if b = addr then amount else 0 := by
  by_cases hb : b = addr
  · subst hb
    simp [generalBalance, Account.addGeneralBalance]
  · simp [generalBalance, hb]

/-- Payments of `amount` in all, `credit b` of it into the general balance of `b`: the
accounts' total grows by `amount` and nothing but the accounts changes. -/
structure Paid (s s' : StakingState Addr) (amount : ℕ) (credit : Addr → ℕ) : Prop where
  rest : s' = { s with accounts := s'.accounts }
  total : s'.accountBalances = s.accountBalances + amount
  balance : ∀ b, s'.generalBalance b = s.generalBalance b + credit b

namespace Paid

variable {s t u : StakingState Addr} {amount amount' : ℕ} {credit credit' : Addr → ℕ}

omit [DecidableEq Addr] in
theorem refl (s : StakingState Addr) (hcredit : ∀ b, credit b = 0) : Paid s s 0 credit :=
  ⟨rfl, rfl, fun b => by rw [hcredit, Nat.add_zero]⟩

omit [DecidableEq Addr] in
theorem trans (h₁ : Paid s t amount credit) (h₂ : Paid t u amount' credit') :
    Paid s u (amount + amount') fun b => credit b + credit' b where
  rest := by
    calc u = { t with accounts := u.accounts } := h₂.rest
      _ = { s with accounts := u.accounts } := by rw [h₁.rest]
  total := by rw [h₂.total, h₁.total, Nat.add_assoc]
  balance b := by rw [h₂.balance, h₁.balance, Nat.add_assoc]

omit [DecidableEq Addr] in
theorem congr (h : Paid s t amount credit) (hamount : amount = amount')
    (hcredit : ∀ b, credit b = credit' b) : Paid s t amount' credit' :=
  ⟨h.rest, hamount ▸ h.total, fun b => by rw [h.balance, hcredit]⟩

end Paid

theorem creditAccount_paid (s : StakingState Addr) (addr : Addr) {src amount : ℕ}
    (hle : amount ≤ src) :
    ∃ s', s.creditAccount addr src amount = .ok (s', src - amount) ∧
      Paid s s' amount fun b => if b = addr then amount else 0 :=
  ⟨_, creditAccount_eq_ok.mpr ⟨hle, rfl, rfl⟩,
    ⟨rfl, accountBalances_credit s addr amount, fun b => generalBalance_credit s addr b amount⟩⟩

/-- The proposer's payment pays `amount` when there is a proposer. -/
theorem payProposer_paid (s : StakingState Addr) (proposerEntity : Option Addr)
    {src amount : ℕ} (hle : amount ≤ src) :
    ∃ s', s.payProposer proposerEntity src amount =
        .ok (s', src - if proposerEntity.isSome then amount else 0) ∧
      Paid s s' (if proposerEntity.isSome then amount else 0)
        fun b => if proposerEntity = some b then amount else 0 := by
  cases proposerEntity with
  | none => exact ⟨s, rfl, Paid.refl s fun _ => rfl⟩
  | some proposerAddr =>
    simp only [Option.isSome_some, if_true, Option.some.injEq]
    by_cases hzero : amount = 0
    · subst hzero
      exact ⟨s, rfl, Paid.refl s fun _ => by simp⟩
    · obtain ⟨s', hcredit, hpaid⟩ := creditAccount_paid s proposerAddr hle
      refine ⟨s', by rw [payProposer, if_pos hzero, hcredit], ?_⟩
      exact hpaid.congr rfl fun b => by simp only [eq_comm]

omit [DecidableEq Addr] in
theorem moveToCommonPool_eq (s : StakingState Addr) (src : ℕ) :
    s.moveToCommonPool src = .ok { s with commonPool := s.commonPool + src } := by
  unfold moveToCommonPool
  by_cases hzero : src = 0
  · subst hzero
    rfl
  · have hmove : Quantity.move s.commonPool src src = .ok (s.commonPool + src, src - src) :=
      Quantity.move_eq_ok.mpr ⟨le_rfl, rfl, rfl⟩
    rw [if_pos hzero, hmove, Except.ok_bind]
    rfl

theorem payVoters_cons (s : StakingState Addr) (voter : Addr) (voters : List Addr)
    (src share : ℕ) :
    s.payVoters (voter :: voters) src share =
      s.creditAccount voter src share >>= fun acc => acc.1.payVoters voters acc.2 share :=
  rfl

/-- Paying each voter `share`, out of an amount that covers them all. -/
theorem payVoters_eq_ok (share : ℕ) : ∀ (voters : List Addr) (s : StakingState Addr) (src : ℕ),
    share * voters.length ≤ src →
    ∃ s', s.payVoters voters src share = .ok (s', src - share * voters.length) ∧
      Paid s s' (share * voters.length) fun b => voters.count b * share
  | [], s, src, _ => ⟨s, by simp [payVoters, Except.pure_eq_ok], Paid.refl s fun _ => by simp⟩
  | voter :: voters, s, src, hcover => by
    have hlen : share * (voter :: voters).length = share + share * voters.length := by
      rw [List.length_cons, Nat.mul_succ, Nat.add_comm]
    rw [hlen] at hcover ⊢
    obtain ⟨t, hcredit, hpaid⟩ := creditAccount_paid s voter (by omega : share ≤ src)
    obtain ⟨s', hloop, hpaid'⟩ := payVoters_eq_ok share voters t (src - share) (by omega)
    refine ⟨s', ?_, (hpaid.trans hpaid').congr rfl fun b => ?_⟩
    · rw [payVoters_cons, hcredit, Except.ok_bind]
      dsimp only
      rw [hloop, Nat.sub_add_eq]
    · rw [List.count_cons]
      by_cases hb : b = voter
      · subst hb
        simp only [if_true, beq_self_eq_true]
        rw [Nat.add_mul, Nat.one_mul, Nat.add_comm]
      · have hne : (voter == b) = false := beq_false_of_ne (Ne.symm hb)
        simp only [hb, if_false, hne, Bool.false_eq_true, Nat.add_zero, Nat.zero_add]

/-! ## The two halves -/

omit [DecidableEq Addr] in
private theorem mul_div_le_of_le {a b c : ℕ} (h : b ≤ c) : a * b / c ≤ a :=
  Nat.div_le_of_le_mul (by rw [Nat.mul_comm c]; exact Nat.mul_le_mul_left a h)

/-- `disburseFeesP` keeps the share of the voters and the next proposer as the last block
fees, pays the rest to the proposer, and when there is no proposer to the common pool. -/
theorem disburseFeesP_paid (s : StakingState Addr) (proposerEntity : Option Addr)
    (totalFees : ℕ) (hweights : totalFees ≠ 0 → s.parameters.feeSplitWeightVote +
      s.parameters.feeSplitWeightNextPropose + s.parameters.feeSplitWeightPropose ≠ 0) :
    ∃ t, Paid { s with lastBlockFees := totalFees * (s.parameters.feeSplitWeightVote +
          s.parameters.feeSplitWeightNextPropose) / (s.parameters.feeSplitWeightVote +
          s.parameters.feeSplitWeightNextPropose + s.parameters.feeSplitWeightPropose) } t
        (if proposerEntity.isSome then totalFees - t.lastBlockFees else 0)
        (fun b => if proposerEntity = some b then totalFees - t.lastBlockFees else 0) ∧
      s.disburseFeesP proposerEntity totalFees = .ok { t with commonPool := t.commonPool +
        (totalFees - t.lastBlockFees - if proposerEntity.isSome then totalFees - t.lastBlockFees
          else 0) } := by
  by_cases hzero : totalFees = 0
  · subst hzero
    refine ⟨{ s with lastBlockFees := 0 }, ?_, ?_⟩
    · simp only [Nat.zero_mul, Nat.zero_div, Nat.sub_zero, ite_self]
      exact Paid.refl _ fun _ => rfl
    · rw [disburseFeesP, if_pos rfl]
      simp only [Nat.zero_sub, Nat.add_zero]
  have hle : totalFees * (s.parameters.feeSplitWeightVote +
      s.parameters.feeSplitWeightNextPropose) / (s.parameters.feeSplitWeightVote +
      s.parameters.feeSplitWeightNextPropose + s.parameters.feeSplitWeightPropose) ≤ totalFees :=
    mul_div_le_of_le (Nat.le_add_right _ _)
  generalize hpersist : totalFees * (s.parameters.feeSplitWeightVote +
    s.parameters.feeSplitWeightNextPropose) / (s.parameters.feeSplitWeightVote +
    s.parameters.feeSplitWeightNextPropose + s.parameters.feeSplitWeightPropose) = persist at hle ⊢
  obtain ⟨t, hpay, hpaid⟩ := payProposer_paid { s with lastBlockFees := persist } proposerEntity
    (Nat.le_refl (totalFees - persist))
  have hlast : t.lastBlockFees = persist := congrArg lastBlockFees hpaid.rest
  refine ⟨t, by rwa [hlast], ?_⟩
  rw [hlast]
  unfold disburseFeesP
  rw [if_neg hzero]
  dsimp only
  rw [Quantity.quo, if_neg (hweights hzero), Except.ok_bind, hpersist]
  rw [(Quantity.move_eq_ok.mpr ⟨hle, rfl, rfl⟩ :
    Quantity.move 0 totalFees persist = .ok (0 + persist, totalFees - persist)), Except.ok_bind]
  dsimp only
  rw [Nat.zero_add, hpay, Except.ok_bind]
  dsimp only
  rw [moveToCommonPool_eq, hlast]

/-- `disburseFeesVQ` pays of each eligible validator's part of the last block fees the
next proposer's share for each voter to the next proposer and the rest to the voter, and
the remainder to the common pool. -/
theorem disburseFeesVQ_paid (s : StakingState Addr) (proposerEntity : Option Addr)
    (numEligibleValidators : ℕ) (votingEntities : List Addr) {shareNextProposer shareVote : ℕ}
    (hshareNextProposer : shareNextProposer = s.lastBlockFees / numEligibleValidators *
      s.parameters.feeSplitWeightNextPropose /
        (s.parameters.feeSplitWeightVote + s.parameters.feeSplitWeightNextPropose))
    (hshareVote : shareVote = s.lastBlockFees / numEligibleValidators - shareNextProposer)
    (hvalidators : s.lastBlockFees ≠ 0 → numEligibleValidators ≠ 0)
    (hweights : s.lastBlockFees ≠ 0 →
      s.parameters.feeSplitWeightVote + s.parameters.feeSplitWeightNextPropose ≠ 0)
    (hvoting : votingEntities.length ≤ numEligibleValidators) :
    ∃ t, Paid s t ((if proposerEntity.isSome then shareNextProposer * votingEntities.length
          else 0) + shareVote * votingEntities.length)
        (fun b => (if proposerEntity = some b then shareNextProposer * votingEntities.length
          else 0) + votingEntities.count b * shareVote) ∧
      (if proposerEntity.isSome then shareNextProposer * votingEntities.length else 0) +
        shareVote * votingEntities.length ≤ s.lastBlockFees ∧
      s.disburseFeesVQ proposerEntity numEligibleValidators votingEntities =
        .ok { t with commonPool := t.commonPool + (s.lastBlockFees -
          (if proposerEntity.isSome then shareNextProposer * votingEntities.length else 0) -
            shareVote * votingEntities.length) } := by
  by_cases hzero : s.lastBlockFees = 0
  · -- Nothing to disburse: every share is zero.
    have hnext : shareNextProposer = 0 := by
      rw [hshareNextProposer, hzero, Nat.zero_div, Nat.zero_mul, Nat.zero_div]
    have hvote : shareVote = 0 := by rw [hshareVote, hzero, Nat.zero_div, Nat.zero_sub]
    refine ⟨s, (Paid.refl s fun b => by simp [hnext, hvote]).congr (by simp [hnext, hvote])
      fun _ => rfl, by simp [hnext, hvote], ?_⟩
    have hrest : s.lastBlockFees -
        (if proposerEntity.isSome then shareNextProposer * votingEntities.length else 0) -
          shareVote * votingEntities.length = 0 := by
      rw [hzero, Nat.zero_sub, Nat.zero_sub]
    unfold disburseFeesVQ
    dsimp only
    rw [if_pos hzero, hrest]
    rfl
  have hle : shareNextProposer ≤ s.lastBlockFees / numEligibleValidators :=
    hshareNextProposer ▸ mul_div_le_of_le (Nat.le_add_left _ _)
  have hcover : shareNextProposer * votingEntities.length + shareVote * votingEntities.length ≤
      s.lastBlockFees :=
    calc shareNextProposer * votingEntities.length + shareVote * votingEntities.length
        = s.lastBlockFees / numEligibleValidators * votingEntities.length := by
          rw [← Nat.add_mul, hshareVote, Nat.add_sub_cancel' hle]
      _ ≤ s.lastBlockFees / numEligibleValidators * numEligibleValidators :=
          Nat.mul_le_mul_left _ hvoting
      _ ≤ s.lastBlockFees := Nat.div_mul_le_self _ _
  obtain ⟨t₁, hpay, hpaid₁⟩ := payProposer_paid s proposerEntity
    (by omega : shareNextProposer * votingEntities.length ≤ s.lastBlockFees)
  have hpaidNext : (if proposerEntity.isSome then shareNextProposer * votingEntities.length
      else 0) ≤ shareNextProposer * votingEntities.length := by
    split <;> omega
  -- The voters are paid only when their share is not zero.
  obtain ⟨t, hvoters, hpaid₂⟩ : ∃ t,
      (if shareVote ≠ 0 then t₁.payVoters votingEntities (s.lastBlockFees -
          if proposerEntity.isSome then shareNextProposer * votingEntities.length else 0) shareVote
        else pure (t₁, s.lastBlockFees -
          if proposerEntity.isSome then shareNextProposer * votingEntities.length else 0) :
        Except QuantityError (StakingState Addr × ℕ)) =
        .ok (t, s.lastBlockFees -
          (if proposerEntity.isSome then shareNextProposer * votingEntities.length else 0) -
            shareVote * votingEntities.length) ∧
      Paid t₁ t (shareVote * votingEntities.length) fun b => votingEntities.count b * shareVote := by
    by_cases hvote : shareVote = 0
    · refine ⟨t₁, ?_, (Paid.refl t₁ fun b => by rw [hvote, Nat.mul_zero]).congr
        (by rw [hvote, Nat.zero_mul]) fun _ => rfl⟩
      rw [if_neg (not_not.mpr hvote), hvote, Nat.zero_mul, Nat.sub_zero]
      rfl
    · rw [if_pos hvote]
      exact payVoters_eq_ok shareVote votingEntities t₁ _ (by omega)
  refine ⟨t, hpaid₁.trans hpaid₂, by omega, ?_⟩
  unfold disburseFeesVQ
  dsimp only
  rw [if_neg hzero, Quantity.quo, if_neg (hvalidators hzero), Except.ok_bind, Quantity.quo,
    if_neg (hweights hzero), Except.ok_bind, ← hshareNextProposer,
    Quantity.sub_eq_ok.mpr ⟨hle, hshareVote⟩, Except.ok_bind]
  rw [hpay, Except.ok_bind]
  dsimp only
  rw [hvoters, Except.ok_bind]
  dsimp only
  rw [moveToCommonPool_eq]

/-- The fees of a block, over `disburseFeesP` at its end and `disburseFeesVQ` at the
beginning of the next block, are paid out in full and no payment fails: the proposer gets
what is not kept, the next proposer and the voters the kept part's shares, the common pool
the rest, and nothing else of the state changes. The stored last block fees keep the kept
part after it has been paid. -/
theorem disburseFees_pays_out_block_fees (s : StakingState Addr)
    (proposerEntity nextProposerEntity : Option Addr) (totalFees numEligibleValidators : ℕ)
    (votingEntities : List Addr)
    (hweights : 0 < s.parameters.feeSplitWeightPropose + s.parameters.feeSplitWeightVote +
      s.parameters.feeSplitWeightNextPropose)
    (hvalidators : 0 < numEligibleValidators)
    (hvoting : votingEntities.length ≤ numEligibleValidators) :
    ∃ s₁ s₂, s.disburseFeesP proposerEntity totalFees = .ok s₁ ∧
      s₁.disburseFeesVQ nextProposerEntity numEligibleValidators votingEntities = .ok s₂ ∧
      s₁.lastBlockFees = totalFees * (s.parameters.feeSplitWeightVote +
        s.parameters.feeSplitWeightNextPropose) / (s.parameters.feeSplitWeightVote +
          s.parameters.feeSplitWeightNextPropose + s.parameters.feeSplitWeightPropose) ∧
      s₂.accountBalances + s₂.commonPool = s.accountBalances + s.commonPool + totalFees ∧
      (∀ b, s₂.generalBalance b = s.generalBalance b +
        (if proposerEntity = some b then totalFees - s₁.lastBlockFees else 0) +
        (if nextProposerEntity = some b then s₁.lastBlockFees / numEligibleValidators *
          s.parameters.feeSplitWeightNextPropose / (s.parameters.feeSplitWeightVote +
            s.parameters.feeSplitWeightNextPropose) * votingEntities.length else 0) +
        votingEntities.count b * (s₁.lastBlockFees / numEligibleValidators -
          s₁.lastBlockFees / numEligibleValidators * s.parameters.feeSplitWeightNextPropose /
            (s.parameters.feeSplitWeightVote + s.parameters.feeSplitWeightNextPropose))) ∧
      s₂ = { s with accounts := s₂.accounts, commonPool := s₂.commonPool,
                    lastBlockFees := s₂.lastBlockFees } ∧
      s₂.lastBlockFees = s₁.lastBlockFees := by
  obtain ⟨t₁, hpaid₁, hP⟩ := disburseFeesP_paid s proposerEntity totalFees fun _ => by omega
  have hrest₁ := hpaid₁.rest
  have hlast₁ : t₁.lastBlockFees = totalFees * (s.parameters.feeSplitWeightVote +
      s.parameters.feeSplitWeightNextPropose) / (s.parameters.feeSplitWeightVote +
        s.parameters.feeSplitWeightNextPropose + s.parameters.feeSplitWeightPropose) :=
    congrArg lastBlockFees hrest₁
  have hparams₁ : t₁.parameters = s.parameters := by rw [hrest₁]
  have hpool₁ : t₁.commonPool = s.commonPool := by rw [hrest₁]
  have hkept : t₁.lastBlockFees ≤ totalFees := hlast₁ ▸ mul_div_le_of_le (Nat.le_add_right _ _)
  -- What is kept is not zero only when the weights of the second half are not.
  have hweights₂ : t₁.lastBlockFees ≠ 0 →
      t₁.parameters.feeSplitWeightVote + t₁.parameters.feeSplitWeightNextPropose ≠ 0 := by
    intro hne hzero
    rw [hparams₁] at hzero
    rw [hlast₁, hzero, Nat.mul_zero, Nat.zero_div] at hne
    exact hne rfl
  obtain ⟨t₂, hpaid₂, hcover, hVQ⟩ := disburseFeesVQ_paid
    { t₁ with commonPool := t₁.commonPool + (totalFees - t₁.lastBlockFees -
      if proposerEntity.isSome then totalFees - t₁.lastBlockFees else 0) }
    nextProposerEntity numEligibleValidators votingEntities rfl rfl
    (fun _ => Nat.pos_iff_ne_zero.mp hvalidators) hweights₂ hvoting
  have hrest₂ := hpaid₂.rest
  have hlast₂ : t₂.lastBlockFees = t₁.lastBlockFees := by rw [hrest₂]
  have hpool₂ : t₂.commonPool = t₁.commonPool + (totalFees - t₁.lastBlockFees -
      if proposerEntity.isSome then totalFees - t₁.lastBlockFees else 0) := by
    rw [hrest₂]
  have hpaidFirst : (if proposerEntity.isSome then totalFees - t₁.lastBlockFees else 0) ≤
      totalFees - t₁.lastBlockFees := by
    split <;> omega
  refine ⟨_, _, hP, hVQ, hlast₁, ?_, fun b => ?_, ?_, hlast₂⟩
  · -- Conservation: each half pays out of what it moves, and moves the rest to the pool.
    have htotal₁ := hpaid₁.total
    have htotal₂ := hpaid₂.total
    dsimp only [accountBalances] at htotal₁ htotal₂ ⊢
    rw [htotal₂, hpool₂, hpool₁, htotal₁]
    dsimp only at hcover
    omega
  · show t₂.generalBalance b = _
    rw [hpaid₂.balance b, hparams₁]
    change t₁.generalBalance b + _ = _
    rw [hpaid₁.balance b, ← Nat.add_assoc]
    rfl
  · rw [hrest₂, hrest₁]

theorem disburseFees_pays_out_three :
    0 < zeroShareParameters.feeSplitWeightPropose + zeroShareParameters.feeSplitWeightVote +
      zeroShareParameters.feeSplitWeightNextPropose ∧ 0 < 1 ∧ [3].length ≤ 1 ∧
    ∃ s₁ s₂, (StakingState.init zeroShareParameters).disburseFeesP (some 1) 3 = .ok s₁ ∧
      s₁.disburseFeesVQ (some 2) 1 [3] = .ok s₂ ∧
      s₂.accountBalances + s₂.commonPool = (StakingState.init zeroShareParameters).accountBalances +
        (StakingState.init zeroShareParameters).commonPool + 3 := by
  have hweights : 0 < zeroShareParameters.feeSplitWeightPropose +
      zeroShareParameters.feeSplitWeightVote + zeroShareParameters.feeSplitWeightNextPropose := by
    decide
  obtain ⟨s₁, s₂, hP, hVQ, -, htotal, -⟩ := disburseFees_pays_out_block_fees
    (StakingState.init zeroShareParameters) (some 1) (some 2) 3 1 [3] hweights (by decide)
    (by decide)
  exact ⟨hweights, by decide, by decide, s₁, s₂, hP, hVQ, htotal⟩

/-- Fees of 3 with all weights 1: `disburseFeesP` keeps 2 and pays 1 to the proposer,
`disburseFeesVQ` then pays 1 to the next proposer and 1 to the one voter, and the stored
last block fees are still 2. -/
theorem disburseFeesVQ_keeps_lastBlockFees :
    ∃ s₁ s₂, (StakingState.init zeroShareParameters).disburseFeesP (some 1) 3 = .ok s₁ ∧
      s₁.disburseFeesVQ (some 2) 1 [3] = .ok s₂ ∧
      s₂.generalBalance 2 = 1 ∧ s₂.generalBalance 3 = 1 ∧ s₂.lastBlockFees = 2 :=
  ⟨_, _, rfl, rfl, rfl, rfl, rfl⟩

end StakingState

end Staking

end OasisCore
