import OasisCore.Staking.State

/-!
# Sanity checks of the staking state

`go/staking/api/sanity_check.go`: the checks of the consensus parameters, of one
account, of the (debonding) delegations to one account, and of a whole genesis
document. The node runs the genesis check before `InitChain`, and the
supplementary sanity checker runs the account checks on the state after every
block.

The Go errors are `fmt.Errorf` texts; the error types here have one constructor
per text, with the values it prints. The `IsValid` checks of quantities are left
out: a `Quantity` is never negative, so they always pass. Go walks its maps in
an unspecified order; the model walks them in key order, which decides only
which error is reported when several entries are wrong.
-/

namespace OasisCore

namespace Staking

/-- `TokenSymbolMaxLength` (`token/token.go:10-11`). -/
def tokenSymbolMaxLength : ℕ := 8

/-- `TokenValueExponentMaxValue` (`token/token.go:14-15`). -/
def tokenValueExponentMaxValue : UInt8 := 20

/-- Whether `TokenSymbolRegexp`, `^[A-Z]+$`, finds a match in `symbol`: the whole
symbol is one or more upper case letters A to Z. -/
def matchesTokenSymbolRegexp (symbol : String) : Bool :=
  !symbol.isEmpty && symbol.toList.all fun c => 'A' ≤ c && c ≤ 'Z'

/-- The errors of `ConsensusParameters.SanityCheck` (`sanity_check.go:14-73`). -/
inductive ParametersError where
  /-- The debug flag is set without `DebugDontBlameOasis`: "one or more unsafe debug
  flags set". -/
  | unsafeDebugFlags
  /-- A kind of `ThresholdKinds` has no threshold: "threshold for kind '%s' not
  defined". -/
  | thresholdNotDefined (kind : ThresholdKind)
  /-- All three fee split weights are zero: "fee split proportions are all zero". -/
  | feeSplitAllZero
  /-- The minimum commission rate exceeds the denominator: "minimum commission %v/%v
  over unity". -/
  | minCommissionOverUnity
  /-- A reward step's scale exceeds the denominator: "reward scale must be a
  non-negative integer smaller than %s". -/
  | rewardScaleTooLarge
  /-- A reward step ends at `EpochInvalid`: "reward until field must be a valid
  epoch". -/
  | rewardUntilInvalid
  /-- A reward step does not end after the previous one: "reward schedule steps
  must be sequential (previous is %d, current is %d)". -/
  | rewardStepsNotSequential (previous current : EpochTime)
  /-- The signing reward threshold exceeds one: "signing reward threshold numerator
  must be less than or equal to denominator". -/
  | signingRewardThresholdOverUnity
  deriving DecidableEq, Repr

namespace ConsensusParameters

variable {Addr : Type}

/-- The reward schedule loop of `SanityCheck` (`sanity_check.go:51-65`), carrying the
previous step's `Until`. -/
def checkRewardSchedule : EpochTime → List RewardStep → Except ParametersError Unit
  | _, [] => pure ()
  | prevUntil, step :: steps => do
    if step.scale > rewardAmountDenominator then throw .rewardScaleTooLarge
    if step.untilEpoch = epochInvalid then throw .rewardUntilInvalid
    if step.untilEpoch ≤ prevUntil then
      throw (.rewardStepsNotSequential prevUntil step.untilEpoch)
    checkRewardSchedule step.untilEpoch steps

/-- `ConsensusParameters.SanityCheck` (`sanity_check.go:14-73`);
`debugDontBlameOasis` is the node's `flags.DebugDontBlameOasis()`. It does not
look at the commission schedule rules' `RateChangeInterval`. -/
def sanityCheck (debugDontBlameOasis : Bool) (p : ConsensusParameters Addr) :
    Except ParametersError Unit := do
  if !debugDontBlameOasis && p.debugBypassStake then throw .unsafeDebugFlags
  thresholdKinds.forM fun kind =>
    if (p.thresholds kind).isNone then throw (.thresholdNotDefined kind) else pure ()
  if p.feeSplitWeightPropose = 0 ∧ p.feeSplitWeightVote = 0 ∧ p.feeSplitWeightNextPropose = 0 then
    throw .feeSplitAllZero
  if p.commissionScheduleRules.minCommissionRate > commissionRateDenominator then
    throw .minCommissionOverUnity
  checkRewardSchedule 0 p.rewardSchedule
  if p.signingRewardThresholdNumerator > p.signingRewardThresholdDenominator then
    throw .signingRewardThresholdOverUnity

end ConsensusParameters

/-- The errors of the account and genesis checks of `sanity_check.go`, all of
which start "staking: sanity check failed: " but the stake accumulator's. -/
inductive SanityError (Addr : Type) where
  /-- The parameters fail their check (the text wraps it). -/
  | parameters (e : ParametersError)
  /-- "token symbol is empty". -/
  | tokenSymbolEmpty
  /-- "token symbol exceeds maximum length". -/
  | tokenSymbolTooLong
  /-- "token symbol should match '%s'". -/
  | tokenSymbolMismatch
  /-- "token value exponent is invalid". -/
  | tokenValueExponentInvalid
  /-- "account has invalid address: %s". -/
  | accountAddressInvalid (addr : Addr)
  /-- "commission schedule for account %s is invalid: %+v"; with `divideByZero`
  it stands for the run-time panic of `PruneAndValidate`. -/
  | commissionScheduleInvalid (addr : Addr) (e : CommissionError)
  /-- "account %s allowance has invalid beneficiary address %s". -/
  | allowanceBeneficiaryInvalid (addr beneficiary : Addr)
  /-- "account %s allowance is greater than total supply for beneficiary %s". -/
  | allowanceOverTotalSupply (addr beneficiary : Addr)
  /-- "staking: non-empty stake accumulator in genesis". -/
  | stakeAccumulatorNonEmpty
  /-- "balances in accounts, plus governance deposits, plus common pool, plus last
  block fees (%s), does not add up to total supply (%s)". -/
  | totalSupplyMismatch (total totalSupply : ℕ)
  /-- "delegation specified for a nonexisting account: %v". -/
  | delegationToNonexistingAccount (addr : Addr)
  /-- "delegation to %s: address is invalid". -/
  | delegationAddressInvalid (addr : Addr)
  /-- "delegation from %s to %s: delegator address is invalid". -/
  | delegatorAddressInvalid (delegator addr : Addr)
  /-- "all shares of all delegations (%s) for account %s don't add up to account's
  total active shares in escrow (%s)". -/
  | delegationSharesMismatch (shares : ℕ) (addr : Addr) (expected : ℕ)
  /-- "account %s has no delegations, but non-zero active escrow balance". -/
  | noDelegationsActiveBalance (addr : Addr)
  /-- "debonding delegation specified for a nonexisting account: %v". -/
  | debondingDelegationToNonexistingAccount (addr : Addr)
  /-- "debonding delegation to %s: address is invalid". -/
  | debondingDelegationAddressInvalid (addr : Addr)
  /-- "debonding delegation from %s to %s: delegator address is invalid". -/
  | debondingDelegatorAddressInvalid (delegator addr : Addr)
  /-- "all shares of all debonding delegations (%s) for account %s don't add up to
  account's total debonding shares in escrow (%s)". -/
  | debondingSharesMismatch (shares : ℕ) (addr : Addr) (expected : ℕ)
  /-- "account %s has no debonding delegations, but non-zero debonding escrow
  balance". -/
  | noDebondingDelegationsDebondingBalance (addr : Addr)
  /-- "burn address has non-zero balance: %v". -/
  | burnAddressBalance (balance : ℕ)
  /-- "burn address has non-zero nonce: %v". -/
  | burnAddressNonce (nonce : UInt64)
  /-- "burn address has non-empty allowances". -/
  | burnAddressAllowances
  /-- "delegations (%s) for account %s don't match account's total active shares in
  escrow (%s)". -/
  | accountDelegationsMismatch (shares : ℕ) (addr : Addr) (expected : ℕ)
  /-- "debonding delegations (%s) for account %s don't match account's total
  debonding shares in escrow (%s)". -/
  | accountDebondingDelegationsMismatch (shares : ℕ) (addr : Addr) (expected : ℕ)
  deriving DecidableEq, Repr

variable {Addr : Type} [LinearOrder Addr] (space : AddressSpace Addr)

/-- The shares of a map of delegations and their number, as the loops of
`SanityCheckDelegations` and `SanityCheckAccountShares` add them up. -/
def delegationTotals (delegations : FinMap Addr Delegation) : ℕ × ℕ :=
  let delegators := delegations.sortedKeys (· ≤ ·)
  ((delegators.map fun d => (delegations.get d).shares).sum, delegators.length)

/-- The shares of a map of debonding delegations and their number, counting every
descriptor of every delegator. -/
def debondingDelegationTotals (delegations : FinMap Addr (List DebondingDelegation)) : ℕ × ℕ :=
  let dels := (delegations.sortedKeys (· ≤ ·)).flatMap delegations.get
  ((dels.map (·.shares)).sum, dels.length)

/-- `SanityCheckAccount` (`sanity_check.go:98-153`): the running total of balances
with this account's added. Go adds to `total` before the later checks, but every
error ends the whole check, so only a successful check returns it. The commission
schedule is pruned on a copy, which is dropped. -/
def sanityCheckAccount (total : ℕ) (parameters : ConsensusParameters Addr) (now : EpochTime)
    (addr : Addr) (acct : Account Addr) (totalSupply : ℕ) : Except (SanityError Addr) ℕ := do
  if !space.isValid addr then throw (.accountAddressInvalid addr)
  let total := total + acct.general.balance + acct.escrow.active.balance +
    acct.escrow.debonding.balance
  match acct.escrow.commissionSchedule.pruneAndValidate parameters.commissionScheduleRules now with
  | .error e => throw (.commissionScheduleInvalid addr e)
  | .ok _ => pure ()
  (acct.general.allowances.sortedKeys (· ≤ ·)).forM fun beneficiary => do
    if !space.isValid beneficiary then throw (.allowanceBeneficiaryInvalid addr beneficiary)
    if acct.general.allowances.get beneficiary > totalSupply then
      throw (.allowanceOverTotalSupply addr beneficiary)
  pure total

/-- `SanityCheckDelegations` (`sanity_check.go:155-193`). -/
def sanityCheckDelegations (addr : Addr) (account : Account Addr)
    (delegations : FinMap Addr Delegation) : Except (SanityError Addr) Unit := do
  if !space.isValid addr then throw (.delegationAddressInvalid addr)
  (delegations.sortedKeys (· ≤ ·)).forM fun delegatorAddr =>
    if !space.isValid delegatorAddr then throw (.delegatorAddressInvalid delegatorAddr addr)
    else pure ()
  let (shares, numDelegations) := delegationTotals delegations
  let sharesExpected := account.escrow.active.totalShares
  if shares ≠ sharesExpected then throw (.delegationSharesMismatch shares addr sharesExpected)
  if numDelegations = 0 ∧ account.escrow.active.balance ≠ 0 then
    throw (.noDelegationsActiveBalance addr)

/-- `SanityCheckDebondingDelegations` (`sanity_check.go:195-234`). -/
def sanityCheckDebondingDelegations (addr : Addr) (account : Account Addr)
    (delegations : FinMap Addr (List DebondingDelegation)) : Except (SanityError Addr) Unit := do
  if !space.isValid addr then throw (.debondingDelegationAddressInvalid addr)
  (delegations.sortedKeys (· ≤ ·)).forM fun delegatorAddr =>
    if !space.isValid delegatorAddr then
      throw (.debondingDelegatorAddressInvalid delegatorAddr addr)
    else pure ()
  let (shares, numDebondingDelegations) := debondingDelegationTotals delegations
  let sharesExpected := account.escrow.debonding.totalShares
  if shares ≠ sharesExpected then throw (.debondingSharesMismatch shares addr sharesExpected)
  if numDebondingDelegations = 0 ∧ account.escrow.debonding.balance ≠ 0 then
    throw (.noDebondingDelegationsDebondingBalance addr)

/-- `SanityCheckAccountShares` (`sanity_check.go:236-293`): the two share checks of
one account against its delegations and debonding delegations. -/
def sanityCheckAccountShares (addr : Addr) (acct : Account Addr)
    (delegations : FinMap Addr Delegation)
    (debondingDelegations : FinMap Addr (List DebondingDelegation)) :
    Except (SanityError Addr) Unit := do
  let (shares, numDelegations) := delegationTotals delegations
  if shares ≠ acct.escrow.active.totalShares then
    throw (.accountDelegationsMismatch shares addr acct.escrow.active.totalShares)
  if numDelegations = 0 ∧ acct.escrow.active.balance ≠ 0 then
    throw (.noDelegationsActiveBalance addr)
  let (debondingShares, numDebondingDelegations) := debondingDelegationTotals debondingDelegations
  if debondingShares ≠ acct.escrow.debonding.totalShares then
    throw (.accountDebondingDelegationsMismatch debondingShares addr
      acct.escrow.debonding.totalShares)
  if numDebondingDelegations = 0 ∧ acct.escrow.debonding.balance ≠ 0 then
    throw (.noDebondingDelegationsDebondingBalance addr)

/-- `Genesis.SanityCheck` (`sanity_check.go:295-409`) at epoch `now`. -/
def Genesis.sanityCheck (debugDontBlameOasis : Bool) (g : Genesis Addr) (now : EpochTime) :
    Except (SanityError Addr) Unit := do
  (g.parameters.sanityCheck debugDontBlameOasis).mapError .parameters
  let tokenSymbolLength := g.tokenSymbol.utf8ByteSize
  if tokenSymbolLength = 0 then throw .tokenSymbolEmpty
  if tokenSymbolLength > tokenSymbolMaxLength then throw .tokenSymbolTooLong
  if !matchesTokenSymbolRegexp g.tokenSymbol then throw .tokenSymbolMismatch
  if g.tokenValueExponent > tokenValueExponentMaxValue then throw .tokenValueExponentInvalid
  -- The balances of the ledger, the commission schedules and the stake accumulators.
  let ledger := g.ledger.sortedKeys (· ≤ ·)
  let total ← ledger.foldlM (checkLedgerAccount g now) 0
  let total := total + g.governanceDeposits + g.commonPool + g.lastBlockFees
  if total ≠ g.totalSupply then throw (.totalSupplyMismatch total g.totalSupply)
  (g.delegations.sortedKeys (· ≤ ·)).forM fun addr =>
    if addr ∉ g.ledger.keys then throw (.delegationToNonexistingAccount addr)
    else sanityCheckDelegations space addr (g.ledger.get addr) (g.delegations.get addr)
  (g.debondingDelegations.sortedKeys (· ≤ ·)).forM fun addr =>
    if addr ∉ g.ledger.keys then throw (.debondingDelegationToNonexistingAccount addr)
    else sanityCheckDebondingDelegations space addr (g.ledger.get addr)
      (g.debondingDelegations.get addr)
  -- The burn address is unused.
  if space.burnAddress ∈ g.ledger.keys then
    let ba := g.ledger.get space.burnAddress
    if ba.general.balance ≠ 0 then throw (.burnAddressBalance ba.general.balance)
    if ba.general.nonce ≠ 0 then throw (.burnAddressNonce ba.general.nonce)
    if ba.general.allowances.keys.card ≠ 0 then throw .burnAddressAllowances
  ledger.forM fun addr =>
    sanityCheckAccountShares addr (g.ledger.get addr) (g.delegations.get addr)
      (g.debondingDelegations.get addr)
where
  /-- One account of the ledger loop (`sanity_check.go:331-344`). -/
  checkLedgerAccount (g : Genesis Addr) (now : EpochTime) (total : ℕ) (addr : Addr) :
      Except (SanityError Addr) ℕ := do
    let acct := g.ledger.get addr
    let total ← sanityCheckAccount space total g.parameters now addr acct g.totalSupply
    if acct.escrow.stakeAccumulator.claims.length > 0 then throw .stakeAccumulatorNonEmpty
    pure total

end Staking

end OasisCore
