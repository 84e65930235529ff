import OasisCore.Staking.AmendCommission
import OasisCore.Staking.Debonding

/-!
# The staking transactions

The methods of the staking application (`go/consensus/cometbft/apps/staking/transactions.go`)
in `DeliverTx`, once their gas is charged: `transfer`, which burns when the destination is
the burn address (`burnImpl`) and moves between general balances otherwise
(`transferImpl`), `burn`, `addEscrow`, `allow` and `withdraw`; with `reclaimEscrow`
(`OasisCore.Staking.Debonding`) and `amendCommissionSchedule`
(`OasisCore.Staking.AmendCommission`), the methods `ExecuteTx` dispatches and the staking
runtime messages `ExecuteMessage` runs (`staking.go:137-230`).

Check-only and simulation runs return before any write and are left out, with the gas. A
transaction runs in a context that is rolled back when it fails; here it returns an error
and no state.

A withdrawal from an account with a withdraw hook does not look at the allowance: the
hook's module (the vault application) authorizes it through the message dispatcher, and
what it answers is the parameter `hook`. The vault's own state is not modelled.
-/

namespace OasisCore

namespace Staking

/-- `Transfer` (`go/staking/api/api.go:421-424`); `To` is a keyword here. -/
structure Transfer (Addr : Type) where
  toAddr : Addr
  amount : ℕ
  deriving DecidableEq, Repr

/-- `Burn` (`api.go:448-450`). -/
structure Burn where
  amount : ℕ
  deriving DecidableEq, Repr

/-- `Escrow` (`api.go:472-475`). -/
structure Escrow (Addr : Type) where
  account : Addr
  amount : ℕ
  deriving DecidableEq, Repr

/-- `Allow` (`api.go:547-551`). -/
structure Allow (Addr : Type) where
  beneficiary : Addr
  negative : Bool
  amountChange : ℕ
  deriving DecidableEq, Repr

/-- `Withdraw` (`api.go:578-581`); `From` is a keyword here. -/
structure Withdraw (Addr : Type) where
  fromAddr : Addr
  amount : ℕ
  deriving DecidableEq, Repr

/-- `WithdrawHookInvocation` (`go/consensus/cometbft/apps/staking/api/api.go:27-37`), the
message a withdrawal from an account with a withdraw hook publishes. -/
structure WithdrawHookInvocation (Addr : Type) where
  destination : HookDestination
  fromAddr : Addr
  toAddr : Addr
  amount : ℕ
  deriving DecidableEq, Repr

/-- The errors of the staking transactions: a sentinel error of the staking API, one that
`errors.WithContext` gives a context text, and the errors of a debonding merge and of a
commission schedule amendment, returned as they are. -/
inductive TxError where
  | staking (e : StakingError)
  | withContext (e : StakingError) (context : String)
  | merge (e : MergeError)
  | commission (e : CommissionError)
  deriving DecidableEq, Repr

/-- The errors of `reclaimEscrow` as `ExecuteTx` returns them. -/
def ReclaimEscrowError.toTxError : ReclaimEscrowError → TxError
  | .staking e => .staking e
  | .merge e => .merge e

/-- The errors of `amendCommissionSchedule` as `ExecuteTx` returns them. -/
def AmendCommissionScheduleError.toTxError : AmendCommissionScheduleError → TxError
  | .staking e => .staking e
  | .commission e => .commission e

/-- `isTransferPermitted` (`transactions.go:14-22`): transfers are allowed unless disabled,
and then from the addresses of `UndisableTransfersFrom`. -/
def isTransferPermitted {Addr : Type} (params : ConsensusParameters Addr) (fromAddr : Addr) :
    Bool :=
  if params.disableTransfers then params.undisableTransfersFrom fromAddr else true

/-- `a` with general balance `balance`, as the transactions store an account after a move. -/
def Account.withGeneralBalance {Addr : Type} (a : Account Addr) (balance : ℕ) : Account Addr :=
  { a with general := { a.general with balance } }

@[simp] theorem Account.escrow_withGeneralBalance {Addr : Type} (a : Account Addr) (balance : ℕ) :
    (a.withGeneralBalance balance).escrow = a.escrow := rfl

@[simp] theorem Account.balance_withGeneralBalance {Addr : Type} (a : Account Addr)
    (balance : ℕ) : (a.withGeneralBalance balance).general.balance = balance := rfl

/-- `a` with active pool `active`. -/
def Account.withActive {Addr : Type} (a : Account Addr) (active : SharePool) : Account Addr :=
  { a with escrow := { a.escrow with active } }

@[simp] theorem Account.general_withActive {Addr : Type} (a : Account Addr) (active : SharePool) :
    (a.withActive active).general = a.general := rfl

@[simp] theorem Account.active_withActive {Addr : Type} (a : Account Addr) (active : SharePool) :
    (a.withActive active).escrow.active = active := rfl

@[simp] theorem Account.debonding_withActive {Addr : Type} (a : Account Addr)
    (active : SharePool) : (a.withActive active).escrow.debonding = a.escrow.debonding := rfl

/-- `a` with debonding pool `debonding`. -/
def Account.withDebonding {Addr : Type} (a : Account Addr) (debonding : SharePool) :
    Account Addr :=
  { a with escrow := { a.escrow with debonding } }

@[simp] theorem Account.general_withDebonding {Addr : Type} (a : Account Addr)
    (debonding : SharePool) : (a.withDebonding debonding).general = a.general := rfl

@[simp] theorem Account.active_withDebonding {Addr : Type} (a : Account Addr)
    (debonding : SharePool) : (a.withDebonding debonding).escrow.active = a.escrow.active := rfl

@[simp] theorem Account.debonding_withDebonding {Addr : Type} (a : Account Addr)
    (debonding : SharePool) : (a.withDebonding debonding).escrow.debonding = debonding := rfl

namespace StakingState

variable {Addr : Type} [DecidableEq Addr]

/-- `transferImpl` (`transactions.go:76-160`): moves `xfer.amount` from the general balance
of `fromAddr` to that of `xfer.toAddr`, both left with at least `MinTransactBalance`. A
transfer to oneself only checks the balance, and stores the account as it is. The panics
on a check-only context and on the burn address are left out: `transfer` reaches neither. -/
def transferImpl (s : StakingState Addr) (fromAddr : Addr) (xfer : Transfer Addr) :
    Except TxError (StakingState Addr) := do
  if xfer.amount < s.parameters.minTransferAmount then throw (.staking .underMinTransferAmount)
  let fromAccount := s.accounts.get fromAddr
  if fromAddr = xfer.toAddr then
    if fromAccount.general.balance < xfer.amount then throw (.staking .insufficientBalance)
    pure (s.setAccount fromAddr fromAccount)
  else
    let toAccount := s.accounts.get xfer.toAddr
    let (toBalance, fromBalance) ← (Quantity.move toAccount.general.balance
      fromAccount.general.balance xfer.amount).mapError fun e => .staking (.quantity e)
    if fromBalance < s.parameters.minTransactBalance then
      throw (.withContext .balanceTooLow "source account")
    if toBalance < s.parameters.minTransactBalance then
      throw (.withContext .balanceTooLow "dest account")
    let s := s.setAccount xfer.toAddr
      { toAccount with general := { toAccount.general with balance := toBalance } }
    pure (s.setAccount fromAddr
      { fromAccount with general := { fromAccount.general with balance := fromBalance } })

/-- `MutableState.Transfer` (`state.go:856-913`), named apart from the transaction
`transfer`: moves `amount` from the general balance of `fromAddr` to that of `toAddr`, both
left with at least `MinTransactBalance`. A transfer to oneself or of nothing writes nothing;
a failed `Move` is reported as `ErrInsufficientBalance`. -/
def mutableTransfer (s : StakingState Addr) (fromAddr toAddr : Addr) (amount : ℕ) :
    Except TxError (StakingState Addr) := do
  if fromAddr = toAddr ∨ amount = 0 then return s
  let fromAccount := s.accounts.get fromAddr
  let toAccount := s.accounts.get toAddr
  let (toBalance, fromBalance) ← (Quantity.move toAccount.general.balance
    fromAccount.general.balance amount).mapError fun _ => .staking .insufficientBalance
  if fromBalance < s.parameters.minTransactBalance then
    throw (.withContext .balanceTooLow "source account")
  if toBalance < s.parameters.minTransactBalance then
    throw (.withContext .balanceTooLow "dest account")
  let s := s.setAccount fromAddr
    { fromAccount with general := { fromAccount.general with balance := fromBalance } }
  pure (s.setAccount toAddr
    { toAccount with general := { toAccount.general with balance := toBalance } })

/-- `burnImpl` (`transactions.go:189-255`): takes `amount` off the general balance of
`fromAddr`, left with at least `MinTransactBalance`, and off the total supply. The error of
the supply's `Sub` is dropped; a failed `Sub` leaves the supply as it was. -/
def burnImpl (s : StakingState Addr) (fromAddr : Addr) (amount : ℕ) :
    Except TxError (StakingState Addr) := do
  if amount < s.parameters.minTransferAmount then throw (.staking .underMinTransferAmount)
  let fromAccount := s.accounts.get fromAddr
  let balance ← (Quantity.sub fromAccount.general.balance amount).mapError
    fun e => .staking (.quantity e)
  if balance < s.parameters.minTransactBalance then throw (.staking .balanceTooLow)
  let totalSupply := match Quantity.sub s.totalSupply amount with
    | .ok t => t
    | .error _ => s.totalSupply
  pure { s.setAccount fromAddr { fromAccount with general := { fromAccount.general with balance } }
    with totalSupply }

/-- `transfer` (`transactions.go:24-74`) by `fromAddr`: a burn when the destination is the
burn address. -/
def transfer (space : AddressSpace Addr) (s : StakingState Addr) (fromAddr : Addr)
    (xfer : Transfer Addr) : Except TxError (StakingState Addr) := do
  if space.isReserved fromAddr || !isTransferPermitted s.parameters fromAddr then
    throw (.staking .forbidden)
  if xfer.toAddr = space.burnAddress then s.burnImpl fromAddr xfer.amount
  else s.transferImpl fromAddr xfer

/-- `burn` (`transactions.go:162-187`) by `fromAddr`. -/
def burn (space : AddressSpace Addr) (s : StakingState Addr) (fromAddr : Addr) (burn : Burn) :
    Except TxError (StakingState Addr) := do
  if space.isReserved fromAddr then throw (.staking .forbidden)
  s.burnImpl fromAddr burn.amount

/-- `addEscrow` (`transactions.go:257-374`) by `fromAddr`: moves `escrow.amount` from its
general balance into the active pool of `escrow.account` and credits the minted shares to
its delegation there. When the caller escrows to itself, `to` and `from` are one account,
which gets both changes. -/
def addEscrow (space : AddressSpace Addr) (s : StakingState Addr) (fromAddr : Addr)
    (escrow : Escrow Addr) (runtimeMsg : Bool) : Except TxError (StakingState Addr) := do
  if runtimeMsg && !s.parameters.allowEscrowMessages then throw (.staking .forbidden)
  if escrow.amount < s.parameters.minDelegationAmount then
    throw (.staking .underMinDelegationAmount)
  if space.isReserved fromAddr then throw (.staking .forbidden)
  let fromAccount := s.accounts.get fromAddr
  if fromAddr ≠ escrow.account && s.parameters.disableDelegation then throw (.staking .forbidden)
  let toAccount := if fromAddr = escrow.account then fromAccount else s.accounts.get escrow.account
  let delegation := s.delegation fromAddr escrow.account
  let (active, delegationShares, balance, _) ←
    (toAccount.escrow.active.deposit delegation.shares fromAccount.general.balance
      escrow.amount).mapError .staking
  let toAccount := { toAccount with escrow := { toAccount.escrow with active } }
  let fromAccount := if fromAddr = escrow.account then toAccount else fromAccount
  let fromAccount := { fromAccount with general := { fromAccount.general with balance } }
  if balance < s.parameters.minTransactBalance then throw (.staking .balanceTooLow)
  let s := s.setAccount fromAddr fromAccount
  let s := if fromAddr = escrow.account then s else s.setAccount escrow.account toAccount
  pure (s.setDelegation fromAddr escrow.account ⟨delegationShares⟩)

/-- `allow` (`transactions.go:603-699`) by `addr`: raises the allowance of
`allow.beneficiary` by `allow.amountChange`, or lowers it by as much of that as it has. A
zero allowance is removed; an allowance above the total supply, or one past
`MaxAllowances` allowances, counted as a `uint32`, is refused. -/
def allow (space : AddressSpace Addr) (s : StakingState Addr) (addr : Addr)
    (allow : Allow Addr) : Except TxError (StakingState Addr) := do
  if s.parameters.disableTransfers || s.parameters.maxAllowances = 0 then
    throw (.staking .forbidden)
  if space.isReserved addr || space.isReserved allow.beneficiary then throw (.staking .forbidden)
  if addr = allow.beneficiary then throw (.staking .invalidArgument)
  let acct := s.accounts.get addr
  let allowance := acct.general.allowances.get allow.beneficiary
  let allowance := if allow.negative then (Quantity.subUpTo allowance allow.amountChange).2
    else allowance + allow.amountChange
  if s.totalSupply < allowance then throw (.staking .allowanceGreaterThanSupply)
  let allowances := if allowance = 0 then acct.general.allowances.erase allow.beneficiary
    else acct.general.allowances.set allow.beneficiary allowance
  if s.parameters.maxAllowances < UInt32.ofNat allowances.keys.card then
    throw (.staking .tooManyAllowances)
  pure (s.setAccount addr { acct with general := { acct.general with allowances } })

/-- The authorization of `withdraw` (`transactions.go:753-790`): with a withdraw hook the
hook's module decides and the account is kept; without one, the allowance of `toAddr` must
cover `amount`, and is lowered by it, or removed when nothing is left. -/
def authorizeWithdraw (hook : WithdrawHookInvocation Addr → Bool) (fromAccount : Account Addr)
    (fromAddr toAddr : Addr) (amount : ℕ) : Except TxError (Account Addr) :=
  match fromAccount.general.withdrawHook with
  | some dst =>
    if hook ⟨dst, fromAddr, toAddr, amount⟩ then pure fromAccount else throw (.staking .forbidden)
  | none =>
    match fromAccount.general.allowances.lookup toAddr with
    | none => throw (.staking .forbidden)
    | some allowance => do
      let allowance ← (Quantity.sub allowance amount).mapError fun _ => .staking .forbidden
      let allowances := if allowance = 0 then fromAccount.general.allowances.erase toAddr
        else fromAccount.general.allowances.set toAddr allowance
      pure { fromAccount with general := { fromAccount.general with allowances } }

/-- `withdraw` (`transactions.go:701-849`) by `toAddr`: moves `withdraw.amount` from the
general balance of `withdraw.fromAddr` to its own, as `authorizeWithdraw` allows; both are
left with at least `MinTransactBalance`. -/
def withdraw (space : AddressSpace Addr) (hook : WithdrawHookInvocation Addr → Bool)
    (s : StakingState Addr) (toAddr : Addr) (withdraw : Withdraw Addr) :
    Except TxError (StakingState Addr) := do
  if withdraw.amount < s.parameters.minTransferAmount then
    throw (.staking .underMinTransferAmount)
  if s.parameters.disableTransfers || s.parameters.maxAllowances = 0 then
    throw (.staking .forbidden)
  if space.isReserved toAddr || space.isReserved withdraw.fromAddr then throw (.staking .forbidden)
  if toAddr = withdraw.fromAddr then throw (.staking .invalidArgument)
  let fromAccount ← authorizeWithdraw hook (s.accounts.get withdraw.fromAddr) withdraw.fromAddr
    toAddr withdraw.amount
  let toAccount := s.accounts.get toAddr
  let (toBalance, fromBalance) ← (Quantity.move toAccount.general.balance
    fromAccount.general.balance withdraw.amount).mapError fun _ => .staking .insufficientBalance
  if fromBalance < s.parameters.minTransactBalance then
    throw (.withContext .balanceTooLow "source account")
  if toBalance < s.parameters.minTransactBalance then
    throw (.withContext .balanceTooLow "dest account")
  let s := s.setAccount toAddr
    { toAccount with general := { toAccount.general with balance := toBalance } }
  pure (s.setAccount withdraw.fromAddr
    { fromAccount with general := { fromAccount.general with balance := fromBalance } })

/-! ## What a successful transaction writes -/

theorem transferImpl_eq_ok {s s' : StakingState Addr} {fromAddr : Addr} {xfer : Transfer Addr}
    (h : s.transferImpl fromAddr xfer = .ok s') :
    s.parameters.minTransferAmount ≤ xfer.amount ∧
      xfer.amount ≤ (s.accounts.get fromAddr).general.balance ∧
      if fromAddr = xfer.toAddr then s' = s.setAccount fromAddr (s.accounts.get fromAddr)
      else s.parameters.minTransactBalance + xfer.amount ≤
          (s.accounts.get fromAddr).general.balance ∧
        s.parameters.minTransactBalance ≤
          (s.accounts.get xfer.toAddr).general.balance + xfer.amount ∧
        s' = (s.setAccount xfer.toAddr ((s.accounts.get xfer.toAddr).withGeneralBalance
            ((s.accounts.get xfer.toAddr).general.balance + xfer.amount))).setAccount fromAddr
          ((s.accounts.get fromAddr).withGeneralBalance
            ((s.accounts.get fromAddr).general.balance - xfer.amount)) := by
  unfold transferImpl at h
  obtain ⟨hmin, h⟩ := Except.ite_error_eq_ok.mp h
  refine ⟨Nat.le_of_not_lt hmin, ?_⟩
  split at h
  · -- A transfer to oneself only checks the balance.
    rename_i hself
    obtain ⟨hbalance, h⟩ := Except.ite_error_eq_ok.mp h
    rw [if_pos hself]
    exact ⟨Nat.le_of_not_lt hbalance, (Except.pure_eq_ok.mp h).symm⟩
  · rename_i hself
    obtain ⟨⟨toBalance, fromBalance⟩, hmove, h⟩ := Except.bind_eq_ok.mp h
    obtain ⟨hle, rfl, rfl⟩ := Quantity.move_eq_ok.mp (Except.mapError_eq_ok.mp hmove)
    obtain ⟨hfrom, h⟩ := Except.ite_error_eq_ok.mp h
    obtain ⟨hto, h⟩ := Except.ite_error_eq_ok.mp h
    rw [if_neg hself]
    exact ⟨hle, by omega, by omega, (Except.pure_eq_ok.mp h).symm⟩

/-- A transfer of the state either writes nothing or moves `amount` between two different
accounts, the source written first. -/
theorem mutableTransfer_eq_ok {s s' : StakingState Addr} {fromAddr toAddr : Addr} {amount : ℕ}
    (h : s.mutableTransfer fromAddr toAddr amount = .ok s') :
    s' = s ∨ fromAddr ≠ toAddr ∧ amount ≤ (s.accounts.get fromAddr).general.balance ∧
      s' = (s.setAccount fromAddr ((s.accounts.get fromAddr).withGeneralBalance
          ((s.accounts.get fromAddr).general.balance - amount))).setAccount toAddr
        ((s.accounts.get toAddr).withGeneralBalance
          ((s.accounts.get toAddr).general.balance + amount)) := by
  unfold mutableTransfer at h
  split at h
  · exact .inl (Except.pure_eq_ok.mp h).symm
  · rename_i hnoop
    obtain ⟨⟨toBalance, fromBalance⟩, hmove, h⟩ := Except.bind_eq_ok.mp h
    obtain ⟨hle, rfl, rfl⟩ := Quantity.move_eq_ok.mp (Except.mapError_eq_ok.mp hmove)
    obtain ⟨-, h⟩ := Except.ite_error_eq_ok.mp h
    obtain ⟨-, h⟩ := Except.ite_error_eq_ok.mp h
    exact .inr ⟨fun he => hnoop (.inl he), hle, (Except.pure_eq_ok.mp h).symm⟩

theorem burnImpl_eq_ok {s s' : StakingState Addr} {fromAddr : Addr} {amount : ℕ}
    (h : s.burnImpl fromAddr amount = .ok s') :
    s.parameters.minTransferAmount ≤ amount ∧
      s.parameters.minTransactBalance + amount ≤ (s.accounts.get fromAddr).general.balance ∧
      s' = { s.setAccount fromAddr ((s.accounts.get fromAddr).withGeneralBalance
          ((s.accounts.get fromAddr).general.balance - amount)) with
        totalSupply := if amount ≤ s.totalSupply then s.totalSupply - amount else s.totalSupply } := by
  unfold burnImpl at h
  obtain ⟨hmin, h⟩ := Except.ite_error_eq_ok.mp h
  obtain ⟨balance, hsub, h⟩ := Except.bind_eq_ok.mp h
  obtain ⟨hle, rfl⟩ := Quantity.sub_eq_ok.mp (Except.mapError_eq_ok.mp hsub)
  obtain ⟨hlow, h⟩ := Except.ite_error_eq_ok.mp h
  refine ⟨Nat.le_of_not_lt hmin, by omega, ?_⟩
  rw [← Except.pure_eq_ok.mp h]
  -- The dropped error of the supply's `Sub` is its underflow.
  by_cases hsupply : amount ≤ s.totalSupply
  · rw [if_pos hsupply, (Quantity.sub_eq_ok.mpr ⟨hsupply, rfl⟩ : Quantity.sub s.totalSupply amount = _)]
    rfl
  · have herror : Quantity.sub s.totalSupply amount = .error .insufficientBalance := by
      unfold Quantity.sub
      rw [if_pos (Nat.lt_of_not_le hsupply)]
    rw [if_neg hsupply, herror]
    rfl

theorem transfer_eq_ok {space : AddressSpace Addr} {s s' : StakingState Addr} {fromAddr : Addr}
    {xfer : Transfer Addr} (h : s.transfer space fromAddr xfer = .ok s') :
    space.isReserved fromAddr = false ∧ isTransferPermitted s.parameters fromAddr = true ∧
      if xfer.toAddr = space.burnAddress then s.burnImpl fromAddr xfer.amount = .ok s'
      else s.transferImpl fromAddr xfer = .ok s' := by
  unfold transfer at h
  obtain ⟨hallowed, h⟩ := Except.ite_error_eq_ok.mp h
  simp only [Bool.or_eq_true, Bool.not_eq_true', not_or, Bool.not_eq_true, Bool.not_eq_false] at hallowed
  refine ⟨hallowed.1, hallowed.2, ?_⟩
  split at h <;> simp_all

theorem burn_eq_ok {space : AddressSpace Addr} {s s' : StakingState Addr} {fromAddr : Addr}
    {b : Burn} (h : s.burn space fromAddr b = .ok s') :
    space.isReserved fromAddr = false ∧ s.burnImpl fromAddr b.amount = .ok s' := by
  unfold burn at h
  obtain ⟨hreserved, h⟩ := Except.ite_error_eq_ok.mp h
  exact ⟨by simpa using hreserved, h⟩

theorem addEscrow_eq_ok {space : AddressSpace Addr} {s s' : StakingState Addr} {fromAddr : Addr}
    {escrow : Escrow Addr} {runtimeMsg : Bool}
    (h : s.addEscrow space fromAddr escrow runtimeMsg = .ok s') :
    (runtimeMsg = true → s.parameters.allowEscrowMessages = true) ∧
      s.parameters.minDelegationAmount ≤ escrow.amount ∧ space.isReserved fromAddr = false ∧
      (fromAddr ≠ escrow.account → s.parameters.disableDelegation = false) ∧
      ∃ shares, (s.accounts.get escrow.account).escrow.active.sharesForStake escrow.amount =
          .ok shares ∧
        s.parameters.minTransactBalance + escrow.amount ≤
          (s.accounts.get fromAddr).general.balance ∧
        s' = (if fromAddr = escrow.account then
            s.setAccount fromAddr (((s.accounts.get escrow.account).withActive
              ⟨(s.accounts.get escrow.account).escrow.active.balance + escrow.amount,
                (s.accounts.get escrow.account).escrow.active.totalShares + shares⟩).withGeneralBalance
              ((s.accounts.get fromAddr).general.balance - escrow.amount))
          else (s.setAccount fromAddr ((s.accounts.get fromAddr).withGeneralBalance
              ((s.accounts.get fromAddr).general.balance - escrow.amount))).setAccount escrow.account
            ((s.accounts.get escrow.account).withActive
              ⟨(s.accounts.get escrow.account).escrow.active.balance + escrow.amount,
                (s.accounts.get escrow.account).escrow.active.totalShares + shares⟩)).setDelegation
          fromAddr escrow.account ⟨(s.delegation fromAddr escrow.account).shares + shares⟩ := by
  unfold addEscrow at h
  obtain ⟨hruntime, h⟩ := Except.ite_error_eq_ok.mp h
  obtain ⟨hmin, h⟩ := Except.ite_error_eq_ok.mp h
  obtain ⟨hreserved, h⟩ := Except.ite_error_eq_ok.mp h
  obtain ⟨hdisabled, h⟩ := Except.ite_error_eq_ok.mp h
  -- The escrow account is the caller's own when it escrows to itself.
  have hto : (if fromAddr = escrow.account then s.accounts.get fromAddr
      else s.accounts.get escrow.account) = s.accounts.get escrow.account := by
    split <;> simp_all
  rw [hto] at h
  obtain ⟨⟨active, delegationShares, balance, shares⟩, hdeposit, h⟩ := Except.bind_eq_ok.mp h
  obtain ⟨hshares, hle, rfl, rfl, rfl⟩ :=
    SharePool.deposit_eq_ok.mp (Except.mapError_eq_ok.mp hdeposit)
  obtain ⟨hlow, h⟩ := Except.ite_error_eq_ok.mp h
  refine ⟨by simpa using hruntime, Nat.le_of_not_lt hmin, by simpa using hreserved,
    fun hne => by simpa [hne] using hdisabled, shares, hshares, by omega, ?_⟩
  rw [← Except.pure_eq_ok.mp h]
  by_cases hself : fromAddr = escrow.account
  · simp only [hself, if_true]
    rfl
  · simp only [hself, if_false]
    rfl

theorem allow_eq_ok {space : AddressSpace Addr} {s s' : StakingState Addr} {addr : Addr}
    {allow : Allow Addr} (h : s.allow space addr allow = .ok s') :
    s.parameters.disableTransfers = false ∧ s.parameters.maxAllowances ≠ 0 ∧
      space.isReserved addr = false ∧ space.isReserved allow.beneficiary = false ∧
      addr ≠ allow.beneficiary ∧
      ∃ allowance allowances,
        allowance = (if allow.negative then (Quantity.subUpTo
            ((s.accounts.get addr).general.allowances.get allow.beneficiary) allow.amountChange).2
          else (s.accounts.get addr).general.allowances.get allow.beneficiary +
            allow.amountChange) ∧
        allowance ≤ s.totalSupply ∧
        allowances = (if allowance = 0 then
            (s.accounts.get addr).general.allowances.erase allow.beneficiary
          else (s.accounts.get addr).general.allowances.set allow.beneficiary allowance) ∧
        UInt32.ofNat allowances.keys.card ≤ s.parameters.maxAllowances ∧
        s' = s.setAccount addr { s.accounts.get addr with
          general := { (s.accounts.get addr).general with allowances } } := by
  unfold StakingState.allow at h
  obtain ⟨hdisabled, h⟩ := Except.ite_error_eq_ok.mp h
  obtain ⟨hreserved, h⟩ := Except.ite_error_eq_ok.mp h
  obtain ⟨hself, h⟩ := Except.ite_error_eq_ok.mp h
  obtain ⟨hsupply, h⟩ := Except.ite_error_eq_ok.mp h
  obtain ⟨hmax, h⟩ := Except.ite_error_eq_ok.mp h
  simp only [Bool.or_eq_true, decide_eq_true_eq, not_or, Bool.not_eq_true] at hdisabled hreserved
  exact ⟨hdisabled.1, hdisabled.2, hreserved.1, hreserved.2, hself, _, _, rfl,
    Nat.le_of_not_lt hsupply, rfl, UInt32.not_lt.mp hmax, (Except.pure_eq_ok.mp h).symm⟩

/-- An authorized withdrawal keeps the balances, the escrow and the hook of the source
account: with a hook the hook has agreed, without one the allowance covered the amount and is
lowered by it. -/
theorem authorizeWithdraw_eq_ok {hook : WithdrawHookInvocation Addr → Bool}
    {a a' : Account Addr} {fromAddr toAddr : Addr} {amount : ℕ}
    (h : authorizeWithdraw hook a fromAddr toAddr amount = .ok a') :
    (∃ dst, a.general.withdrawHook = some dst ∧ hook ⟨dst, fromAddr, toAddr, amount⟩ = true ∧
        a' = a) ∨
      (a.general.withdrawHook = none ∧ ∃ allowance,
        a.general.allowances.lookup toAddr = some allowance ∧ amount ≤ allowance ∧
        a' = { a with general := { a.general with
          allowances := if allowance - amount = 0 then a.general.allowances.erase toAddr
            else a.general.allowances.set toAddr (allowance - amount) } }) := by
  unfold authorizeWithdraw at h
  split at h
  · rename_i dst hdst
    obtain ⟨hallowed, h⟩ : hook ⟨dst, fromAddr, toAddr, amount⟩ = true ∧ a = a' := by
      split at h
      · exact ⟨by assumption, Except.pure_eq_ok.mp h⟩
      · cases h
    exact .inl ⟨dst, hdst, hallowed, h.symm⟩
  · rename_i hnone
    split at h
    · cases h
    · rename_i allowance hallowance
      obtain ⟨rest, hsub, h⟩ := Except.bind_eq_ok.mp h
      obtain ⟨hle, rfl⟩ := Quantity.sub_eq_ok.mp (Except.mapError_eq_ok.mp hsub)
      exact .inr ⟨hnone, allowance, hallowance, hle, (Except.pure_eq_ok.mp h).symm⟩

theorem withdraw_eq_ok {space : AddressSpace Addr} {hook : WithdrawHookInvocation Addr → Bool}
    {s s' : StakingState Addr} {toAddr : Addr} {withdraw : Withdraw Addr}
    (h : s.withdraw space hook toAddr withdraw = .ok s') :
    s.parameters.minTransferAmount ≤ withdraw.amount ∧ s.parameters.disableTransfers = false ∧
      s.parameters.maxAllowances ≠ 0 ∧ space.isReserved toAddr = false ∧
      space.isReserved withdraw.fromAddr = false ∧ toAddr ≠ withdraw.fromAddr ∧
      ∃ fromAccount, authorizeWithdraw hook (s.accounts.get withdraw.fromAddr) withdraw.fromAddr
          toAddr withdraw.amount = .ok fromAccount ∧
        s.parameters.minTransactBalance + withdraw.amount ≤ fromAccount.general.balance ∧
        s.parameters.minTransactBalance ≤
          (s.accounts.get toAddr).general.balance + withdraw.amount ∧
        s' = (s.setAccount toAddr ((s.accounts.get toAddr).withGeneralBalance
            ((s.accounts.get toAddr).general.balance + withdraw.amount))).setAccount
          withdraw.fromAddr (fromAccount.withGeneralBalance
            (fromAccount.general.balance - withdraw.amount)) := by
  unfold StakingState.withdraw at h
  obtain ⟨hmin, h⟩ := Except.ite_error_eq_ok.mp h
  obtain ⟨hdisabled, h⟩ := Except.ite_error_eq_ok.mp h
  obtain ⟨hreserved, h⟩ := Except.ite_error_eq_ok.mp h
  obtain ⟨hself, h⟩ := Except.ite_error_eq_ok.mp h
  obtain ⟨fromAccount, hauth, h⟩ := Except.bind_eq_ok.mp h
  obtain ⟨⟨toBalance, fromBalance⟩, hmove, h⟩ := Except.bind_eq_ok.mp h
  obtain ⟨hle, rfl, rfl⟩ := Quantity.move_eq_ok.mp (Except.mapError_eq_ok.mp hmove)
  obtain ⟨hfrom, h⟩ := Except.ite_error_eq_ok.mp h
  obtain ⟨hto, h⟩ := Except.ite_error_eq_ok.mp h
  simp only [Bool.or_eq_true, decide_eq_true_eq, not_or, Bool.not_eq_true] at hdisabled hreserved
  exact ⟨Nat.le_of_not_lt hmin, hdisabled.1, hdisabled.2, hreserved.1, hreserved.2, hself,
    fromAccount, hauth, by omega, by omega, (Except.pure_eq_ok.mp h).symm⟩

end StakingState

/-- The methods of `ExecuteTx` (`staking.go:173-229`) with their decoded bodies. A body that
does not decode and an unknown method are refused with `ErrInvalidArgument` before any
write; they are left out. -/
inductive Method (Addr : Type) where
  | transfer (xfer : Transfer Addr)
  | burn (burn : Burn)
  | addEscrow (escrow : Escrow Addr)
  | reclaimEscrow (reclaim : ReclaimEscrow Addr)
  | amendCommissionSchedule (amendment : CommissionSchedule)
  | allow (allow : Allow Addr)
  | withdraw (withdraw : Withdraw Addr)
  deriving DecidableEq, Repr

/-- `StakingMessage` (`go/roothash/api/message/message.go:47-54`), a runtime message to the
staking application. -/
structure StakingMessage (Addr : Type) where
  transfer : Option (Transfer Addr) := none
  withdraw : Option (Withdraw Addr) := none
  addEscrow : Option (Escrow Addr) := none
  reclaimEscrow : Option (ReclaimEscrow Addr) := none
  deriving DecidableEq, Repr

namespace StakingState

variable {Addr : Type} [DecidableEq Addr]

/-- `ExecuteTx` (`staking.go:168-230`): the transaction `tx` signed by `caller`, in a block
of `epoch`. -/
def executeTx (space : AddressSpace Addr) (hook : WithdrawHookInvocation Addr → Bool)
    (s : StakingState Addr) (epoch : EpochTime) (caller : Addr) :
    Method Addr → Except TxError (StakingState Addr)
  | .transfer xfer => s.transfer space caller xfer
  | .burn b => s.burn space caller b
  | .addEscrow escrow => s.addEscrow space caller escrow false
  | .reclaimEscrow reclaim =>
    (s.reclaimEscrow space epoch caller reclaim false).mapError ReclaimEscrowError.toTxError
  | .amendCommissionSchedule amendment =>
    (s.amendCommissionSchedule space epoch caller amendment).mapError
      AmendCommissionScheduleError.toTxError
  | .allow a => s.allow space caller a
  | .withdraw w => s.withdraw space hook caller w

/-- The staking runtime messages of `ExecuteMessage` (`staking.go:138-154`): the first method
the message carries, for `caller`; an escrow is a runtime message when the roothash module
sent it. -/
def executeMessage (space : AddressSpace Addr) (hook : WithdrawHookInvocation Addr → Bool)
    (s : StakingState Addr) (epoch : EpochTime) (caller : Addr) (fromRoothash : Bool)
    (m : StakingMessage Addr) : Except TxError (StakingState Addr) :=
  match m.transfer, m.withdraw, m.addEscrow, m.reclaimEscrow with
  | some xfer, _, _, _ => s.transfer space caller xfer
  | none, some w, _, _ => s.withdraw space hook caller w
  | none, none, some escrow, _ => s.addEscrow space caller escrow fromRoothash
  | none, none, none, some reclaim =>
    (s.reclaimEscrow space epoch caller reclaim fromRoothash).mapError
      ReclaimEscrowError.toTxError
  | none, none, none, none => throw (.staking .invalidArgument)

end StakingState

end Staking

end OasisCore
