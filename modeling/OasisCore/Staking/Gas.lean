import OasisCore.Misc.Except
import OasisCore.Consensus.Gas
import OasisCore.Staking.State

/-!
# Paying for a transaction

Before a transaction runs, `AuthenticateAndPayFees`
(`go/consensus/cometbft/apps/staking/state/gas.go`) checks the signer's nonce and that
its general balance covers the fee and the minimum transact balance. In `DeliverTx` it
then moves the fee into the block's fee accumulator, increments the nonce and installs
a gas accountant limited to the fee's gas, composed with the block's accountant. In
`CheckTx` it only installs the accountant and filters on the gas price; a simulation
may use any amount of gas.

In `DeliverTx` a call succeeds exactly when the checks pass, and then the fee leaves
the signer's general balance for the accumulator and nothing else changes
(`authenticateAndPayFees_deliverTx_eq_ok`). A failed call returns before any write, so
the model returns a state only on success.
-/

namespace OasisCore

namespace Staking

open Consensus

/-- The kinds of context that `AuthenticateAndPayFees` tells apart. -/
inductive ContextMode where
  | simulation
  | checkTx
  | deliverTx
  deriving DecidableEq, Repr

/-- What `AuthenticateAndPayFees` reads of the context beyond the state: its mode, and
the node's own transaction signer and minimum gas price, read in `CheckTx` only. -/
structure TxContext (Addr : Type) where
  mode : ContextMode
  ownTxSignerAddress : Addr
  localMinGasPrice : ℕ

/-- `transaction.Fee` (`go/consensus/api/transaction/gas.go:29-35`). -/
structure Fee where
  amount : ℕ := 0
  gas : Gas := 0
  deriving DecidableEq, Repr

/-- `Fee.GasPrice` (`transaction/gas.go:56-74`). -/
def Fee.gasPrice (f : Fee) : ℕ :=
  if f.amount = 0 ∨ f.gas = 0 then 0 else f.amount / f.gas.toNat

/-- The gas accountant installed on the context. -/
inductive TxGasAccountant where
  | basic (ga : BasicGasAccountant)
  /-- `NewCompositeGasAccountant` of the transaction's accountant and the block's, which
  the model does not track. -/
  | withBlock (ga : BasicGasAccountant)
  deriving DecidableEq, Repr

/-- `GasWanted`: the limit of the transaction's accountant. -/
def TxGasAccountant.gasWanted : TxGasAccountant → Gas
  | .basic ga => ga.maxUsedGas
  | .withBlock ga => ga.maxUsedGas

/-- The errors of `AuthenticateAndPayFees`. -/
inductive PayFeesError where
  | reservedAddress
  | invalidNonce
  | balanceTooLow
  | gasPriceTooLow
  | failedToPay (e : QuantityError)
  deriving DecidableEq, Repr

variable {Addr : Type} [DecidableEq Addr]

/-- `AuthenticateAndPayFees` (`state/gas.go:27-137`), with the signer's address: the
state, the block's fee accumulator and the installed gas accountant. -/
def authenticateAndPayFees (space : AddressSpace Addr) (ctx : TxContext Addr)
    (s : StakingState Addr) (blockFees : ℕ) (addr : Addr) (nonce : UInt64) (fee : Option Fee) :
    Except PayFeesError (StakingState Addr × ℕ × TxGasAccountant) :=
  if ctx.mode = .simulation then
    .ok (s, blockFees, .basic (newGasAccountant 0xffffffffffffffff))
  else if space.isReserved addr then .error .reservedAddress
  else
    let account := s.accounts.get addr
    if account.general.nonce ≠ nonce then .error .invalidNonce
    else
      let fee := fee.getD {}
      let needed := fee.amount + s.parameters.minTransactBalance
      if account.general.balance < needed then .error .balanceTooLow
      else if ctx.mode = .checkTx then
        -- The gas price filter, skipped for the node's own transactions.
        if ctx.ownTxSignerAddress ≠ addr ∧ 0 < fee.gas ∧ fee.gasPrice < ctx.localMinGasPrice then
          .error .gasPriceTooLow
        else .ok (s, blockFees, .basic (newGasAccountant fee.gas))
      else do
        let (blockFees, balance) ←
          (Quantity.move blockFees account.general.balance fee.amount).mapError .failedToPay
        let account := { account with
          general := { account.general with balance, nonce := account.general.nonce + 1 } }
        pure (s.setAccount addr account, blockFees, .withBlock (newGasAccountant fee.gas))

/-- In `DeliverTx` the call succeeds exactly when the signer's address is not reserved,
the nonce is the account's and the general balance covers the fee and the minimum
transact balance; the fee then moves from the general balance to the accumulator, the
nonce goes up by one, and the accountant is limited to the fee's gas. -/
theorem authenticateAndPayFees_deliverTx_eq_ok {space : AddressSpace Addr} {ctx : TxContext Addr}
    (hmode : ctx.mode = .deliverTx) {s : StakingState Addr} {blockFees : ℕ} {addr : Addr}
    {nonce : UInt64} {fee : Option Fee} {r : StakingState Addr × ℕ × TxGasAccountant} :
    authenticateAndPayFees space ctx s blockFees addr nonce fee = .ok r ↔
      space.isReserved addr = false ∧ (s.accounts.get addr).general.nonce = nonce ∧
      (fee.getD {}).amount + s.parameters.minTransactBalance ≤
        (s.accounts.get addr).general.balance ∧
      r = (s.setAccount addr { s.accounts.get addr with
            general := { (s.accounts.get addr).general with
              balance := (s.accounts.get addr).general.balance - (fee.getD {}).amount
              nonce := nonce + 1 } },
          blockFees + (fee.getD {}).amount, .withBlock (newGasAccountant (fee.getD {}).gas)) := by
  unfold authenticateAndPayFees
  rw [hmode]
  simp only [reduceCtorEq, if_false, Except.ite_error_eq_ok, Bool.not_eq_true, not_not,
    not_lt]
  constructor
  · rintro ⟨hreserved, hnonce, hcover, hpay⟩
    obtain ⟨⟨blockFees', balance⟩, hmove, hpure⟩ := Except.bind_eq_ok.mp hpay
    obtain ⟨-, rfl, rfl⟩ := Quantity.move_eq_ok.mp (Except.mapError_eq_ok.mp hmove)
    refine ⟨hreserved, hnonce, hcover, ?_⟩
    rw [← Except.pure_eq_ok.mp hpure, hnonce]
  · rintro ⟨hreserved, hnonce, hcover, rfl⟩
    refine ⟨hreserved, hnonce, hcover, ?_⟩
    have hmove : Quantity.move blockFees (s.accounts.get addr).general.balance
        (fee.getD {}).amount = .ok (blockFees + (fee.getD {}).amount,
          (s.accounts.get addr).general.balance - (fee.getD {}).amount) :=
      Quantity.move_eq_ok.mpr ⟨by omega, rfl, rfl⟩
    rw [hmove, Except.mapError_ok, Except.ok_bind]
    rw [hnonce]
    rfl

/-- In `DeliverTx` a paid fee leaves the accounts for the accumulator: the accounts'
balances and the accumulator add up to what they did. -/
theorem authenticateAndPayFees_deliverTx_conserves {space : AddressSpace Addr}
    {ctx : TxContext Addr} (hmode : ctx.mode = .deliverTx) {s : StakingState Addr}
    {blockFees : ℕ} {addr : Addr} {nonce : UInt64} {fee : Option Fee}
    {r : StakingState Addr × ℕ × TxGasAccountant}
    (h : authenticateAndPayFees space ctx s blockFees addr nonce fee = .ok r) :
    r.1.accountBalances + r.2.1 = s.accountBalances + blockFees := by
  obtain ⟨-, -, hcover, rfl⟩ := (authenticateAndPayFees_deliverTx_eq_ok hmode).mp h
  have hset := FinMap.sum_set (fun _ a => a.general.balance + a.escrow.active.balance +
    a.escrow.debonding.balance) (fun _ => rfl) s.accounts addr
    { s.accounts.get addr with
      general := { (s.accounts.get addr).general with
        balance := (s.accounts.get addr).general.balance - (fee.getD {}).amount
        nonce := nonce + 1 } }
  unfold StakingState.accountBalances
  simp only [StakingState.accounts_setAccount] at hset ⊢
  omega

end Staking

end OasisCore
