import OasisCore.Misc.FinMap
import OasisCore.Misc.Except
import OasisCore.Misc.List
import OasisCore.Misc.Commitment
import OasisCore.Staking.SharePool
import OasisCore.Staking.Commission
import OasisCore.Staking.State
import OasisCore.Staking.SanityCheck
import OasisCore.Staking.Genesis
import OasisCore.Scheduler.Committee
import OasisCore.Roothash.Block
import OasisCore.Roothash.Commitment
import OasisCore.Roothash.Pool
import OasisCore.Governance.Proposal
import OasisCore.Governance.Tally
import OasisCore.SecretSharing.Poly
import OasisCore.SecretSharing.Vss
import OasisCore.Roothash.App
import OasisCore.Misc.ListPoly
import OasisCore.SecretSharing.PolyOps
import OasisCore.SecretSharing.Multiplier
import OasisCore.SecretSharing.Lagrange
import OasisCore.SecretSharing.Recovery
import OasisCore.Keymanager.Churp
import OasisCore.Governance.Lifecycle
import OasisCore.Staking.Debonding
import OasisCore.Misc.Bits
import OasisCore.Mkvs.Key
import OasisCore.Mkvs.Tree
import OasisCore.Mkvs.Canonical
import OasisCore.Mkvs.Insert
import OasisCore.Mkvs.Remove
import OasisCore.Mkvs.Semantics
import OasisCore.Roothash.Determinism
import OasisCore.Scheduler.Validators
import OasisCore.Consensus.Gas
import OasisCore.Staking.Fees
import OasisCore.Staking.Gas
import OasisCore.Misc.Schedule
import OasisCore.Staking.CommissionAmend
import OasisCore.Staking.AmendCommission
import OasisCore.Staking.Rewards
import OasisCore.Staking.EpochSigning
import OasisCore.Governance.Vote
import OasisCore.SecretSharing.Switch
import OasisCore.SecretSharing.Handoff
import OasisCore.Beacon.Vrf
import OasisCore.Misc.Bytes
import OasisCore.Common.KeyFormat
import OasisCore.SecretSharing.Codec
import OasisCore.Mkvs.Node
import OasisCore.Scheduler.Election
import OasisCore.Staking.Transactions
import OasisCore.Staking.Ledger
import OasisCore.Staking.Slashing
import OasisCore.Staking.Payouts
import OasisCore.Staking.Payouts
import OasisCore.Roothash.Slashing
import OasisCore.Staking.App
