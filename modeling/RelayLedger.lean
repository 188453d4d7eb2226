import RelayLedger.Chain
import RelayLedger.Client.Scripted
import RelayLedger.Ledger.Listing
import RelayLedger.Proofs.Ledger.AccountHistory
import RelayLedger.Proofs.Ledger.Assembly
import RelayLedger.Proofs.Ledger.Atomicity
import RelayLedger.Proofs.Ledger.Authority
import RelayLedger.Proofs.Ledger.Book
import RelayLedger.Proofs.Ledger.NonceHistory
import RelayLedger.Proofs.Ledger.Operators
import RelayLedger.Proofs.Ledger.Supply
import RelayLedger.Proofs.Ledger.SettingsHistory
import RelayLedger.Proofs.Chain.Operation
import RelayLedger.Proofs.Ledger.RelayOrder
import RelayLedger.Proofs.Chain.Retry
import RelayLedger.Proofs.Chain.Rollout
import RelayLedger.Proofs.Deployment
import RelayLedger.Proofs.Document
import RelayLedger.Proofs.Hexadecimal.Codec
import RelayLedger.Proofs.Ledger.Write
import RelayLedger.Proofs.Rlp.Extent
import RelayLedger.Proofs.Rlp.Sized
import RelayLedger.Proofs.Transaction.Defect
import RelayLedger.Proofs.Client.Library
import RelayLedger.Proofs.Counter.History
import RelayLedger.Proofs.Deployment.Limit
import RelayLedger.Proofs.Ledger.Clearing
