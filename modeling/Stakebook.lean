import Stakebook.CommandLine.Commands
import Stakebook.CommandLine.Folder
import Stakebook.Form.RoundTrip
import Stakebook.Main
import Stakebook.Proofs.Checks
import Stakebook.Proofs.MapSum
import Stakebook.Proofs.Pool.Accounting
import Stakebook.Proofs.Pool.Solvency
import Stakebook.Proofs.Pool.Price
import Stakebook.Proofs.Ledger.Effects
import Stakebook.Proofs.Registry
import Stakebook.Proofs.Stakes
import Stakebook.Proofs.Ledger.Atomicity
import Stakebook.Proofs.Ledger.Runs
import Stakebook.Proofs.Ledger.Conservation
import Stakebook.Proofs.Ledger.SharePrice
import Stakebook.Proofs.Overwatch
import Stakebook.Proofs.Ledger.SwapExecution
import Stakebook.Proofs.Ledger.Ownership
import Stakebook.Proofs.Ledger.SwapLife
import Stakebook.Proofs.Collision
import Stakebook.Proofs.Ledger.CommitReveal
import Stakebook.Proofs.RecordTree
import Stakebook.Proofs.Ledger.Records
import Stakebook.Proofs.Ledger.StateRoot
import Stakebook.Proofs.Inclusion
import Stakebook.Proofs.Ledger.StakeProofs
import Stakebook.Proofs.Exact
import Stakebook.Proofs.Ledger.Exact
import Stakebook.Proofs.Ledger.ExactRuns
import Stakebook.Proofs.Ledger.Exits
import Stakebook.Proofs.ComponentBytes
import Stakebook.Proofs.Ledger.Snapshots
import Stakebook.Proofs.TransactionBytes
import Stakebook.Proofs.Ledger.Replay
import Stakebook.Proofs.Ledger.Backing
import Stakebook.Proofs.Pool.Exit
import Stakebook.Proofs.Documents
import Stakebook.Proofs.Ledger.Commute
import Stakebook.Proofs.Pool.Rounding
import Stakebook.Proofs.Claiming
import Stakebook.Proofs.TimeLock
import Stakebook.Proofs.Ledger.Claiming
import Stakebook.Proofs.Ledger.Batches
import Stakebook.Proofs.StakeTotals
import Stakebook.Proofs.Schedule
import Stakebook.Proofs.Ledger.Pruning
import Stakebook.Proofs.HexText
import Stakebook.Proofs.QueueRuns
