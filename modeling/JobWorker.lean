import JobWorker.Simulation.Bench
import JobWorker.Simulation.Calls
import JobWorker.Simulation.Intake
import JobWorker.Simulation.Workshop
import JobWorker.Config.Address
import JobWorker.Json.RecordReader
import JobWorker.Proofs.History
import JobWorker.Proofs.Ledger
import JobWorker.Proofs.Ledger.Simulation
import JobWorker.Proofs.Ledger.Balance
import JobWorker.Proofs.Occupancy
import JobWorker.Proofs.Capacity
import JobWorker.Proofs.Supply
import JobWorker.Proofs.Delivery
import JobWorker.Proofs.Ledger.Fate
import JobWorker.Proofs.Breakdown
import JobWorker.Proofs.Slots
import JobWorker.Proofs.Ledger.Reports
import JobWorker.Proofs.Commands
import JobWorker.Proofs.Ledger.Turns
import JobWorker.Proofs.Order
import JobWorker.Proofs.Wakeup
import JobWorker.Proofs.Polling
import JobWorker.Proofs.Document
import JobWorker.Proofs.Closing
import JobWorker.Proofs.Desk
import JobWorker.Proofs.Retry
import JobWorker.Proofs.Desk.Hold
import JobWorker.Proofs.Activation
import JobWorker.Proofs.Outbox.Account
import JobWorker.Proofs.Outbox.Alone
import JobWorker.Proofs.Outbox
import JobWorker.Proofs.Crowd.Poll
import JobWorker.Proofs.Crowd.Step
import JobWorker.Proofs.Crowd
import JobWorker.Proofs.Traffic.Step
import JobWorker.Proofs.Traffic
import JobWorker.Proofs.Rounding
import JobWorker.Proofs.Backoff.Exact
import JobWorker.Proofs.Backoff
import JobWorker.Proofs.Backoff.Rounded
import JobWorker.Proofs.Retry.Spacing
import JobWorker.Proofs.RetryPolicy
import JobWorker.Proofs.Deadline
import JobWorker.Proofs.Rounding.Doubles
import JobWorker.Proofs.Rounding.Shortest
import JobWorker.Proofs.Json.Doubles
import JobWorker.Proofs.Json.Records
import JobWorker.Proofs.Json.RecordReader
import JobWorker.Proofs.RetryPolicy.Document
import JobWorker.Proofs.Settings
import JobWorker.Proofs.Conversion
import JobWorker.Proofs.Idling
