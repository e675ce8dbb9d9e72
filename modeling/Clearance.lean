import Clearance.Accounts
import Clearance.Banking
import Clearance.Bodies
import Clearance.Compatibility
import Clearance.Console.Receipts
import Clearance.Constraints
import Clearance.ConsumerLoop
import Clearance.Consumption
import Clearance.Deposits
import Clearance.Draining
import Clearance.Environment
import Clearance.Fingerprints
import Clearance.FormatGo
import Clearance.Idempotency
import Clearance.Labels
import Clearance.Limiter
import Clearance.Listing
import Clearance.LockOrder
import Clearance.Migrations.Contents
import Clearance.OrderIndependence
import Clearance.OutboxHistory
import Clearance.Payments
import Clearance.Pruning
import Clearance.Ranges
import Clearance.Recording
import Clearance.Recovery
import Clearance.Republication
import Clearance.Routing
import Clearance.Serial
import Clearance.Successors
import Clearance.Transport
