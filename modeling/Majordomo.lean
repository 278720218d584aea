import Majordomo.Monitor
import Majordomo.Wire.Inbound
import Majordomo.Wire.Delivery
import Majordomo.Address
import Majordomo.SessionMessage
import Majordomo.Client.Session
import Majordomo.Worker.Session
import Majordomo.Config.Overlay
import Majordomo.Broker.Server
import Majordomo.Proofs.Link
import Majordomo.Proofs.Mediator.Plan
import Majordomo.Proofs.Mediator.View
import Majordomo.Proofs.Text.Utf8
import Majordomo.Proofs.Wire.Reading
import Majordomo.Proofs.Wire.Agreement
import Majordomo.Proofs.Wire.Grammar
import Majordomo.Proofs.Wire.Nesting
import Majordomo.Proofs.Mediator.Consistency
import Majordomo.Proofs.Mediator.IdleWorkers
import Majordomo.Proofs.Mediator.Conservation
import Majordomo.Proofs.Mediator.Outstanding
import Majordomo.Proofs.Mediator.Tally
import Majordomo.Proofs.Exchange.Parcel
import Majordomo.Proofs.Worker.Flow
import Majordomo.Proofs.Exchange.World
import Majordomo.Proofs.Exchange.Ledger
import Majordomo.Proofs.Router.Identity
import Majordomo.Proofs.Mediator.Staffing
import Majordomo.Proofs.Exchange.Wiring
import Majordomo.Proofs.Exchange.Load
import Majordomo.Proofs.Exchange.Replies
import Majordomo.Proofs.Client.Turn
import Majordomo.Proofs.Client.Lifecycle
import Majordomo.Proofs.Client.Journal
import Majordomo.Proofs.Client.Runs
import Majordomo.Proofs.Client.Standing
import Majordomo.Proofs.Client.Halves
import Majordomo.Proofs.Client.Threads
import Majordomo.Proofs.Client.Outbox
import Majordomo.Proofs.Client.Accepted
import Majordomo.Proofs.Client.Crews
import Majordomo.Proofs.Client.Conservation
import Majordomo.Proofs.Client.Whole
import Majordomo.Proofs.Client.Modes
import Majordomo.Proofs.Client.Ending
import Majordomo.Proofs.Client.Closing
import Majordomo.Proofs.Client.Shutdown
import Majordomo.Proofs.Client.Acts
import Majordomo.Proofs.Client.Episodes
import Majordomo.Proofs.Client.Releases
import Majordomo.Proofs.Mediator.Sweep
import Majordomo.Proofs.Mediator.Lifetimes
import Majordomo.Proofs.Mediator.Duty
import Majordomo.Proofs.Mediator.Handover
import Majordomo.Proofs.Mediator.Turns
import Majordomo.Proofs.Client.Stranded
import Majordomo.Proofs.Client.Lag
import Majordomo.Proofs.Client.Valve
import Majordomo.Proofs.Client.Renewal
import Majordomo.Proofs.Client.Rearming
import Majordomo.Proofs.Client.Story
import Majordomo.Proofs.Client.Replies
import Majordomo.Proofs.Client.Rest
import Majordomo.Proofs.Json.Written
import Majordomo.Proofs.Worker.Turn
import Majordomo.Proofs.Worker.Runs
import Majordomo.Proofs.Worker.Standing
import Majordomo.Proofs.Worker.Script
import Majordomo.Proofs.Mediator.Tenure
import Majordomo.Proofs.Mediator.Horizon
import Majordomo.Proofs.Worker.Signs
import Majordomo.Proofs.Exchange.Lifeline
import Majordomo.Proofs.Duration
import Majordomo.Proofs.Config.Expiry
import Majordomo.Proofs.Reports
import Majordomo.Proofs.Mediator.Notices
import Majordomo.Proofs.Mediator.Discovery
import Majordomo.Proofs.Mediator.ReturnPath
import Majordomo.Proofs.Router.Isolation
import Majordomo.Proofs.Mediator.Expiry
import Majordomo.Proofs.Mediator.Refusals
import Majordomo.Proofs.Mediator.Separation
import Majordomo.Proofs.Mediator.Standby
import Majordomo.Proofs.Mediator.Dismissal
import Majordomo.Proofs.Mediator.SignsOfLife
import Majordomo.Proofs.Mediator.ReplyFlag
import Majordomo.Proofs.Client.Greeting
import Majordomo.Proofs.Client.Waiting
import Majordomo.Proofs.Client.Handshake
import Majordomo.Proofs.Worker.Answers
import Majordomo.Proofs.Worker.Departures
import Majordomo.Proofs.Worker.Silence
import Majordomo.Proofs.Client.Suppression
import Majordomo.Proofs.Mediator.Entries
