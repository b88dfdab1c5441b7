import Switchboard.Settings.Preset
import Switchboard.Api.Identity
import Switchboard.Api.Net
import Switchboard.Api.Address
import Switchboard.Api.Processing
import Switchboard.Bench.Command
import Switchboard.Bench.Parts
import Switchboard.Bench.Workplace
import Switchboard.Proofs.Interleaving
import Switchboard.Proofs.Exchange.Steps
import Switchboard.Proofs.Exchange.Live
import Switchboard.Proofs.Exchange.Opening
import Switchboard.Proofs.Exchange.Reading
import Switchboard.Proofs.Exchange.Looks
import Switchboard.Proofs.Exchange.Delivering
import Switchboard.Proofs.Exchange.Numbering
import Switchboard.Proofs.Exchange.Locality
import Switchboard.Proofs.Race.Roles
import Switchboard.Proofs.Race.Invariant
import Switchboard.Proofs.Race.Outcome
import Switchboard.Proofs.Client.Destroying
import Switchboard.Proofs.Client.Discipline
import Switchboard.Proofs.Session.Acting
import Switchboard.Proofs.Session.Sound
import Switchboard.Proofs.Session.Steps
import Switchboard.Proofs.Session.Clients
import Switchboard.Proofs.Session.Outstanding
import Switchboard.Proofs.Session.Changes
import Switchboard.Proofs.Session.Ledger
import Switchboard.Proofs.Session.Correlation
import Switchboard.Proofs.Session.Wired
import Switchboard.Proofs.Session.Coherent
import Switchboard.Proofs.Session.Unsubscribing
import Switchboard.Proofs.Session.Bystanders
import Switchboard.Proofs.Session.Alike
import Switchboard.Proofs.Session.Parallel
import Switchboard.Proofs.Session.Destruction
import Switchboard.Proofs.Session.Errands
import Switchboard.Proofs.Session.Independence
import Switchboard.Proofs.Shutdown.Basic
import Switchboard.Proofs.Shutdown.Drift
import Switchboard.Proofs.Shutdown.Roles
import Switchboard.Proofs.Shutdown.Reading
import Switchboard.Proofs.Shutdown.Parties
import Switchboard.Proofs.Shutdown.Invariant
import Switchboard.Proofs.Shutdown.Outcome
import Switchboard.Proofs.StreamEnd.Basic
import Switchboard.Proofs.StreamEnd.Protocol
import Switchboard.Proofs.StreamEnd.Parties
import Switchboard.Proofs.StreamEnd.Outcome
import Switchboard.Proofs.Settings.Source
import Switchboard.Proofs.Settings.Start
import Switchboard.Proofs.Settings.Overriding
import Switchboard.Proofs.Settings.Handover
import Switchboard.Proofs.Api.Wire
import Switchboard.Proofs.Api.Requests
import Switchboard.Proofs.TimeLimit.Outcome
import Switchboard.Proofs.Receiving.Protocol
import Switchboard.Proofs.Receiving.Leaving
import Switchboard.Proofs.Receiving.Answer
import Switchboard.Proofs.Receiving.Events
import Switchboard.Proofs.Receiving.Yielding
import Switchboard.Proofs.Receiving.Fused
import Switchboard.Proofs.Receiving.Reporting
import Switchboard.Proofs.Feed.Outcome
import Switchboard.Proofs.Settings.Endpoints
import Switchboard.Proofs.Library.Shadowing
