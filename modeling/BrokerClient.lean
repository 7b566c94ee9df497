import BrokerClient.AckMode
import BrokerClient.Broker.Basic
import BrokerClient.Broker.Channel
import BrokerClient.Broker.Fault
import BrokerClient.Broker.Traffic
import BrokerClient.Client.Call
import BrokerClient.Client.Dispatch
import BrokerClient.Client.Factory
import BrokerClient.Client.Notice
import BrokerClient.Client.Operation
import BrokerClient.Client.Run
import BrokerClient.Client.Schedule
import BrokerClient.Client.State
import BrokerClient.Client.View
import BrokerClient.Confirm.Event
import BrokerClient.Confirm.Pending
import BrokerClient.Destination
import BrokerClient.Error
import BrokerClient.Identifiers
import BrokerClient.Json.Failure
import BrokerClient.Json.Lexer
import BrokerClient.Json.Printer
import BrokerClient.Json.Reader
import BrokerClient.Json.Shape
import BrokerClient.Json.Value
import BrokerClient.Lifecycle
import BrokerClient.Message
import BrokerClient.Number.Binary64
import BrokerClient.Number.Shortest
import BrokerClient.Number.Word
import BrokerClient.Options
import BrokerClient.Provider
import BrokerClient.Script.BrokerAlone
import BrokerClient.Script.Run
import BrokerClient.Script.Step
import BrokerClient.Span
import BrokerClient.Subscriptions
import BrokerClient.Text.Base64
import BrokerClient.Text.Hex
import BrokerClient.Text.Invisible
import BrokerClient.Text.Quoted
import BrokerClient.Proofs.Footprint
import BrokerClient.Proofs.Runs
import BrokerClient.Proofs.Wiring
import BrokerClient.Proofs.Stretch
import BrokerClient.Proofs.Deeds
import BrokerClient.Proofs.Bookkeeping
import BrokerClient.Proofs.Teardown
import BrokerClient.Proofs.Plain
import BrokerClient.Proofs.DurableNames
import BrokerClient.Proofs.Ranks
import BrokerClient.Proofs.Post
import BrokerClient.Proofs.Others
import BrokerClient.Proofs.Core
import BrokerClient.Proofs.Names
import BrokerClient.Proofs.Naming
import BrokerClient.Proofs.Agreement
import BrokerClient.Proofs.Confirms
import BrokerClient.Proofs.Outstanding
import BrokerClient.Proofs.ConfirmStream
import BrokerClient.Proofs.Punctual
import BrokerClient.Proofs.Shutdown
import BrokerClient.Proofs.SendOrder
import BrokerClient.Proofs.ClientIdentifiers
import BrokerClient.Proofs.AfterClose
import BrokerClient.Proofs.FailedClaims
import BrokerClient.Proofs.Survival
import BrokerClient.Proofs.Unsubscribing
import BrokerClient.Proofs.FailedCreation
import BrokerClient.Proofs.Base64
import BrokerClient.Proofs.JsonWords
import BrokerClient.Proofs.JsonValues
import BrokerClient.Proofs.JsonRecords
import BrokerClient.Proofs.RoundTrip
import BrokerClient.Proofs.BodyText
import BrokerClient.Proofs.Upkeep
import BrokerClient.Proofs.IdentifierWindow
import BrokerClient.Proofs.LateSessions
import BrokerClient.Proofs.ConsumerClosing
import BrokerClient.Proofs.Waiting
import BrokerClient.Proofs.Recounting
import BrokerClient.Proofs.Traffic
import BrokerClient.Proofs.Schedules
import BrokerClient.Proofs.Scripts
