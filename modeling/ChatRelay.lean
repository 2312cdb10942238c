import ChatRelay.Text.Blank
import ChatRelay.Text.Replacement
import ChatRelay.Wire.Delivery
import ChatRelay.Wire.Line
import ChatRelay.Wire.Reply
import ChatRelay.Transport.Stream
import ChatRelay.Failure
import ChatRelay.Connection.Basic
import ChatRelay.Client.Publisher
import ChatRelay.Client.Subscriber
import ChatRelay.Mailbox.Timed
import ChatRelay.Directory
import ChatRelay.Counters
import ChatRelay.Session
import ChatRelay.Server.Worker
import ChatRelay.Server.Schedule
import ChatRelay.Server.Settings
import ChatRelay.Server.Backoff
import ChatRelay.Server.Service
import ChatRelay.Server.Link
import ChatRelay.Proofs.Framing
import ChatRelay.Proofs.Membership
import ChatRelay.Proofs.DeliveryLog
import ChatRelay.Proofs.PublisherRuns
import ChatRelay.Proofs.Refusals
import ChatRelay.Proofs.Origins
import ChatRelay.Proofs.Codec
import ChatRelay.Proofs.Reading
import ChatRelay.Proofs.RoundTrip
import ChatRelay.Proofs.RoomNames
import ChatRelay.Proofs.Isolation
import ChatRelay.Proofs.Scripts
import ChatRelay.Proofs.CurrentRoom
import ChatRelay.Proofs.Calls
import ChatRelay.Proofs.Exchange
import ChatRelay.Proofs.Answers
import ChatRelay.Proofs.Rounds
import ChatRelay.Proofs.Talks
import ChatRelay.Proofs.Agreement
import ChatRelay.Proofs.LinkedTalks
import ChatRelay.Proofs.Correspondence
import ChatRelay.Proofs.Mail
import ChatRelay.Proofs.Output
import ChatRelay.Proofs.Dequeues
import ChatRelay.Proofs.Unflagged
import ChatRelay.Proofs.Shutdown
import ChatRelay.Proofs.Tallies
import ChatRelay.Proofs.Counting
import ChatRelay.Proofs.ByteOrder
import ChatRelay.Proofs.Contention
import ChatRelay.Proofs.RoomCalls
import ChatRelay.Proofs.Settling
import ChatRelay.Proofs.Timeouts
import ChatRelay.Proofs.FanOut
import ChatRelay.Proofs.Attendance
import ChatRelay.Proofs.Progress
import ChatRelay.Proofs.Wakings
import ChatRelay.Proofs.Parsing
import ChatRelay.Proofs.LineGrammar
import ChatRelay.Proofs.Lifecycle
import ChatRelay.Proofs.LoopRoom
import ChatRelay.Proofs.ConfirmedRoom
import ChatRelay.Proofs.RequestLines
import ChatRelay.Proofs.InputLines
import ChatRelay.Proofs.Usage
