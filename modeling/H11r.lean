import H11r.Basic
import H11r.Connection.Ahead
import H11r.Connection.Announced
import H11r.Connection.Answer
import H11r.Connection.Answers
import H11r.Connection.Arrive
import H11r.Connection.Asking
import H11r.Connection.Atomic
import H11r.Connection.Basic
import H11r.Connection.Chunked
import H11r.Connection.Coming
import H11r.Connection.Complete
import H11r.Connection.Continue
import H11r.Connection.Conversation
import H11r.Connection.Decode
import H11r.Connection.Drain
import H11r.Connection.Early
import H11r.Connection.Exchange
import H11r.Connection.Framed
import H11r.Connection.Heard
import H11r.Connection.Held
import H11r.Connection.Holding
import H11r.Connection.InTurn
import H11r.Connection.Inbound
import H11r.Connection.LastAnswer
import H11r.Connection.Layers
import H11r.Connection.Lead
import H11r.Connection.Lifecycle
import H11r.Connection.Listener
import H11r.Connection.Local
import H11r.Connection.Notes
import H11r.Connection.OneHead
import H11r.Connection.Output
import H11r.Connection.Payload
import H11r.Connection.Persistence
import H11r.Connection.Pipeline
import H11r.Connection.Positions
import H11r.Connection.Receive
import H11r.Connection.RequestTrip
import H11r.Connection.ResponseTrip
import H11r.Connection.Reuse
import H11r.Connection.Run
import H11r.Connection.Segments
import H11r.Connection.Send
import H11r.Connection.SentFraming
import H11r.Connection.Serving
import H11r.Connection.Stream
import H11r.Connection.Switch
import H11r.Connection.Talk
import H11r.Connection.Terminal
import H11r.Connection.Turn
import H11r.Connection.View
import H11r.Connection.Whole
import H11r.Connection.Writes
import H11r.Headers
import H11r.Lib.Call
import H11r.Lib.Joined
import H11r.Lib.Lines
import H11r.Lib.Machine
import H11r.Lib.Monitor
import H11r.Lib.Refine
import H11r.Lib.Text
import H11r.Pairs
import H11r.Python.Connection
import H11r.Python.Events
import H11r.Python.Mirror
import H11r.Python.Values
import H11r.State
import H11r.Wire.Announce
import H11r.Wire.Authority
import H11r.Wire.BodyLength
import H11r.Wire.Buffer
import H11r.Wire.Bytes
import H11r.Wire.Chunked
import H11r.Wire.ChunkedBody
import H11r.Wire.CodingList
import H11r.Wire.EmptyLine
import H11r.Wire.Fields
import H11r.Wire.Grammar
import H11r.Wire.Head
import H11r.Wire.HostFirst
import H11r.Wire.Httparse
import H11r.Wire.Ipv6
import H11r.Wire.Laws
import H11r.Wire.Options
import H11r.Wire.Prefix
import H11r.Wire.Reference
import H11r.Wire.Scan
import H11r.Wire.Section
import H11r.Wire.SizeLine
import H11r.Wire.Target
import H11r.Wire.Unfold
import H11r.Wire.Written
