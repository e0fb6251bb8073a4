import Pgprtdbg.Shared.MachineInt
import Pgprtdbg.Shared.Loop
import Pgprtdbg.Shared.Framing
import Pgprtdbg.Shared.Walk
import Pgprtdbg.Model.Utils
import Pgprtdbg.Model.Logging
import Pgprtdbg.Model.Message
import Pgprtdbg.Model.Frontend
import Pgprtdbg.Model.Backend
import Pgprtdbg.Model.Protocol
import Pgprtdbg.Decode.Frames
import Pgprtdbg.Decode.Parsers
import Pgprtdbg.Decode.Passes
import Pgprtdbg.Decode.Calls
import Pgprtdbg.Decode.Logs
import Pgprtdbg.Decode.Reassembly
import Pgprtdbg.Decode.ClientStream
import Pgprtdbg.Decode.OpeningPackets
import Pgprtdbg.Decode.ServerStream
import Pgprtdbg.Decode.Locality
import Pgprtdbg.Decode.Isolation
import Pgprtdbg.Decode.Termination
import Pgprtdbg.Decode.Waiting
import Pgprtdbg.Model.Pipeline
import Pgprtdbg.Worker.Handling
import Pgprtdbg.Worker.SessionEnd
import Pgprtdbg.Worker.FatalError
import Pgprtdbg.Worker.HexDump
import Pgprtdbg.Worker.Dumps
import Pgprtdbg.Worker.Survival
import Pgprtdbg.Shared.Layout
import Pgprtdbg.Body.Formats
import Pgprtdbg.Body.Frontend
import Pgprtdbg.Body.Backend
import Pgprtdbg.Body.Reads
import Pgprtdbg.Worker.Forwarding
import Pgprtdbg.Model.LogLock
import Pgprtdbg.Shared.Steps
import Pgprtdbg.Sharing.LogLock
import Pgprtdbg.Model.TraceFile
import Pgprtdbg.Sharing.TraceFile
import Pgprtdbg.Worker.Refusal
import Pgprtdbg.Worker.Statistics
import Pgprtdbg.Model.Proxy
import Pgprtdbg.Sharing.Connections
import Pgprtdbg.Sharing.Admission
import Pgprtdbg.Sharing.Accounting
import Pgprtdbg.Model.Configuration
import Pgprtdbg.Settings.Entries
import Pgprtdbg.Settings.History
import Pgprtdbg.Settings.Reading
import Pgprtdbg.Model.Network
import Pgprtdbg.Settings.Validation
import Pgprtdbg.Settings.Files
import Pgprtdbg.Shared.RoundTrip
import Pgprtdbg.Body.Encodings
import Pgprtdbg.Body.FrontendMessages
import Pgprtdbg.Body.BackendMessages
import Pgprtdbg.Decode.Removal
import Pgprtdbg.Shared.Stores
import Pgprtdbg.Worker.DumpText
import Pgprtdbg.Settings.Runs
import Pgprtdbg.Sharing.TraceText
import Pgprtdbg.Settings.Overwriting
import Pgprtdbg.Settings.Comments
import Pgprtdbg.Sockets.Connecting
import Pgprtdbg.Sockets.Binding
import Pgprtdbg.Session.Transcript
import Pgprtdbg.Session.Requests
import Pgprtdbg.Session.Replies
import Pgprtdbg.Session.Conversation
import Pgprtdbg.Shared.Weave
import Pgprtdbg.Worker.Traffic
import Pgprtdbg.Worker.TrafficText
import Pgprtdbg.Decode.Fragments
import Pgprtdbg.Sharing.Alone
import Pgprtdbg.Model.Main
import Pgprtdbg.Sharing.Shutdown
import Pgprtdbg.Sockets.Accepting
import Pgprtdbg.Sockets.UnixSocket
import Pgprtdbg.Model.LogFile
import Pgprtdbg.Sharing.LogText
import Pgprtdbg.Sharing.Sections
