import V8InspectorMinimal.Base.Runs
import V8InspectorMinimal.Base.History
import V8InspectorMinimal.Base.Locks
import V8InspectorMinimal.Base.Framing
import V8InspectorMinimal.Base.Text
import V8InspectorMinimal.Base.Bytes
import V8InspectorMinimal.Base.Doubles
import V8InspectorMinimal.Base.Traversal
import V8InspectorMinimal.Base.Loops
import V8InspectorMinimal.Base.Cells
import V8InspectorMinimal.Base.Blocks
import V8InspectorMinimal.Base.Relays
import V8InspectorMinimal.Inspector.StringView
import V8InspectorMinimal.Inspector.Encoding
import V8InspectorMinimal.Inspector.CodeUnits
import V8InspectorMinimal.SoyV8.Values
import V8InspectorMinimal.SoyV8.Memory
import V8InspectorMinimal.SoyV8.TypedArrays
import V8InspectorMinimal.SoyV8.EnumArray
import V8InspectorMinimal.SoyV8.Writes
import V8InspectorMinimal.SoyV8.Cycles
import V8InspectorMinimal.SoyV8.Numbers
import V8InspectorMinimal.SoyV8.Floats
import V8InspectorMinimal.SoyV8.Strings
import V8InspectorMinimal.SoyV8.Objects
import V8InspectorMinimal.SoyV8.Elements
import V8InspectorMinimal.SoyV8.Allocator
import V8InspectorMinimal.SoyV8.Allocations
import V8InspectorMinimal.SoyV8.Exceptions
import V8InspectorMinimal.SoyV8.Rethrown
import V8InspectorMinimal.SoyV8.Persistent
import V8InspectorMinimal.Socket.Peer
import V8InspectorMinimal.Socket.PeerSteps
import V8InspectorMinimal.Socket.CurrentMessage
import V8InspectorMinimal.Socket.Handshake
import V8InspectorMinimal.Socket.Reassembly
import V8InspectorMinimal.Socket.Server
import V8InspectorMinimal.Host.Model
import V8InspectorMinimal.Host.Steps
import V8InspectorMinimal.Host.Pause
import V8InspectorMinimal.Host.Queue
import V8InspectorMinimal.Host.Clients
import V8InspectorMinimal.Host.Sending
import V8InspectorMinimal.Host.Connections
import V8InspectorMinimal.Host.Responses
import V8InspectorMinimal.Host.Peers
import V8InspectorMinimal.Host.Delivery
import V8InspectorMinimal.Host.Routing
import V8InspectorMinimal.Host.Answering
import V8InspectorMinimal.Host.Failure
import V8InspectorMinimal.Host.Locking
import V8InspectorMinimal.Host.Atomic
import V8InspectorMinimal.Host.Orderly
import V8InspectorMinimal.Host.Races
import V8InspectorMinimal.Host.Rest
import V8InspectorMinimal.Host.Predefined
import V8InspectorMinimal.Host.Relay
