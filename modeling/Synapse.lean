import Synapse.Json.Utf8
import Synapse.Json.Encode
import Synapse.Json.Decode
import Synapse.Json.Strings
import Synapse.Json.Time
import Synapse.Json.Unmarshal
import Synapse.Json.Base64
import Synapse.Json.RoundTrip
import Synapse.Json.Indent
import Synapse.Json.Fields
import Synapse.Json.Valid
import Synapse.P2P.Message
import Synapse.P2P.Pool
import Synapse.Topology.Manager
import Synapse.Crypto.Handshake
import Synapse.P2P.Network
import Synapse.P2P.Serialization
import Synapse.P2P.Heartbeat
import Synapse.P2P.Lifecycle
import Synapse.P2P.Registry
import Synapse.P2P.Send
import Synapse.P2P.Framing
import Synapse.P2P.SecureHandshake
import Synapse.Topology.Locking
import Synapse.Topology.Reputation
import Synapse.Topology.Float64
import Synapse.Topology.Ranking
import Synapse.Topology.Invariants
import Synapse.P2P.Capacity
import Synapse.Crypto.Freshness
import Synapse.Crypto.Encrypt
import Synapse.Topology.Routing
import Synapse.Node.Lifecycle
import Synapse.Topology.Metrics
import Synapse.Discovery.ServiceEntry
import Synapse.Discovery.Bootstrap
import Synapse.Topology.Rank
import Synapse.Settings.Config
import Synapse.Node.Uuid
import Synapse.Node.Identity
import Synapse.Settings.Reload
