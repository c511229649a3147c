import StellarConduit.Lib.Machine
import StellarConduit.Lib.HashMap
import StellarConduit.Lib.Bytes
import StellarConduit.Lib.Lru
import StellarConduit.Lib.Fragments
import StellarConduit.Message.Agreement
import StellarConduit.Metrics
import StellarConduit.Peer.Peer
import StellarConduit.Relay.Dedup
import StellarConduit.Relay.Node
import StellarConduit.Discovery.PeerList
import StellarConduit.Gossip.StrikeTracker
import StellarConduit.Persistence.Db
import StellarConduit.Relay.Submission
import StellarConduit.Security.PeerBan
import StellarConduit.Transport.Connections
import StellarConduit.Gossip.Intake
import StellarConduit.Gossip.Origin
import StellarConduit.Transport.Chunk
import StellarConduit.Transport.Reassembler
import StellarConduit.Transport.Reassembly
import StellarConduit.Transport.Wifi
import StellarConduit.Transport.WifiLink
import StellarConduit.Gossip.Queue
import StellarConduit.Gossip.State
import StellarConduit.Discovery.Bans
import StellarConduit.Security.Restart
import StellarConduit.Gossip.Round
import StellarConduit.Gossip.Loop
import StellarConduit.Transport.Power
import StellarConduit.Transport.Manager
import StellarConduit.Transport.Deferred
import StellarConduit.Transport.Dropped
import StellarConduit.Transport.Framing
import StellarConduit.Transport.Polling
import StellarConduit.Gossip.QueueRuns
import StellarConduit.Gossip.Arrival
import StellarConduit.Gossip.Verdicts
import StellarConduit.Gossip.Sending
import StellarConduit.Gossip.Suppression
import StellarConduit.Gossip.Arms
import StellarConduit.Gossip.Exchange
import StellarConduit.Gossip.Timeout
import StellarConduit.Gossip.Network
import StellarConduit.Gossip.Reputation
import StellarConduit.Gossip.StrikeRuns
import StellarConduit.Router.Routes
import StellarConduit.Gossip.Merging
import StellarConduit.Lib.Windows
import StellarConduit.Security.RateLimit
import StellarConduit.Lib.Broadcast
import StellarConduit.Topology.Graph
import StellarConduit.Gossip.Routing
import StellarConduit.Transport.Moves
import StellarConduit.Transport.Operations
import StellarConduit.Transport.PeerCount
import StellarConduit.Transport.Listeners
import StellarConduit.Transport.Logging
import StellarConduit.Transport.Preference
import StellarConduit.Transport.Silence
import StellarConduit.Topology.HopCounter
import StellarConduit.Lib.Bfs
import StellarConduit.Router.PathFinder
import StellarConduit.Peer.BanRecord
import StellarConduit.Persistence.Peers
import StellarConduit.Security.BanRace
import StellarConduit.Gossip.CarriedBans
import StellarConduit.Relay.Proofs
import StellarConduit.Relay.Ledgers
import StellarConduit.Transport.Flags
import StellarConduit.Lib.MessagePack
import StellarConduit.Message.Encoding
import StellarConduit.Gossip.Batches
import StellarConduit.Gossip.Accounting
import StellarConduit.Transport.ChunkCodec
import StellarConduit.Router.KnownRelays
import StellarConduit.Transport.PowerRuns
import StellarConduit.Transport.Isolation
import StellarConduit.Transport.ControlTraffic
import StellarConduit.Lib.LastWrite
import StellarConduit.Persistence.RelayProofs
import StellarConduit.Persistence.Offline
import StellarConduit.Security.BanDurations
import StellarConduit.Relay.Retry
import StellarConduit.Topology.GraphRuns
import StellarConduit.Message.Size
import StellarConduit.Message.Preimages
import StellarConduit.Topology.Announcements
import StellarConduit.Security.Encryption
import StellarConduit.Discovery.TxtRecords
import StellarConduit.Transport.Ble
import StellarConduit.Transport.Registrations
import StellarConduit.Persistence.Pending
import StellarConduit.Topology.Health
import StellarConduit.Transport.DutyCycle
import StellarConduit.Gossip.Scheduler
import StellarConduit.Transport.BleIntake
import StellarConduit.Lib.Hex
import StellarConduit.Ffi
import StellarConduit.Discovery.Advertising
import StellarConduit.Discovery.Daemon
import StellarConduit.Transport.Reconnect
import StellarConduit.Gossip.Forwarding
import StellarConduit.Gossip.Dissemination
import StellarConduit.Gossip.Traffic
import StellarConduit.Gossip.Waiting
import StellarConduit.Transport.DeferredOrder
import StellarConduit.Router.Progress
