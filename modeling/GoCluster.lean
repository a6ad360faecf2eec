import GoCluster.Dedup.Theorems
import GoCluster.Reputation.Quota
import GoCluster.Aggregate.Retention
import GoCluster.Aggregate.Spacing
import GoCluster.Output.Policy
import GoCluster.Dedup.Keys
import GoCluster.Archive.Keys
import GoCluster.Gridstore.Pending
import GoCluster.Uls.Memory
import GoCluster.Filters.Reset
import GoCluster.Filters.Blocking
import GoCluster.Telnet.Nearby
import GoCluster.Peer.Forwarding
import GoCluster.Peer.Framing
import GoCluster.Peer.Flooding
import GoCluster.Peer.Topology
import GoCluster.Telnet.DropWindow
import GoCluster.Telnet.Rejections
import GoCluster.Telnet.Broadcast
import GoCluster.Telnet.Logins
import GoCluster.Pathreliability.Sufficiency
import GoCluster.Solarweather.HoldDown
import GoCluster.Reputation.Schedule
import GoCluster.Reputation.Disagreement
import GoCluster.Reputation.Memory
import GoCluster.Reputation.CacheLocks
import GoCluster.Gridstore.Shutdown
import GoCluster.Ingest.Frequencies
import GoCluster.Ingest.Psk
import GoCluster.Archive.History
import GoCluster.Dedup.Cleanup
import GoCluster.Buffer.RingBuffer
import GoCluster.Correction.Majority
import GoCluster.Spot.Averager
import GoCluster.Spot.Reports
import GoCluster.Correction.Index
import GoCluster.Archive.Scans
import GoCluster.Cty.Lookup
import GoCluster.CallMeta.Grids
import GoCluster.Telnet.Dxbm
