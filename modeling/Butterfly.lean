import Butterfly.Model
import Butterfly.Convert
import Butterfly.Foundation.CommandQueue
import Butterfly.Packetgraph
import Butterfly.Filter
import Butterfly.Server
import Butterfly.Graph
import Butterfly.Api
import Butterfly.Api0
import Butterfly.GraphSpec
import Butterfly.Tuning
import Butterfly.Action
import Butterfly.Agreement
import Butterfly.Libc
import Butterfly.Run
import Butterfly.Firewall
import Butterfly.Refresh
import Butterfly.Access
import Butterfly.Coherence
import Butterfly.Liveness
import Butterfly.Crypto
import Butterfly.Envelope
import Butterfly.Reply
import Butterfly.Store
import Butterfly.WellFormed
import Butterfly.RuleStore
import Butterfly.Addresses
import Butterfly.MemberRules
import Butterfly.Direction
import Butterfly.Assembly
import Butterfly.CidrRules
import Butterfly.Rebuild
import Butterfly.Deletion
import Butterfly.NicUpdates
import Butterfly.Responses
import Butterfly.Polling
import Butterfly.Numbering
import Butterfly.Refusals
import Butterfly.Idempotence
import Butterfly.Replay
import Butterfly.Threads
import Butterfly.Antispoof
import Butterfly.Bench
import Butterfly.MacSyntax
import Butterfly.RuleFormat
import Butterfly.Padding
import Butterfly.NicSg
import Butterfly.LostUpdates
import Butterfly.Arguments
import Butterfly.Fanout
import Butterfly.Mtu
import Butterfly.Responder
import Butterfly.Main
import Butterfly.SideRuns
import Butterfly.LiveGraph
import Butterfly.Exchange
import Butterfly.Dump
import Butterfly.Foundation.Fairness
import Butterfly.Progress
import Butterfly.Disposal
import Butterfly.Shutdown
import Butterfly.Tenancy
import Butterfly.Screening
