import OpenAmq.Agent.Channel
import OpenAmq.Agent.Transmission
import OpenAmq.Asl.Bounds
import OpenAmq.Asl.Dispatch
import OpenAmq.Asl.FieldText
import OpenAmq.Asl.MethodCodec
import OpenAmq.Asl.MethodMemory
import OpenAmq.Asl.Roundtrip
import OpenAmq.Broker.Exclusive
import OpenAmq.Broker.Wakeup
import OpenAmq.Client.FlowControl
import OpenAmq.Container.Array
import OpenAmq.Container.HashRuns
import OpenAmq.Container.IterList
import OpenAmq.Container.ListRuns
import OpenAmq.Container.TreeRuns
import OpenAmq.Container.TreeTraversal
import OpenAmq.Content.Batching
import OpenAmq.Content.Body
import OpenAmq.Content.Chrono
import OpenAmq.Content.Direct
import OpenAmq.Exchange.Delivery
import OpenAmq.Exchange.Federation
import OpenAmq.Exchange.Headers
import OpenAmq.Exchange.Once
import OpenAmq.Exchange.TopicExpansion
import OpenAmq.Exchange.TopicPattern
import OpenAmq.Exchange.Undo
import OpenAmq.Failover.SplitBrain
import OpenAmq.Http.Address
import OpenAmq.Http.Independence
import OpenAmq.Http.PolicyCursor
import OpenAmq.Icl.Format
import OpenAmq.Ipr.BackwardScan
import OpenAmq.Ipr.BitFile
import OpenAmq.Ipr.Config
import OpenAmq.Ipr.Cursor
import OpenAmq.Ipr.Find
import OpenAmq.Ipr.Glob
import OpenAmq.Ipr.Guarded
import OpenAmq.Ipr.Headers
import OpenAmq.Ipr.Index
import OpenAmq.Ipr.Lookup
import OpenAmq.Ipr.Nonces
import OpenAmq.Ipr.Path
import OpenAmq.Ipr.Template
import OpenAmq.Ipr.Token
import OpenAmq.Ipr.Unescape
import OpenAmq.Lib.Split
import OpenAmq.Lib.Transducer
import OpenAmq.Peering.Disposition
import OpenAmq.Peering.Replay
import OpenAmq.Peering.Replication
import OpenAmq.Queue.Conservation
import OpenAmq.Queue.Direct
import OpenAmq.Queue.Eligibility
import OpenAmq.Queue.Limits
import OpenAmq.Queue.Order
import OpenAmq.Server.Authentication
import OpenAmq.Server.Default
import OpenAmq.Server.FeedLease
import OpenAmq.Server.Generated
import OpenAmq.Server.Private
import OpenAmq.Smt.Covered
import OpenAmq.Smt.Method
import OpenAmq.Smt.Read
import OpenAmq.Smt.Timers
import OpenAmq.Smt.Waiting
import OpenAmq.Smt.Write
import OpenAmq.Zyre.Conditional
import OpenAmq.Zyre.Connection
import OpenAmq.Zyre.Integrity
import OpenAmq.Zyre.Mirror
import OpenAmq.Zyre.Publish
