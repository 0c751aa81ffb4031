import Legio.Containers
import Legio.BinaryCodec
import Legio.CryptoInterface
import Legio.MessageFormat
import Legio.CipherBody
import Legio.ExceptionStates
import Legio.SerialNumbers
import Legio.NodeComponents
import Legio.ReplayFilter
import Legio.GraphComponent
import Legio.NodeDispatch
import Legio.RoutingTableSearch
import Legio.LinkStateStore
import Legio.GraphUpdates
import Legio.GraphRuns
import Legio.RoutingTableCompleteness
import Legio.InsertionOrder
import Legio.DirectMessages
import Legio.LocalLinks
import Legio.ChannelTopology
import Legio.RoutedDelivery
import Legio.SequencedFlooding
import Legio.TransportSteps
import Legio.MessageRelay
import Legio.BroadcastDelivery
import Legio.VersionedFlooding
import Legio.StateMessages
import Legio.LinkStateSteps
import Legio.LinkStateNetwork
import Legio.LinkStateAgreement
import Legio.LinkStateRuns
import Legio.QuiescentAgreement
import Legio.AcceptedFrames
import Legio.GraphInvariants
import Legio.NodeRuns
import Legio.PublishedTable
import Legio.SignedProvenance
import Legio.ConcurrentSenders
import Legio.FloodingTrails
import Legio.ReturningBroadcasts
import Legio.NeighborBindings
import Legio.LockedPrograms
import Legio.NodeLocks
import Legio.PendingMessages
import Legio.OfferAnswer
import Legio.PeerNegotiation
import Legio.SimultaneousOffers
import Legio.RoutingLinks
import Legio.Base64
import Legio.Base64Decoding
import Legio.Base64RoundTrips
import Legio.Base64Reference
import Legio.FailedInserts
import Legio.ClosedWebSockets
import Legio.FloodTermination
import Legio.FloodInvariants
import Legio.StateFloods
import Legio.FieldCodec
import Legio.StringScans
import Legio.Hex
import Legio.HexText
import Legio.ReaderBounds
import Legio.GraphLocking
import Legio.OrderedMaps
import Legio.TaskScheduler
import Legio.AutomaticPeering
import Legio.PeeringChannels
import Legio.VertexHistory
import Legio.BinaryHeaps
import Legio.QueueLoop
import Legio.QueueRuns
import Legio.TwinRuns
import Legio.TrafficSeparation
import Legio.BoundedTraffic
import Legio.LearnedTopology
import Legio.DeliveredMessages
import Legio.DirectTraffic
import Legio.FloodedBroadcasts
import Legio.ConvergedRoutes
import Legio.PayloadOrigins
import Legio.AuthenticKeys
import Legio.ServerUrls
import Legio.ArrivingMessages
