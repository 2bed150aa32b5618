import Egsr.Grp.Framing
import Egsr.Grp.ShortestPaths
import Egsr.Grp.FirstHop
import Egsr.Grp.GreedyForwarding
import Egsr.Grp.Conservation
import Egsr.Grp.Cursor
import Egsr.Grp.CarryTime
import Egsr.Grp.EmfRounding
import Egsr.Grp.AntRun
import Egsr.Grp.AntProgress
import Egsr.Grp.Freshness
import Egsr.Grp.MessageBounds
import Egsr.Grp.JunctionTracking
import Egsr.Grp.Pheromone
import Egsr.Core.HeapScheduler
import Egsr.Core.OrderedSchedulers
import Egsr.Network.PacketTagMaps
import Egsr.MyServer.BlankLength
import Egsr.MyServer.NextJunction
import Egsr.Network.BufferRuns
import Egsr.Internet.SackList
import Egsr.Lte.FieldRoundTrip
import Egsr.Internet.RipInvariant
import Egsr.Internet.RipLoopFreedom
import Egsr.Internet.ArpResolution
import Egsr.Wifi.Defragmentation
import Egsr.Olsr.TopologyFreshness
import Egsr.Olsr.ShortestRoutes
import Egsr.Aodv.QueueConservation
import Egsr.Aodv.Discovery
import Egsr.Aodv.SequenceAuthenticity
import Egsr.Dsdv.Retention
import Egsr.Dsdv.OwnSequence
import Egsr.Dsdv.LoopFreedom
import Egsr.TrafficControl.ControlLaw
import Egsr.TrafficControl.StandingQueue
import Egsr.TrafficControl.Accounting
import Egsr.Lte.RlcUmSegmentation
import Egsr.Lte.StatusPdu
import Egsr.Dsr.PathCacheInvariant
import Egsr.Wifi.WifiMacQueueRefinement
import Egsr.Dsr.LinkCacheRoutes
import Egsr.Core.TimeUnits
import Egsr.Network.NixVector
import Egsr.Internet.NextSeg
import Egsr.Internet.PartialPacket
import Egsr.Internet.StaticRouting
import Egsr.Internet.RipRequests
import Egsr.Aodv.ErrorReports
import Egsr.Network.AddressBlock
import Egsr.Sixlowpan.Hc1
import Egsr.Wifi.Aggregation
import Egsr.Wifi.BlockAckCache
import Egsr.Wifi.TransmitWindow
import Egsr.TrafficControl.TokenConformance
import Egsr.Internet.Ipv6AddressParser
import Egsr.Internet.StreamDelivery
import Egsr.Mpi.DistributedSimulator
import Egsr.Applications.PacketLossCounter
