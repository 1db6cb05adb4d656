import PacketGraph.Brick.Removal
import PacketGraph.Flow.Accumulator
import PacketGraph.Flow.Agreement
import PacketGraph.Flow.Allowed
import PacketGraph.Flow.Extensions
import PacketGraph.Flow.Offload
import PacketGraph.Flow.Reuse
import PacketGraph.Flow.UdpFilter
import PacketGraph.MacTable.Map
import PacketGraph.Partition.Merge
import PacketGraph.Queue.Capacity
import PacketGraph.Queue.Delivery
import PacketGraph.Switch.Forwarding
import PacketGraph.Switch.Restarts
import PacketGraph.Thread.Capacity
import PacketGraph.Thread.Ids
import PacketGraph.Thread.Order
import PacketGraph.Thread.Ownership
import PacketGraph.Vtep.Ageing
import PacketGraph.Vtep.Classification
import PacketGraph.Vtep.Clones
import PacketGraph.Vtep.FastPath
import PacketGraph.Vtep.Lengths
