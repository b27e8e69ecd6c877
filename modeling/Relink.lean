import Relink.Library.BitPolynomial
import Relink.Library.Buffer
import Relink.Library.CounterMode
import Relink.Library.DropOldest
import Relink.Library.Fair
import Relink.Library.Gather
import Relink.Library.Intern
import Relink.Library.Latest
import Relink.Library.Layout
import Relink.Library.LittleEndian
import Relink.Library.Recent
import Relink.Library.Record
import Relink.Library.Rijndael
import Relink.Library.Ring
import Relink.Library.Rounding
import Relink.Library.Run
import Relink.Library.Scatter
import Relink.Library.Slots
import Relink.Library.Sweep
import Relink.Library.Token
import Relink.Wire.Beacon
import Relink.Wire.Directory
import Relink.Wire.DirectoryCodec
import Relink.Wire.Frame
import Relink.Wire.FrameCodec
import Relink.Wire.Register
import Relink.Wire.RegisterCodec
import Relink.Wire.Reply
import Relink.Crypto.Aes
import Relink.Crypto.Agree
import Relink.Crypto.ByteField
import Relink.Crypto.Counters
import Relink.Crypto.Fips197
import Relink.Crypto.Gcm
import Relink.Crypto.Ghash
import Relink.Crypto.Python
import Relink.Transport.Dedup
import Relink.Transport.Passed
import Relink.Transport.Publish
import Relink.Transport.Python
import Relink.Transport.Receive
import Relink.Transport.RingBuffer
import Relink.Transport.SendBuffer
import Relink.Transport.Window
import Relink.Transport.ZeroCopy
import Relink.Image.Agree
import Relink.Image.Arrivals
import Relink.Image.Delivery
import Relink.Image.Encode
import Relink.Image.Exact
import Relink.Image.KeyErrors
import Relink.Image.Mixed
import Relink.Image.Publish
import Relink.Image.Python
import Relink.Image.Reassembler
import Relink.Image.ReceivePath
import Relink.Rlcore.Ack
import Relink.Rlcore.Agree
import Relink.Rlcore.Answered
import Relink.Rlcore.Backlog
import Relink.Rlcore.Consistent
import Relink.Rlcore.Demux
import Relink.Rlcore.Directory
import Relink.Rlcore.Eviction
import Relink.Rlcore.Fleet
import Relink.Rlcore.History
import Relink.Rlcore.Interchange
import Relink.Rlcore.Learned
import Relink.Rlcore.OnSocket
import Relink.Rlcore.OwnAddress
import Relink.Rlcore.Python
import Relink.Rlcore.Replay
import Relink.Rlcore.Replies
import Relink.Rlcore.ReplyQueue
import Relink.Rlcore.Reregister
import Relink.Rlcore.Server
import Relink.Rlcore.Sources
import Relink.Rlcore.State
import Relink.Rlcore.Twice
import Relink.Shm.Bytewise
import Relink.Shm.Calls
import Relink.Shm.Fifo
import Relink.Shm.Invariant
import Relink.Shm.Open
import Relink.Shm.Python
import Relink.Shm.Recovery
import Relink.Shm.Ring
import Relink.Shm.Takeover
import Relink.Shm.WordRing
import Relink.Shm.Words
import Relink.Bitrate.Controller
import Relink.Bitrate.History
import Relink.Bitrate.Python
import Relink.Discovery.Announce
import Relink.Discovery.BeaconCodec
import Relink.Discovery.Listener
import Relink.Discovery.Listing
import Relink.Discovery.LocalPeers
import Relink.Discovery.Multicast
import Relink.Discovery.Names
import Relink.Discovery.Peers
import Relink.Discovery.Registry
import Relink.Message.Delivery
import Relink.Message.Schema
import Relink.Message.Traffic
import Relink.Message.Types
import Relink.Node.Announced
import Relink.Node.Config
import Relink.Node.Declare
import Relink.Node.Groups
import Relink.Node.LocalIpc
import Relink.Node.Polling
import Relink.Node.Rejected
import Relink.Node.Restart
import Relink.Node.Rings
import Relink.Node.Segments
import Relink.Node.Served
import Relink.Node.Session
import Relink.Relay.Exact
import Relink.Relay.Standalone
import Relink.Relay.Umem
import Relink.Relay.Xdp
