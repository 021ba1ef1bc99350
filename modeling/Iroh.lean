import Iroh.Docs.Ranger.Range
import Iroh.Docs.Ranger.Store
import Iroh.Docs.Ranger.SimpleStore
import Iroh.Docs.Ranger.PrefixDeletion
import Iroh.Docs.Ranger.Exchange
import Iroh.Docs.Ranger.NoResend
import Iroh.Docs.Ranger.Convergence
import Iroh.Docs.Ranger.Termination
import Iroh.Docs.Entry
import Iroh.Docs.Store.Fs
import Iroh.Docs.Store.Bounds
import Iroh.Docs.Heads
import Iroh.Docs.Store.Tables
import Iroh.Docs.Store.Split
import Iroh.Docs.Store.Query
import Iroh.Docs.Replica
import Iroh.Gossip.Util
import Iroh.Lib.Machine
import Iroh.Gossip.Hyparview
import Iroh.Gossip.Plumtree
import Iroh.Gossip.Topic
import Iroh.Gossip.Views
import Iroh.Gossip.Delivery
import Iroh.Gossip.Panics
import Iroh.Gossip.PushPeers
import Iroh.Gossip.Neighbors
import Iroh.Gossip.Proto
import Iroh.Blobs.HashSeq
import Iroh.Blobs.Store.Mem
import Iroh.Blobs.Collection
import Iroh.Blobs.Store.Fs
import Iroh.Blobs.Gc
import Iroh.Blobs.BaoFile
import Iroh.Blobs.Downloader
import Iroh.Gossip.Simulator
import Iroh.Gossip.Grafts
import Iroh.Gossip.Lift
import Iroh.Gossip.Recovery
import Iroh.Docs.Engine
import Iroh.Net.Disco
import Iroh.Net.Tls
import Iroh.Net.NodeMap
import Iroh.Net.Dns
import Iroh.Lib.Slice
import Iroh.Net.Portmapper
import Iroh.Gossip.Net
import Iroh.Docs.Net.Codec
import Iroh.Blobs.RangeSpec
import Iroh.Blobs.Provider
import Iroh.Blobs.RangeSpecSeq
import Iroh.Net.UdpPaths
import Iroh.Net.RelayCodec
import Iroh.Net.RelayPackets
import Iroh.Net.Disco.RoundTrip
import Iroh.Docs.Engine.Content
import Iroh.Util.Fs
import Iroh.Gossip.Expiry
import Iroh.Lib.Lru
import Iroh.Lib.Utf8
import Iroh.Docs.Store.Peers
import Iroh.Net.RelayServer
import Iroh.Net.RelayServer.Unregister
import Iroh.Net.RelayServer.Runs
import Iroh.Net.RelayServer.Order
import Iroh.Net.RelayServer.PeerGone
import Iroh.DnsServer.ZoneStore
import Iroh.DnsServer.ZoneStore.Runs
import Iroh.DnsServer.ZoneStore.Serial
import Iroh.DnsServer.Name
import Iroh.DnsServer.Authority
import Iroh.Docs.Actor
import Iroh.Docs.Actor.Runs
import Iroh.Docs.Actor.Lifecycle
