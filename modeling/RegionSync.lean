import RegionSync.Binary.Arithmetic
import RegionSync.Binary.Basic
import RegionSync.Binary.Decimal
import RegionSync.Binary.Elementary
import RegionSync.Bytes
import RegionSync.Command.Options
import RegionSync.Command.Run
import RegionSync.Config
import RegionSync.Discovery.Exchange
import RegionSync.Discovery.Frame
import RegionSync.Discovery.Listing
import RegionSync.Discovery.Query
import RegionSync.Document
import RegionSync.Entity.Name
import RegionSync.Entity.NameSet
import RegionSync.Fault
import RegionSync.Instance.Answering
import RegionSync.Instance.Basic
import RegionSync.Instance.Call
import RegionSync.Instance.Task
import RegionSync.Json.Basic
import RegionSync.Json.Reader
import RegionSync.Json.Record
import RegionSync.Main
import RegionSync.Message
import RegionSync.Name
import RegionSync.Network.Agenda
import RegionSync.Network.Conditions
import RegionSync.Network.Hub
import RegionSync.Node
import RegionSync.Peer.Basic
import RegionSync.Peer.Discovery
import RegionSync.Peer.Event
import RegionSync.Peer.Polling
import RegionSync.Peer.Publishing
import RegionSync.Peer.Tracking
import RegionSync.Position.History
import RegionSync.Position.Payload
import RegionSync.Position.Point
import RegionSync.Position.Poll
import RegionSync.Position.Window
import RegionSync.Power
import RegionSync.Proofs.Binary.Decimal
import RegionSync.Proofs.Binary.Magnitude
import RegionSync.Proofs.Binary.Order
import RegionSync.Proofs.Binary.Rounding
import RegionSync.Proofs.Binary.Whole
import RegionSync.Proofs.Discovery.Answer
import RegionSync.Proofs.Discovery.Frame
import RegionSync.Proofs.Discovery.Lines
import RegionSync.Proofs.Discovery.Listing
import RegionSync.Proofs.Discovery.News
import RegionSync.Proofs.Discovery.Query
import RegionSync.Proofs.Entity.Hash
import RegionSync.Proofs.Entity.Key
import RegionSync.Proofs.Instance.Lifespan
import RegionSync.Proofs.Instance.Session
import RegionSync.Proofs.Instance.Shutdown
import RegionSync.Proofs.Instance.Stake
import RegionSync.Proofs.Instance.Starting
import RegionSync.Proofs.Instance.Tracking
import RegionSync.Proofs.Instance.Turn
import RegionSync.Proofs.Instance.Unstarted
import RegionSync.Proofs.Instance.Work
import RegionSync.Proofs.Message.Name
import RegionSync.Proofs.Message.Signed
import RegionSync.Proofs.Network.Agenda
import RegionSync.Proofs.Network.Certain
import RegionSync.Proofs.Peer.Advancing
import RegionSync.Proofs.Peer.Answering
import RegionSync.Proofs.Peer.Asking
import RegionSync.Proofs.Peer.Change
import RegionSync.Proofs.Peer.Commuting
import RegionSync.Proofs.Peer.Consistency
import RegionSync.Proofs.Peer.Convergence
import RegionSync.Proofs.Peer.Dropping
import RegionSync.Proofs.Peer.Exchange
import RegionSync.Proofs.Peer.Faults
import RegionSync.Proofs.Peer.Forged
import RegionSync.Proofs.Peer.Hearing
import RegionSync.Proofs.Peer.Learning
import RegionSync.Proofs.Peer.Making
import RegionSync.Proofs.Peer.Membership
import RegionSync.Proofs.Peer.Pair
import RegionSync.Proofs.Peer.Polling
import RegionSync.Proofs.Peer.Publishing
import RegionSync.Proofs.Peer.Respelling
import RegionSync.Proofs.Peer.Rounds
import RegionSync.Proofs.Peer.Routing
import RegionSync.Proofs.Peer.Run
import RegionSync.Proofs.Peer.Stays
import RegionSync.Proofs.Peer.Sweep
import RegionSync.Proofs.Peer.Tracking
import RegionSync.Proofs.Peer.Working
import RegionSync.Proofs.Position.Arithmetic
import RegionSync.Proofs.Position.History
import RegionSync.Proofs.Position.Newer
import RegionSync.Proofs.Position.Payload
import RegionSync.Proofs.Position.Walk
import RegionSync.Proofs.Position.Window
import RegionSync.Proofs.Random.Normal
import RegionSync.Proofs.Random.Rejection
import RegionSync.Proofs.Region.Digest
import RegionSync.Proofs.Region.Flat
import RegionSync.Proofs.Region.Geometry
import RegionSync.Proofs.Region.InPlace
import RegionSync.Proofs.Region.Octant
import RegionSync.Proofs.Region.Octree
import RegionSync.Proofs.Region.Path
import RegionSync.Proofs.Region.Traversal
import RegionSync.Proofs.Region.Words
import RegionSync.Proofs.Simulation.Asking
import RegionSync.Proofs.Simulation.Earliest
import RegionSync.Proofs.Simulation.Scripted
import RegionSync.Proofs.Text.Base64
import RegionSync.Proofs.Text.Split
import RegionSync.Proofs.Text.Utf8
import RegionSync.Proofs.World.Truth
import RegionSync.Random.Generator
import RegionSync.Random.Layers
import RegionSync.Random.Normal
import RegionSync.Region.Geometry
import RegionSync.Region.Octant
import RegionSync.Region.Octree
import RegionSync.Region.Path
import RegionSync.Signature.Curve
import RegionSync.Signature.Ed25519
import RegionSync.Signature.Sha512
import RegionSync.Simulation.Basic
import RegionSync.Simulation.Clock
import RegionSync.Simulation.Host
import RegionSync.Simulation.Seeds
import RegionSync.Simulation.Step
import RegionSync.Text.Base64
import RegionSync.Text.Blank
import RegionSync.Text.Hex
import RegionSync.Text.Hidden
import RegionSync.Text.Number
import RegionSync.Text.Quoted
import RegionSync.Text.Split
import RegionSync.Text.Utf8
import RegionSync.Trust
import RegionSync.Wire
import RegionSync.World.Basic
import RegionSync.World.Record
import RegionSync.World.Scenario
import RegionSync.World.Truth
