import LinkFabric.Address.Basic
import LinkFabric.Address.Text
import LinkFabric.Binary64
import LinkFabric.Blake3
import LinkFabric.Bytes
import LinkFabric.Coordination.Aggregator
import LinkFabric.Coordination.Assignment
import LinkFabric.Coordination.Coordinator
import LinkFabric.Coordination.Error
import LinkFabric.Coordination.Reduction
import LinkFabric.Coordination.Registry
import LinkFabric.Coordination.Roster
import LinkFabric.Datagram.Beacon
import LinkFabric.Datagram.Error
import LinkFabric.Datagram.Header
import LinkFabric.Datagram.Message
import LinkFabric.Datagram.Record
import LinkFabric.Declarations
import LinkFabric.Election.Agent
import LinkFabric.Election.Fleet
import LinkFabric.Election.Rank
import LinkFabric.KeyStore
import LinkFabric.Link.Basic
import LinkFabric.Link.Error
import LinkFabric.Link.Identity
import LinkFabric.Link.Kind
import LinkFabric.Node.Basic
import LinkFabric.Node.Bench
import LinkFabric.Node.Binder
import LinkFabric.Node.BindingTable
import LinkFabric.Node.Error
import LinkFabric.Packing
import LinkFabric.Scalar
import LinkFabric.Settings.Basic
import LinkFabric.Settings.Json
import LinkFabric.Settings.Spec
import LinkFabric.SortedMap
import LinkFabric.TagQuery
import LinkFabric.Text.Blank
import LinkFabric.Text.Hex
import LinkFabric.Text.Numeral
import LinkFabric.Time
import LinkFabric.Value
import LinkFabric.Proofs.Agent
import LinkFabric.Proofs.RankInvariant
import LinkFabric.Proofs.Segment
import LinkFabric.Proofs.FleetInvariant
import LinkFabric.Proofs.SingleLeader
import LinkFabric.Proofs.Stabilisation
import LinkFabric.Proofs.BindingTable
import LinkFabric.Proofs.Resending
import LinkFabric.Proofs.Words
import LinkFabric.Proofs.Records
import LinkFabric.Proofs.RoundTrip
import LinkFabric.Proofs.Installation
import LinkFabric.Proofs.Aggregation
import LinkFabric.Proofs.Leadership
import LinkFabric.Proofs.Lease
import LinkFabric.Proofs.RegistryHistory
import LinkFabric.Proofs.Grammar
import LinkFabric.Proofs.FanoutRouting
import LinkFabric.Proofs.Handover
import LinkFabric.Proofs.DataPacking
import LinkFabric.Proofs.AdvertOrder
import LinkFabric.Proofs.DeclaredLinks
import LinkFabric.Proofs.BeaconHistory
import LinkFabric.Proofs.Normalisation
import LinkFabric.Proofs.TableInvariant
import LinkFabric.Proofs.AssignmentShape
import LinkFabric.Proofs.RosterHistory
import LinkFabric.Proofs.TagSets
import LinkFabric.Proofs.Moments
import LinkFabric.Proofs.DeclarationHistory
import LinkFabric.Proofs.SampleHistory
import LinkFabric.Proofs.UnreadSamples
import LinkFabric.Proofs.SinkWrites
import LinkFabric.Proofs.LinkIdentity
import LinkFabric.Proofs.Reduction
import LinkFabric.Proofs.Numerals
import LinkFabric.Proofs.ConfiguredTags
import LinkFabric.Proofs.Quantities
import LinkFabric.Proofs.RegistryBounds
import LinkFabric.Proofs.RenouncedLeader
import LinkFabric.Proofs.TimerPeriods
import LinkFabric.Proofs.Enumeration
