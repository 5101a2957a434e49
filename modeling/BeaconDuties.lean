import BeaconDuties.Balances
import BeaconDuties.Blob
import BeaconDuties.Bytes
import BeaconDuties.Committee
import BeaconDuties.Config.Basic
import BeaconDuties.Config.ForkSchedule
import BeaconDuties.Config.Networking
import BeaconDuties.Document.Container
import BeaconDuties.Document.Network
import BeaconDuties.Document.Record
import BeaconDuties.Document.VersionText
import BeaconDuties.EpochClock
import BeaconDuties.Error
import BeaconDuties.Event
import BeaconDuties.ForkRules
import BeaconDuties.ForkRules.Sets
import BeaconDuties.Hex
import BeaconDuties.Json.Basic
import BeaconDuties.Json.Printer
import BeaconDuties.Json.Reader
import BeaconDuties.Json.Token
import BeaconDuties.LogSettings
import BeaconDuties.MerkleTree
import BeaconDuties.Milestone
import BeaconDuties.Permutation
import BeaconDuties.Primitives
import BeaconDuties.Proposer
import BeaconDuties.RecencyStore
import BeaconDuties.Saturating
import BeaconDuties.Sha256
import BeaconDuties.Shuffle.Basic
import BeaconDuties.Shuffle.PairWalk
import BeaconDuties.ShuffleCache.Basic
import BeaconDuties.ShuffleCache.Computation
import BeaconDuties.ShuffleCache.Session
import BeaconDuties.SigningDomain
import BeaconDuties.Subnet
import BeaconDuties.Proofs.Blob.Matching
import BeaconDuties.Proofs.EpochClock.Boundary
import BeaconDuties.Proofs.EpochClock.Saturation
import BeaconDuties.Proofs.EpochClock.Seconds
import BeaconDuties.Proofs.EpochClock.Tiling
import BeaconDuties.Proofs.Hex.Digits
import BeaconDuties.Proofs.Shuffle.Bijection
import BeaconDuties.Proofs.Shuffle.RoundPairs
import BeaconDuties.Proofs.Shuffle.PairCover
import BeaconDuties.Proofs.Shuffle.WordWalk
import BeaconDuties.Proofs.Shuffle.WindowReuse
import BeaconDuties.Proofs.Shuffle.HashInputs
import BeaconDuties.Proofs.Committee.Partition
import BeaconDuties.Proofs.Committee.Admission
import BeaconDuties.Proofs.Permutation.Counting
import BeaconDuties.Proofs.RecencyStore.Lookup
import BeaconDuties.Proofs.ShuffleCache.Transparency
import BeaconDuties.Proofs.Committee.Cover
import BeaconDuties.Proofs.RecencyStore.Recall
import BeaconDuties.Proofs.ShuffleCache.Recency
import BeaconDuties.Proofs.ShuffleCache.Inclusion
import BeaconDuties.Proofs.ShuffleCache.Ledger
import BeaconDuties.Proofs.Committee.Served
import BeaconDuties.Proofs.Subnet.Rotation
import BeaconDuties.Proofs.Subnet.LastEpochs
import BeaconDuties.Proofs.Subnet.Places
import BeaconDuties.Proofs.Subnet.Load
import BeaconDuties.Proofs.Subnet.Stagger
import BeaconDuties.Proofs.Subnet.Refusal
import BeaconDuties.Proofs.Proposer.FirstVisit
import BeaconDuties.Proofs.Proposer.OnePass
import BeaconDuties.Proofs.Proposer.StakeShift
import BeaconDuties.Proofs.Config.Validation
import BeaconDuties.Proofs.ForkRules.Table
import BeaconDuties.Proofs.ForkRules.Dispatch
import BeaconDuties.Proofs.ForkRules.Service
import BeaconDuties.Proofs.ForkRules.Unscheduled
import BeaconDuties.Proofs.MerkleTree.Binding
import BeaconDuties.Proofs.MerkleTree.Padding
import BeaconDuties.Proofs.SigningDomain.Binding
import BeaconDuties.Proofs.SigningDomain.Encoding
import BeaconDuties.Proofs.Json.Words
import BeaconDuties.Proofs.Json.Grammar
import BeaconDuties.Proofs.Json.Spelling
import BeaconDuties.Proofs.Document.Record
import BeaconDuties.Proofs.Document.VersionText
import BeaconDuties.Proofs.Document.Network
import BeaconDuties.Proofs.Document.Arrangement
import BeaconDuties.Proofs.Document.Exact
import BeaconDuties.Proofs.Document.Container
