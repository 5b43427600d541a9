import PeerCache.Announcement
import PeerCache.Book
import PeerCache.Bytes
import PeerCache.Cache.Audit
import PeerCache.Cache.Basic
import PeerCache.Cache.Dial
import PeerCache.Cache.Encode
import PeerCache.Cache.Equality
import PeerCache.Cache.Learn
import PeerCache.Cache.Load
import PeerCache.Cache.Sample
import PeerCache.Cache.Stored
import PeerCache.Clock
import PeerCache.Decoder
import PeerCache.Discovery
import PeerCache.Error
import PeerCache.Hash.Sha256
import PeerCache.Metrics
import PeerCache.Net.Endpoint
import PeerCache.Net.Group
import PeerCache.Net.Ip
import PeerCache.Net.Printer
import PeerCache.Net.Reader
import PeerCache.Net.Routing
import PeerCache.Placement
import PeerCache.Policy
import PeerCache.Proofs.Cache.Acceptance
import PeerCache.Proofs.Cache.Admission
import PeerCache.Proofs.Cache.Audit
import PeerCache.Proofs.Cache.AuditExact
import PeerCache.Proofs.Cache.Bookkeeping
import PeerCache.Proofs.Cache.Canonical
import PeerCache.Proofs.Cache.Choice
import PeerCache.Proofs.Cache.Confirmed
import PeerCache.Proofs.Cache.Copy
import PeerCache.Proofs.Cache.Decline
import PeerCache.Proofs.Cache.Delimited
import PeerCache.Proofs.Cache.Dial
import PeerCache.Proofs.Cache.Displacement
import PeerCache.Proofs.Cache.Eclipse
import PeerCache.Proofs.Cache.FileForm
import PeerCache.Proofs.Cache.History
import PeerCache.Proofs.Cache.Indistinguishable
import PeerCache.Proofs.Cache.Informants
import PeerCache.Proofs.Cache.LastSeen
import PeerCache.Proofs.Cache.Learn
import PeerCache.Proofs.Cache.Load
import PeerCache.Proofs.Cache.LoadLosses
import PeerCache.Proofs.Cache.LoadOrder
import PeerCache.Proofs.Cache.Lockstep
import PeerCache.Proofs.Cache.Misdated
import PeerCache.Proofs.Cache.Newcomer
import PeerCache.Proofs.Cache.Numbers
import PeerCache.Proofs.Cache.Patience
import PeerCache.Proofs.Cache.Placing
import PeerCache.Proofs.Cache.Promotion
import PeerCache.Proofs.Cache.Records
import PeerCache.Proofs.Cache.Reliability
import PeerCache.Proofs.Cache.Renaming
import PeerCache.Proofs.Cache.Repeated
import PeerCache.Proofs.Cache.RoundTrip
import PeerCache.Proofs.Cache.Runs
import PeerCache.Proofs.Cache.Sample
import PeerCache.Proofs.Cache.SampleContents
import PeerCache.Proofs.Cache.SampleUniform
import PeerCache.Proofs.Cache.SavedForm
import PeerCache.Proofs.Cache.Shield
import PeerCache.Proofs.Cache.Slots
import PeerCache.Proofs.Cache.Sound
import PeerCache.Proofs.Cache.Spread
import PeerCache.Proofs.Cache.Stored
import PeerCache.Proofs.Cache.TriedGroups
import PeerCache.Proofs.Decoder
import PeerCache.Proofs.Discovery
import PeerCache.Proofs.Draw
import PeerCache.Proofs.Envelope
import PeerCache.Proofs.Group
import PeerCache.Proofs.Metrics
import PeerCache.Proofs.PeersFile
import PeerCache.Proofs.Placement
import PeerCache.Proofs.Search
import PeerCache.Proofs.Shuffle
import PeerCache.Proofs.SlotHistory
import PeerCache.Proofs.SlotTable
import PeerCache.Random.ChaCha
import PeerCache.Random.Generator
import PeerCache.Random.Source
import PeerCache.Random.SplitMix
import PeerCache.Record
import PeerCache.Services
import PeerCache.Settings
import PeerCache.SlotTable
import PeerCache.Storage.Envelope
import PeerCache.Storage.Folder
import PeerCache.Storage.PeersFile
import PeerCache.Text.Hex
import PeerCache.Text.Invisible
import PeerCache.Text.Quoted
import PeerCache.Text.Reader
import PeerCache.Timestamp
import PeerCache.Toml.Document
import PeerCache.Toml.Item
import PeerCache.Toml.Scalar
import PeerCache.Weight
