import Overworld.Action
import Overworld.Command
import Overworld.Command.Options
import Overworld.Command.RunId
import Overworld.Dict
import Overworld.Digest
import Overworld.Failure
import Overworld.FileSystem
import Overworld.FileSystem.Path
import Overworld.Generation
import Overworld.Json.Document
import Overworld.Json.Reader
import Overworld.Log
import Overworld.Log.Logger
import Overworld.Main
import Overworld.Mappings
import Overworld.MessagePack
import Overworld.Number.Binary64
import Overworld.Number.Integer
import Overworld.Number.Shortest
import Overworld.Raw.Identifier
import Overworld.Raw.Record
import Overworld.Raw.Rules
import Overworld.Raw.Table
import Overworld.Raw.WarpIndex
import Overworld.Settings
import Overworld.Settings.Duration
import Overworld.Settings.Load
import Overworld.Settings.Value
import Overworld.Snapshot
import Overworld.Snapshot.Cache
import Overworld.Source.Directory
import Overworld.Source.Documents
import Overworld.Source.Retrieval
import Overworld.Source.Web
import Overworld.Text.Base64
import Overworld.Text.Bytes
import Overworld.Text.CharacterClass
import Overworld.Text.LowerCase
import Overworld.Text.Order
import Overworld.Text.Quoted
import Overworld.Text.Utf8
import Overworld.Tiles
import Overworld.Web.Status
import Overworld.Web.Url
import Overworld.World.Assembly
import Overworld.World.Direction
import Overworld.World.Document
import Overworld.World.Geometry
import Overworld.World.Graph
import Overworld.World.Location
import Overworld.World.Map
import Overworld.World.Output
import Overworld.World.Resolution
import Overworld.Yaml.Characters
import Overworld.Yaml.Decode
import Overworld.Yaml.Expansion
import Overworld.Yaml.KeyOrder
import Overworld.Yaml.Node
import Overworld.Yaml.Scalar
import Overworld.Yaml.Timestamp
import Overworld.Yaml.Token
import Overworld.Yaml.Tree
import Overworld.Yaml.Value
import Overworld.Zstandard.Bits
import Overworld.Zstandard.Block
import Overworld.Zstandard.Entropy
import Overworld.Zstandard.Frame
import Overworld.Zstandard.Huffman
import Overworld.Proofs.Bytes
import Overworld.Proofs.Dictionary
import Overworld.Proofs.WorkerPool
import Overworld.Proofs.AssemblySchedule
import Overworld.Proofs.MessagePack
import Overworld.Proofs.Zstandard
import Overworld.Proofs.SnapshotLoading
import Overworld.Proofs.SnapshotRoundTrip
import Overworld.Proofs.Utf8
import Overworld.Proofs.Yaml.Scalar
import Overworld.Proofs.Yaml.Scanning
import Overworld.Proofs.Yaml.Literal
import Overworld.Proofs.Yaml.Written
import Overworld.Proofs.Yaml.TreeTokens
import Overworld.Proofs.Yaml.TreeNodes
import Overworld.Proofs.Yaml.Decoding
import Overworld.Proofs.MapDocument
import Overworld.Proofs.MapValidation
import Overworld.Proofs.MapRoundTrip
import Overworld.Proofs.Conversion
import Overworld.Proofs.Base64
import Overworld.Proofs.Yaml.TextForms
import Overworld.Proofs.Yaml.TabbedBlocks
import Overworld.Proofs.ConvertedMaps
import Overworld.Proofs.WrittenLocations
import Overworld.Proofs.ResolvedReferences
import Overworld.Proofs.CrossReferences
import Overworld.Proofs.FilePlaces
import Overworld.Proofs.WrittenFiles
import Overworld.Proofs.Retrieval
import Overworld.Proofs.FileTrees
import Overworld.Proofs.TemporaryFiles
import Overworld.Proofs.SnapshotCache
import Overworld.Proofs.OutputDirectories
import Overworld.Proofs.Reruns
import Overworld.Proofs.TileBlobs
import Overworld.Proofs.FileEffects
import Overworld.Proofs.FailedBuilds
import Overworld.Proofs.WriteEffects
import Overworld.Proofs.EqualGraphs
import Overworld.Proofs.Identifiers
import Overworld.Proofs.ResolvedWarps
import Overworld.Proofs.WarpIndices
import Overworld.Proofs.PrefixStability
import Overworld.Proofs.CutSnapshots
import Overworld.Proofs.TableContents
import Overworld.Proofs.InsertionRaces
import Overworld.Proofs.ResolvedChunks
import Overworld.Proofs.ResolvedCharacters
import Overworld.Proofs.SettingsRules
