import ModuleLinker.ObjectModel
import ModuleLinker.Ident
import ModuleLinker.Layout
import ModuleLinker.Fundamental
import ModuleLinker.TypeCode
import ModuleLinker.FieldType
import ModuleLinker.Structure
import ModuleLinker.Opcode
import ModuleLinker.Renumbering
import ModuleLinker.Version
import ModuleLinker.Instructions
import ModuleLinker.ConstantPool
import ModuleLinker.Mapping
import ModuleLinker.Function
import ModuleLinker.Dependency
import ModuleLinker.FileSystem
import ModuleLinker.Path.Lexical
import ModuleLinker.Path.FilePath
import ModuleLinker.Path.ModulePath
import ModuleLinker.Image.Bytes
import ModuleLinker.Image.Descriptor
import ModuleLinker.Image.Error
import ModuleLinker.Image.Reader
import ModuleLinker.Image.Decode
import ModuleLinker.Image.Encode
import ModuleLinker.Image.Source
import ModuleLinker.Registry.Error
import ModuleLinker.Registry.Attempt
import ModuleLinker.Registry.Module
import ModuleLinker.Registry.Arena
import ModuleLinker.Registry.PathIndex
import ModuleLinker.Registry.Search
import ModuleLinker.Registry.Link
import ModuleLinker.Registry.Containment
import ModuleLinker.Registry.Placement
import ModuleLinker.Registry.Loader
import ModuleLinker.Registry.Resolution
import ModuleLinker.Registry.Completion
import ModuleLinker.Registry.Authoring
import ModuleLinker.Registry.Operation
import ModuleLinker.Proofs.Layout.Outline
import ModuleLinker.Proofs.Layout.Closed
import ModuleLinker.Proofs.Registry.Evolution
import ModuleLinker.Proofs.Registry.Linking
import ModuleLinker.Proofs.Path.Canonical
import ModuleLinker.Proofs.Image.Decoded
import ModuleLinker.Proofs.Image.Grammar
import ModuleLinker.Proofs.Image.Streams
import ModuleLinker.Proofs.Image.Sections
import ModuleLinker.Proofs.Image.Records
import ModuleLinker.Proofs.Image.Whole
import ModuleLinker.Proofs.Registry.Resolving
import ModuleLinker.Proofs.Registry.LinkPhase
import ModuleLinker.Proofs.Registry.Tracing
import ModuleLinker.Proofs.Registry.Ledger
import ModuleLinker.Proofs.FailedBuild
import ModuleLinker.Proofs.Registry.Building
import ModuleLinker.Proofs.LayoutClosure
import ModuleLinker.Proofs.LoadFrame
import ModuleLinker.Proofs.BuildFrame
import ModuleLinker.Proofs.LoadedModules
import ModuleLinker.Proofs.ImageRoundTrip
import ModuleLinker.Proofs.CompletedStructures
import ModuleLinker.Proofs.Registry.AtRest
import ModuleLinker.Proofs.Registry.Wiring
import ModuleLinker.Proofs.CompleteModules
import ModuleLinker.Proofs.Path.Normal
import ModuleLinker.Proofs.Registry.Indexing
import ModuleLinker.Proofs.ConsistentRegistry
import ModuleLinker.Proofs.Registry.Unlinked
import ModuleLinker.Proofs.MappingCoherence
import ModuleLinker.Proofs.Layout.Reference
import ModuleLinker.Proofs.Layout.Following
import ModuleLinker.Proofs.Layout.Finishing
import ModuleLinker.Proofs.ReferenceLayout
import ModuleLinker.Proofs.DecodedImages
import ModuleLinker.Proofs.Registry.Holding
import ModuleLinker.Proofs.LoadOnce
import ModuleLinker.Proofs.Layout.Failing
import ModuleLinker.Proofs.Registry.Budget
import ModuleLinker.Proofs.Registry.Outcomes
import ModuleLinker.Proofs.Registry.InRange
import ModuleLinker.Proofs.LoadErrors
import ModuleLinker.Proofs.Layout.Foreseen
import ModuleLinker.Proofs.Registry.FileModules
import ModuleLinker.Proofs.Registry.Counterparts
import ModuleLinker.Proofs.Registry.Within
import ModuleLinker.Proofs.Registry.LoadWithin
import ModuleLinker.Proofs.LoadOrder
import ModuleLinker.Proofs.SlotHistory
import ModuleLinker.Proofs.CycleCheck
import ModuleLinker.Proofs.ResolutionClosure
import ModuleLinker.Proofs.CutImages
import ModuleLinker.Proofs.FieldWords
import ModuleLinker.Proofs.InlineData
import ModuleLinker.Proofs.Transcoding
import ModuleLinker.Proofs.LayoutPasses
import ModuleLinker.Proofs.LinkOrder
import ModuleLinker.Proofs.LibrarySpecs
import ModuleLinker.Proofs.Path.Spelling
import ModuleLinker.Proofs.RelativePaths
import ModuleLinker.Proofs.VirtualPaths
import ModuleLinker.Proofs.StreamOffsets
import ModuleLinker.Proofs.PoolTables
