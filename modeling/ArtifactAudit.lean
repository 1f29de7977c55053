import ArtifactAudit.Archive.Bits
import ArtifactAudit.Archive.Crc32
import ArtifactAudit.Archive.Fault
import ArtifactAudit.Archive.Gzip
import ArtifactAudit.Archive.Inflate
import ArtifactAudit.Archive.LittleEndian
import ArtifactAudit.Archive.Zip.Directory
import ArtifactAudit.Archive.Zip.Entry
import ArtifactAudit.Archive.Zip.ExtraField
import ArtifactAudit.Attribution
import ArtifactAudit.Cache
import ArtifactAudit.Catalog
import ArtifactAudit.ClassFile.Annotations
import ArtifactAudit.ClassFile.Code
import ArtifactAudit.ClassFile.ConstantPool
import ArtifactAudit.ClassFile.Descriptor
import ArtifactAudit.ClassFile.Extract
import ArtifactAudit.ClassFile.Fault
import ArtifactAudit.ClassFile.ModifiedUtf8
import ArtifactAudit.ClassFile.Reader
import ArtifactAudit.ClassFile.Symbols
import ArtifactAudit.ClassSource
import ArtifactAudit.CommandLine
import ArtifactAudit.Config
import ArtifactAudit.Coordinate
import ArtifactAudit.Coordinate.Json
import ArtifactAudit.Coordinate.Key
import ArtifactAudit.CoordinateMap
import ArtifactAudit.DependencySet
import ArtifactAudit.Error
import ArtifactAudit.FileTree
import ArtifactAudit.Graph
import ArtifactAudit.Json
import ArtifactAudit.Json.Decode
import ArtifactAudit.Json.Parser
import ArtifactAudit.Json.Printer
import ArtifactAudit.Main
import ArtifactAudit.NameMap
import ArtifactAudit.NameSet
import ArtifactAudit.PackageTrie
import ArtifactAudit.Path
import ArtifactAudit.Pom.Effective
import ArtifactAudit.Pom.Interpolation
import ArtifactAudit.Pom.Loader
import ArtifactAudit.Pom.Management
import ArtifactAudit.Pom.Model
import ArtifactAudit.Program
import ArtifactAudit.Project
import ArtifactAudit.Provider
import ArtifactAudit.Provider.Inventory
import ArtifactAudit.Record
import ArtifactAudit.Report
import ArtifactAudit.Repository
import ArtifactAudit.Repository.Layout
import ArtifactAudit.Resolver
import ArtifactAudit.Settings
import ArtifactAudit.Text.Blank
import ArtifactAudit.Text.CodePage437
import ArtifactAudit.Text.Hidden
import ArtifactAudit.Text.Order
import ArtifactAudit.Text.Quoted
import ArtifactAudit.Text.Split
import ArtifactAudit.Text.Utf8
import ArtifactAudit.Toml
import ArtifactAudit.Toml.Parser
import ArtifactAudit.Toml.Scalar
import ArtifactAudit.Toml.Text
import ArtifactAudit.UsageMap
import ArtifactAudit.Xml
import ArtifactAudit.Xml.Parser
import ArtifactAudit.Xml.Token
import ArtifactAudit.Proofs.Archive.Gzip
import ArtifactAudit.Proofs.Attribution
import ArtifactAudit.Proofs.Cache.Apart
import ArtifactAudit.Proofs.Cache.Entry
import ArtifactAudit.Proofs.Cache.Interrupted
import ArtifactAudit.Proofs.Cache.Store
import ArtifactAudit.Proofs.Catalog
import ArtifactAudit.Proofs.ClassFile.Agree
import ArtifactAudit.Proofs.ClassFile.Alike
import ArtifactAudit.Proofs.ClassFile.Annotation
import ArtifactAudit.Proofs.ClassFile.AttributeOrder
import ArtifactAudit.Proofs.ClassFile.Constants
import ArtifactAudit.Proofs.ClassFile.Descriptor
import ArtifactAudit.Proofs.ClassFile.Instruction
import ArtifactAudit.Proofs.ClassFile.Layout
import ArtifactAudit.Proofs.ClassFile.ModifiedUtf8
import ArtifactAudit.Proofs.ClassFile.Pool
import ArtifactAudit.Proofs.ClassFile.Reader
import ArtifactAudit.Proofs.ClassFile.SkipDebug
import ArtifactAudit.Proofs.ClassFile.Sources
import ArtifactAudit.Proofs.ClassFile.Spelled
import ArtifactAudit.Proofs.ClassFile.Steady
import ArtifactAudit.Proofs.ClassFile.Tables
import ArtifactAudit.Proofs.ClassFile.Variables
import ArtifactAudit.Proofs.ClassFile.Written
import ArtifactAudit.Proofs.ClassPattern
import ArtifactAudit.Proofs.ClassSource
import ArtifactAudit.Proofs.Coordinate.Key
import ArtifactAudit.Proofs.Coordinate.Text
import ArtifactAudit.Proofs.DependencySet
import ArtifactAudit.Proofs.DependencySet.Same
import ArtifactAudit.Proofs.DottedName
import ArtifactAudit.Proofs.Error
import ArtifactAudit.Proofs.Except
import ArtifactAudit.Proofs.FileTree
import ArtifactAudit.Proofs.FileTree.Apart
import ArtifactAudit.Proofs.FileTree.Beside
import ArtifactAudit.Proofs.FileTree.Files
import ArtifactAudit.Proofs.FileTree.Making
import ArtifactAudit.Proofs.FileTree.Places
import ArtifactAudit.Proofs.FileTree.Tidy
import ArtifactAudit.Proofs.Graph
import ArtifactAudit.Proofs.Graph.Used
import ArtifactAudit.Proofs.Json.Decode
import ArtifactAudit.Proofs.Json.Quote
import ArtifactAudit.Proofs.Json.ReadBack
import ArtifactAudit.Proofs.PackageTrie.Compacted
import ArtifactAudit.Proofs.PackageTrie.Compaction
import ArtifactAudit.Proofs.PackageTrie.Flatten
import ArtifactAudit.Proofs.PackageTrie.Labels
import ArtifactAudit.Proofs.PackageTrie.Place
import ArtifactAudit.Proofs.PackageTrie.View
import ArtifactAudit.Proofs.Pom.Concrete
import ArtifactAudit.Proofs.Pom.Cycles
import ArtifactAudit.Proofs.Pom.Expansion
import ArtifactAudit.Proofs.Pom.Fresh
import ArtifactAudit.Proofs.Pom.Inheritance
import ArtifactAudit.Proofs.Pom.Inquiry
import ArtifactAudit.Proofs.Pom.Listing
import ArtifactAudit.Proofs.Pom.Management
import ArtifactAudit.Proofs.Pom.Memoised
import ArtifactAudit.Proofs.Pom.Obtained
import ArtifactAudit.Proofs.Project
import ArtifactAudit.Proofs.Project.Listed
import ArtifactAudit.Proofs.Project.Modules
import ArtifactAudit.Proofs.Provider
import ArtifactAudit.Proofs.Record
import ArtifactAudit.Proofs.Record.Order
import ArtifactAudit.Proofs.Record.Restored
import ArtifactAudit.Proofs.Report
import ArtifactAudit.Proofs.Repository
import ArtifactAudit.Proofs.Resolver.Cycles
import ArtifactAudit.Proofs.Resolver.Family
import ArtifactAudit.Proofs.Resolver.Filed
import ArtifactAudit.Proofs.Resolver.Invariant
import ArtifactAudit.Proofs.Resolver.Memo
import ArtifactAudit.Proofs.Resolver.Overlaid
import ArtifactAudit.Proofs.Resolver.Reachable
import ArtifactAudit.Proofs.Resolver.Recorded
import ArtifactAudit.Proofs.Resolver.Recovered
import ArtifactAudit.Proofs.Resolver.Requests
import ArtifactAudit.Proofs.Resolver.Restored
import ArtifactAudit.Proofs.Resolver.Resumed
import ArtifactAudit.Proofs.Resolver.Reused
import ArtifactAudit.Proofs.Resolver.Run
import ArtifactAudit.Proofs.Resolver.Shadowed
import ArtifactAudit.Proofs.Resolver.Table
import ArtifactAudit.Proofs.Resolver.Uncached
import ArtifactAudit.Proofs.Resolver.Walk
import ArtifactAudit.Proofs.Summary
import ArtifactAudit.Proofs.Summary.Family
import ArtifactAudit.Proofs.Supply
import ArtifactAudit.Proofs.Supply.Outcome
import ArtifactAudit.Proofs.Text.Parts
import ArtifactAudit.Proofs.Text.Utf8
