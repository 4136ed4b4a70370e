import SchemaRecords.ClassFile.Annotations
import SchemaRecords.ClassFile.Assembler
import SchemaRecords.ClassFile.Bytes
import SchemaRecords.ClassFile.Constant
import SchemaRecords.ClassFile.ConstantTable
import SchemaRecords.ClassFile.Cursor
import SchemaRecords.ClassFile.Descriptor
import SchemaRecords.ClassFile.Draft
import SchemaRecords.ClassFile.Error
import SchemaRecords.ClassFile.Frame
import SchemaRecords.ClassFile.Image
import SchemaRecords.ClassFile.Instruction
import SchemaRecords.ClassFile.Member
import SchemaRecords.ClassFile.ModifiedUtf8
import SchemaRecords.ClassFile.Operation
import SchemaRecords.ClassFile.Pool
import SchemaRecords.ClassFile.Summary
import SchemaRecords.ClassFile.Writer
import SchemaRecords.Command.Arguments
import SchemaRecords.Command.Help
import SchemaRecords.Command.Run
import SchemaRecords.Compile
import SchemaRecords.Json.Deserializer
import SchemaRecords.Json.Failure
import SchemaRecords.Json.Node
import SchemaRecords.Json.Numeral
import SchemaRecords.Json.Parse
import SchemaRecords.Json.Quoted
import SchemaRecords.Main
import SchemaRecords.Output.Archive
import SchemaRecords.Output.Destination
import SchemaRecords.Output.Directory
import SchemaRecords.Output.FileSystem
import SchemaRecords.Output.FileTree
import SchemaRecords.Output.Jar
import SchemaRecords.Output.Path
import SchemaRecords.Output.Sink
import SchemaRecords.Proofs.ClassFile.Assemblable
import SchemaRecords.Proofs.ClassFile.Assembly
import SchemaRecords.Proofs.ClassFile.Attributes
import SchemaRecords.Proofs.ClassFile.BootstrapTable
import SchemaRecords.Proofs.ClassFile.BoundFrames
import SchemaRecords.Proofs.ClassFile.ConstantTable
import SchemaRecords.Proofs.ClassFile.Contents
import SchemaRecords.Proofs.ClassFile.Demand
import SchemaRecords.Proofs.ClassFile.Descriptor
import SchemaRecords.Proofs.ClassFile.Disassembly
import SchemaRecords.Proofs.ClassFile.DistinctTypes
import SchemaRecords.Proofs.ClassFile.DraftDemand
import SchemaRecords.Proofs.ClassFile.FrameTable
import SchemaRecords.Proofs.ClassFile.Listing
import SchemaRecords.Proofs.ClassFile.MemberDemand
import SchemaRecords.Proofs.ClassFile.Members
import SchemaRecords.Proofs.ClassFile.ModifiedUtf8
import SchemaRecords.Proofs.ClassFile.Passage
import SchemaRecords.Proofs.ClassFile.Paths
import SchemaRecords.Proofs.ClassFile.Pool
import SchemaRecords.Proofs.ClassFile.Reading
import SchemaRecords.Proofs.ClassFile.Relocation
import SchemaRecords.Proofs.ClassFile.Remnants
import SchemaRecords.Proofs.ClassFile.Requests
import SchemaRecords.Proofs.ClassFile.Session
import SchemaRecords.Proofs.ClassFile.TextFaults
import SchemaRecords.Proofs.ClassFile.Truncation
import SchemaRecords.Proofs.ClassFile.Writing
import SchemaRecords.Proofs.Generation
import SchemaRecords.Proofs.Json.Grammar
import SchemaRecords.Proofs.Json.Reading
import SchemaRecords.Proofs.Json.Reordering
import SchemaRecords.Proofs.Json.Tokens
import SchemaRecords.Proofs.Json.Visitor
import SchemaRecords.Proofs.Machine.Concatenation
import SchemaRecords.Proofs.Machine.Execution
import SchemaRecords.Proofs.Machine.State
import SchemaRecords.Proofs.Machine.Step
import SchemaRecords.Proofs.Output.Archive
import SchemaRecords.Proofs.Output.ArchiveLibrary
import SchemaRecords.Proofs.Output.Directory
import SchemaRecords.Proofs.Output.Jar
import SchemaRecords.Proofs.Output.Restoration
import SchemaRecords.Proofs.Record.Admissible
import SchemaRecords.Proofs.Record.Causes
import SchemaRecords.Proofs.Record.Consistency
import SchemaRecords.Proofs.Record.Construction
import SchemaRecords.Proofs.Record.Emission
import SchemaRecords.Proofs.Record.Equality
import SchemaRecords.Proofs.Record.Hashing
import SchemaRecords.Proofs.Record.KeyIndependence
import SchemaRecords.Proofs.Record.Lookup
import SchemaRecords.Proofs.Record.MemberNames
import SchemaRecords.Proofs.Record.Outcomes
import SchemaRecords.Proofs.Record.Recipe
import SchemaRecords.Proofs.Record.Reflection
import SchemaRecords.Proofs.Record.Rendering
import SchemaRecords.Proofs.Record.SlotSums
import SchemaRecords.Proofs.Record.Verification
import SchemaRecords.Proofs.Record.Writable
import SchemaRecords.Proofs.Sample
import SchemaRecords.Proofs.Schema.CamelCase
import SchemaRecords.Proofs.Schema.Discovery
import SchemaRecords.Proofs.Schema.Lifecycle
import SchemaRecords.Proofs.Schema.Occurrence
import SchemaRecords.Proofs.Schema.References
import SchemaRecords.Proofs.Schema.Registration
import SchemaRecords.Proofs.Schema.Reordering
import SchemaRecords.Proofs.Text.Utf8Order
import SchemaRecords.Proofs.Verifier.Assembly
import SchemaRecords.Proofs.Verifier.Check
import SchemaRecords.Proofs.Verifier.Depth
import SchemaRecords.Proofs.Verifier.Flow
import SchemaRecords.Proofs.Verifier.State
import SchemaRecords.Record.Accessor
import SchemaRecords.Record.Artifact
import SchemaRecords.Record.Constructor
import SchemaRecords.Record.Equality
import SchemaRecords.Record.Error
import SchemaRecords.Record.Hashing
import SchemaRecords.Record.Layout
import SchemaRecords.Record.Recipe
import SchemaRecords.Record.Rendering
import SchemaRecords.Record.Settings
import SchemaRecords.Sample
import SchemaRecords.Schema.Discovery
import SchemaRecords.Schema.Error
import SchemaRecords.Schema.Model
import SchemaRecords.Schema.Naming
import SchemaRecords.Schema.Registry
import SchemaRecords.Schema.Scalar
import SchemaRecords.Text.Alphanumeric
import SchemaRecords.Text.LetterCase
import SchemaRecords.Text.Printable
import SchemaRecords.Text.Quoted
import SchemaRecords.Text.Split
import SchemaRecords.Text.Utf16
