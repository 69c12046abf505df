import RttiProbe.FileTree
import RttiProbe.Live.Program
import RttiProbe.Main
import RttiProbe.Proofs.Decode.Results
import RttiProbe.Proofs.Decode.Steps
import RttiProbe.Proofs.Decode.Parallel
import RttiProbe.Proofs.Decode.Entries
import RttiProbe.Proofs.Decode.Failures
import RttiProbe.Proofs.Decode.Operations
import RttiProbe.Proofs.Memory.Operations
import RttiProbe.Proofs.Record.Operations
import RttiProbe.Proofs.Hierarchy.Operations
import RttiProbe.Proofs.Lookup.Operations
import RttiProbe.Proofs.Hierarchy.TypeTree
import RttiProbe.Proofs.Hierarchy.Walk
import RttiProbe.Proofs.Hierarchy.Encoding
import RttiProbe.Proofs.Hierarchy.Exact
import RttiProbe.Proofs.Hierarchy.Damage
import RttiProbe.Proofs.Hierarchy.Flat
import RttiProbe.Proofs.Hierarchy.Bounds
import RttiProbe.Proofs.Header.Location
import RttiProbe.Proofs.Header.Directives
import RttiProbe.Proofs.Header.Identifiers
import RttiProbe.Proofs.Header.Includes
import RttiProbe.Proofs.Header.Reader
import RttiProbe.Proofs.Header.Braces
import RttiProbe.Proofs.Header.References
import RttiProbe.Proofs.Header.Ambiguity
import RttiProbe.Proofs.Class.Nesting
import RttiProbe.Proofs.Class.Segments
import RttiProbe.Proofs.Text.Trim
import RttiProbe.Proofs.Text.Lines
import RttiProbe.Proofs.Class.Canonical
import RttiProbe.Proofs.Class.Tidying
import RttiProbe.Proofs.Class.Rows
import RttiProbe.Proofs.Class.Losses
import RttiProbe.Proofs.Class.Normal
import RttiProbe.Proofs.Class.Outline
import RttiProbe.Proofs.Class.Places
import RttiProbe.Proofs.Image.Rebasing
import RttiProbe.Proofs.Image.Reads
import RttiProbe.Proofs.Image.Files
import RttiProbe.Proofs.Image.Recognition
import RttiProbe.Proofs.Record.Layout
import RttiProbe.Proofs.Record.Rebasing
import RttiProbe.Proofs.Hierarchy.Rebasing
import RttiProbe.Proofs.Export.Plan
import RttiProbe.Proofs.Export.Writes
import RttiProbe.Proofs.Export.Inclusion
import RttiProbe.Proofs.FileTree.Changes
import RttiProbe.Proofs.FileTree.Routes
import RttiProbe.Proofs.FileTree.Rooted
import RttiProbe.Proofs.Export.Files
import RttiProbe.Proofs.Export.Collisions
import RttiProbe.Proofs.Export.Refusals
import RttiProbe.Proofs.Export.Outcomes
import RttiProbe.Proofs.Text.Numeral
import RttiProbe.Proofs.Text.Unicode
import RttiProbe.Proofs.Analysis.EntryPoints
import RttiProbe.Proofs.Memory.Strings
import RttiProbe.Proofs.Memory.WideStrings
import RttiProbe.Proofs.Memory.Addresses
import RttiProbe.Proofs.Live.MapLines
import RttiProbe.Proofs.Live.Modules
import RttiProbe.Proofs.Decorated.Reading
import RttiProbe.Proofs.Decorated.Encoding
import RttiProbe.Proofs.Decorated.RoundTrip
import RttiProbe.Proofs.Class.Decomposition
import RttiProbe.Proofs.Hierarchy.Slots
import RttiProbe.Proofs.Hierarchy.Interruptions
import RttiProbe.Proofs.Hierarchy.Warnings
import RttiProbe.Proofs.Lookup.Names
import RttiProbe.Proofs.Lookup.Scopes
import RttiProbe.Proofs.Lookup.Queries
