import DocNavigation.Main
import DocNavigation.Tree.Grove
import DocNavigation.Proofs.Json.Quoted
import DocNavigation.Proofs.Json.RoundTrip
import DocNavigation.Proofs.Json.Fuel
import DocNavigation.Proofs.Json.Trailing
import DocNavigation.Proofs.Text.Lines
import DocNavigation.Proofs.Text.Utf8
import DocNavigation.Proofs.Tree.WellFormed
import DocNavigation.Proofs.Catalog.Json
import DocNavigation.Proofs.Tree.Json
import DocNavigation.Proofs.Host
import DocNavigation.Proofs.Merge.Run
import DocNavigation.Proofs.Component
import DocNavigation.Proofs.Registry.Reachable
import DocNavigation.Proofs.Artifact.Records
import DocNavigation.Proofs.Artifact.Written
import DocNavigation.Proofs.Artifact.RoundTrip
import DocNavigation.Proofs.Merge.Staged
import DocNavigation.Proofs.Disk.Walk
import DocNavigation.Proofs.Disk.WellFormed
import DocNavigation.Proofs.Path.Plain
import DocNavigation.Proofs.Disk.Folders
import DocNavigation.Proofs.Disk.Replace
import DocNavigation.Proofs.Merge.Files
import DocNavigation.Proofs.Artifact.Reader
import DocNavigation.Proofs.Artifact.Lookup
import DocNavigation.Proofs.Artifact.Lazy
import DocNavigation.Proofs.Tree.Places
import DocNavigation.Proofs.Tree.Seals
import DocNavigation.Proofs.Tree.Handles
import DocNavigation.Proofs.Tree.Growth
import DocNavigation.Proofs.Tree.Holding
import DocNavigation.Proofs.Named
import DocNavigation.Proofs.Tree.Entries
import DocNavigation.Proofs.Tree.Confluence
import DocNavigation.Proofs.Registry.Shared
import DocNavigation.Proofs.Registry.Clients
import DocNavigation.Proofs.Registry.Consistent
import DocNavigation.Proofs.Collect.Looks
import DocNavigation.Proofs.Collect.Items
import DocNavigation.Proofs.Collect.Accounts
import DocNavigation.Proofs.Script.SourceIndex
import DocNavigation.Proofs.Script.Sidebar
import DocNavigation.Proofs.Build.Order
import DocNavigation.Proofs.Disk.Temporary
import DocNavigation.Proofs.Disk.Again
import DocNavigation.Proofs.Script.Export
import DocNavigation.Proofs.Path.Normal
import DocNavigation.Proofs.Settings.Checked
import DocNavigation.Proofs.Build.Scan
import DocNavigation.Proofs.Sources.Loaded
import DocNavigation.Proofs.Build.Written
import DocNavigation.Proofs.Build.Again
import DocNavigation.Proofs.Build.Foretold
import DocNavigation.Proofs.Path.Below
import DocNavigation.Proofs.Disk.Below
import DocNavigation.Proofs.Disk.Text
import DocNavigation.Proofs.Script.Import
import DocNavigation.Proofs.Json.Renamed
import DocNavigation.Proofs.Script.Rows
import DocNavigation.Proofs.Pattern.Reading
import DocNavigation.Proofs.Pattern.Ends
import DocNavigation.Proofs.Glob.Bracket
import DocNavigation.Proofs.Glob.Symbol
import DocNavigation.Proofs.Glob.Matching
import DocNavigation.Proofs.Glob.Segments
import DocNavigation.Proofs.Glob.Translated
import DocNavigation.Proofs.Filter.Compiled
import DocNavigation.Proofs.Tree.Planted
import DocNavigation.Proofs.Scan.Walk
import DocNavigation.Proofs.Scan.Tree
import DocNavigation.Proofs.Scan.Outcome
import DocNavigation.Proofs.Scan.Discarded
import DocNavigation.Proofs.Text.Trim
import DocNavigation.Proofs.Number.Integer
import DocNavigation.Proofs.Settings.Strict
import DocNavigation.Proofs.Settings.Lenient
import DocNavigation.Proofs.Settings.Ready
import DocNavigation.Proofs.Json.Composed
import DocNavigation.Proofs.Artifact.Newer
import DocNavigation.Proofs.Disk.Inside
import DocNavigation.Proofs.Script.Confined
import DocNavigation.Proofs.Sources.Isolated
import DocNavigation.Proofs.Text.Returns
import DocNavigation.Proofs.Artifact.Unified
import DocNavigation.Proofs.Sources.Published
import DocNavigation.Proofs.Tree.Listings
import DocNavigation.Proofs.Disk.Nulls
import DocNavigation.Proofs.Log.Lifecycle
import DocNavigation.Proofs.Catalog.Indexed
import DocNavigation.Proofs.Json.Indented
import DocNavigation.Proofs.Settings.Stored
import DocNavigation.Proofs.Settings.Reread
import DocNavigation.Proofs.Settings.Roots
import DocNavigation.Proofs.Settings.Extensions
import DocNavigation.Proofs.Build.Halted
import DocNavigation.Proofs.Disk.Course
import DocNavigation.Proofs.Disk.Outcome
import DocNavigation.Proofs.Disk.Aside
import DocNavigation.Proofs.Log.Confined
import DocNavigation.Proofs.Session
import DocNavigation.Proofs.CommandLine.Operations
import DocNavigation.Proofs.CommandLine.Undisturbed
import DocNavigation.Proofs.Tree.Queries
import DocNavigation.Proofs.Tree.Insertion
import DocNavigation.Proofs.Tree.Rendering
import DocNavigation.Proofs.Artifact.LineNumbers
import DocNavigation.Proofs.Catalog.Rendering
import DocNavigation.Proofs.Build.Sidecar
import DocNavigation.Proofs.Settings.Fields
import DocNavigation.Proofs.CommandLine.Presence
import DocNavigation.Proofs.CommandLine.Overriding
import DocNavigation.Proofs.Template.Blame
import DocNavigation.Proofs.Template.Pieces
import DocNavigation.Proofs.Template.Messages
