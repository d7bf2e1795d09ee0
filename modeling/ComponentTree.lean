import ComponentTree.Dict
import ComponentTree.Distinct
import ComponentTree.Outcome
import ComponentTree.Text.Blank
import ComponentTree.Text.Utf8
import ComponentTree.Text.Hidden
import ComponentTree.Text.Quoted
import ComponentTree.Json.Shortest
import ComponentTree.Json.Number
import ComponentTree.Json.Value
import ComponentTree.Json.Printer
import ComponentTree.Json.Node
import ComponentTree.Json.Reader
import ComponentTree.Json.Decoder
import ComponentTree.Lineage
import ComponentTree.Component
import ComponentTree.Selector.Error
import ComponentTree.Selector.Basic
import ComponentTree.Selector.Printer
import ComponentTree.Selector.Parser
import ComponentTree.Selector.Form
import ComponentTree.Selector.Document
import ComponentTree.Selector.Acceptance
import ComponentTree.Forest.Basic
import ComponentTree.Query.Source
import ComponentTree.Query.Basic
import ComponentTree.Query.Descent
import ComponentTree.Query.Ascent
import ComponentTree.Query.Tree
import ComponentTree.Snapshot.Basic
import ComponentTree.Snapshot.Catalog
import ComponentTree.Snapshot.Builder
import ComponentTree.Snapshot.Load
import ComponentTree.Snapshot.Capture
import ComponentTree.Snapshot.Document
import ComponentTree.Settings.Error
import ComponentTree.Settings.Key
import ComponentTree.Settings.Preferences
import ComponentTree.Settings.Store
import ComponentTree.Settings.Memory
import ComponentTree.Settings.Folder
import ComponentTree.Settings.Path
import ComponentTree.Settings.Disk
import ComponentTree.CommandLine.Arguments
import ComponentTree.CommandLine.Host
import ComponentTree.CommandLine.Run
import ComponentTree.Main
import ComponentTree.Proofs.Forest.Links
import ComponentTree.Proofs.Forest.Changes
import ComponentTree.Proofs.Query.Unfolding
import ComponentTree.Proofs.Forest.Subtree
import ComponentTree.Proofs.Forest.DocumentOrder
import ComponentTree.Proofs.Query.Descent
import ComponentTree.Proofs.Query.Chain
import ComponentTree.Proofs.Selector.Grammar
import ComponentTree.Proofs.Selector.Places
import ComponentTree.Proofs.Selector.Brackets
import ComponentTree.Proofs.Selector.Parsing
import ComponentTree.Proofs.Query.Ascent
import ComponentTree.Proofs.Query.Duality
import ComponentTree.Proofs.Query.Screening
import ComponentTree.Proofs.Selector.Rendering
import ComponentTree.Proofs.Forest.Registration
import ComponentTree.Proofs.Snapshot.Lineages
import ComponentTree.Proofs.Snapshot.Reloading
import ComponentTree.Proofs.Query.Agreement
import ComponentTree.Proofs.Query.Visits
import ComponentTree.Proofs.Query.Bounds
import ComponentTree.Proofs.Forest.Listing
import ComponentTree.Proofs.Json.Members
import ComponentTree.Proofs.Json.Records
import ComponentTree.Proofs.Settings.Filing
import ComponentTree.Proofs.Json.Documents
import ComponentTree.Proofs.Json.Lexemes
import ComponentTree.Proofs.Json.Texts
import ComponentTree.Proofs.Settings.Keeping
import ComponentTree.Proofs.CommandLine.Runs
import ComponentTree.Proofs.Settings.OnDisk
import ComponentTree.Proofs.Snapshot.Chains
import ComponentTree.Proofs.Snapshot.Building
import ComponentTree.Proofs.Forest.Arrangement
import ComponentTree.Proofs.Query.Limit
import ComponentTree.Proofs.Query.LookUps
import ComponentTree.Proofs.Selector.Defects
import ComponentTree.Proofs.Selector.Refusal
import ComponentTree.Proofs.Selector.Spacing
import ComponentTree.Proofs.Selector.Redisplay
import ComponentTree.Proofs.Selector.Objects
import ComponentTree.Proofs.Selector.Clauses
import ComponentTree.Proofs.Selector.Meaning
import ComponentTree.Proofs.Selector.Narrowing
import ComponentTree.Proofs.Query.Finding
import ComponentTree.Proofs.Query.Locality
import ComponentTree.Proofs.Forest.Undoing
import ComponentTree.Proofs.Snapshot.Stitching
import ComponentTree.Proofs.Query.Deepening
import ComponentTree.Proofs.Query.Searches
import ComponentTree.Proofs.Settings.Replacing
import ComponentTree.Proofs.Query.Paths
import ComponentTree.Proofs.Forest.Checking
