import SchemaView.OrderedMap
import SchemaView.NameSet
import SchemaView.Text.LineBreak
import SchemaView.Text.Quoted
import SchemaView.Text.Integer
import SchemaView.Text.Digest
import SchemaView.Sdl.Scan
import SchemaView.Sdl.Grammar
import SchemaView.Sdl.Render
import SchemaView.Sdl.Excerpt
import SchemaView.Tags
import SchemaView.Ownership
import SchemaView.TypeGraph.Path
import SchemaView.Marking
import SchemaView.Request
import SchemaView.Config.Environment
import SchemaView.Table
import SchemaView.Audit
import SchemaView.Main
import SchemaView.Proofs.OrderedMap
import SchemaView.Proofs.Marking
import SchemaView.Proofs.MarkBlindness
import SchemaView.Proofs.WalkCorrect
import SchemaView.Proofs.GraphCorrect
import SchemaView.Proofs.MarkedReach
import SchemaView.Proofs.CascadeCorrect
import SchemaView.Proofs.ExclusionCorrect
import SchemaView.Proofs.MarkerDefinition
import SchemaView.Proofs.CompileCorrect
import SchemaView.Proofs.StricterRules
import SchemaView.Proofs.PublicSurface
import SchemaView.Proofs.ReportCorrect
import SchemaView.Proofs.Recompile
import SchemaView.Proofs.DeclaredReach
import SchemaView.Proofs.CoordinateText
import SchemaView.Proofs.NodeLookup
import SchemaView.Proofs.CompileByText
import SchemaView.Proofs.CompileFailures
import SchemaView.Proofs.Scaffolding
import SchemaView.Proofs.ScanNames
import SchemaView.Proofs.HiddenMembers
import SchemaView.Proofs.UndefinedReferences
import SchemaView.Proofs.OwnedMembers
import SchemaView.Proofs.Remarking
import SchemaView.Proofs.TagFilter
import SchemaView.Proofs.OwnersCorrect
import SchemaView.Proofs.DefinitionOrder
import SchemaView.Proofs.OrderIndependence
import SchemaView.Proofs.ShownTypes
import SchemaView.Proofs.ReportPartition
import SchemaView.Proofs.ExtensionFolding
import SchemaView.Proofs.FoldedViews
import SchemaView.Proofs.MarkedExtensions
import SchemaView.Proofs.BuiltInNodes
import SchemaView.Proofs.AddressedSites
import SchemaView.Proofs.MarkingLaws
import SchemaView.Proofs.ContractNames
import SchemaView.Proofs.ListedTags
import SchemaView.Proofs.TwoWaySearch
import SchemaView.Proofs.ReferencePaths
import SchemaView.Proofs.ShrinkingReach
import SchemaView.Proofs.FirstMissingType
import SchemaView.Proofs.ListedCoordinates
import SchemaView.Proofs.OwnershipTable
import SchemaView.Proofs.RelevantTags
import SchemaView.Proofs.ReportViews
import SchemaView.Proofs.ReadableContracts
import SchemaView.Proofs.StringText
import SchemaView.Proofs.CheckedRequests
