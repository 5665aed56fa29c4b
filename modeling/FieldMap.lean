import FieldMap.Text.Basic
import FieldMap.Text.Ranges
import FieldMap.Text.Blank
import FieldMap.Text.Letters
import FieldMap.Text.Numerals
import FieldMap.Text.Hidden
import FieldMap.Path.Steps
import FieldMap.Path.Normal
import FieldMap.Path.Source
import FieldMap.Path.Relative
import FieldMap.Path.Position
import FieldMap.Decimal.Shortest
import FieldMap.Json.Basic
import FieldMap.Json.Number
import FieldMap.Json.Token
import FieldMap.Json.Reader
import FieldMap.Json.Printer
import FieldMap.Text.Quoted
import FieldMap.Json.Shape
import FieldMap.Mapping.Attribute
import FieldMap.Mapping.Basic
import FieldMap.Namespaces
import FieldMap.Diagnostic
import FieldMap.Mapping.Encoding
import FieldMap.Prepare
import FieldMap.Target.Tree
import FieldMap.Target.Completion
import FieldMap.Markup.Escape
import FieldMap.Markup.Layout
import FieldMap.Markup.Tree
import FieldMap.Stylesheet.Options
import FieldMap.Stylesheet.Value
import FieldMap.Stylesheet.Sheet
import FieldMap.Stylesheet.XmlSheet
import FieldMap.Stylesheet.JsonSheet
import FieldMap.Stylesheet.FlatSheet
import FieldMap.Generation
import FieldMap.Xml.Name
import FieldMap.Xml.Token
import FieldMap.Xml.Document
import FieldMap.Validation
import FieldMap.Project
import FieldMap.CommandLine
import FieldMap.Main
import FieldMap.Proofs.Trees
import FieldMap.Proofs.Pieces
import FieldMap.Proofs.TargetNodes
import FieldMap.Proofs.TargetPaths
import FieldMap.Proofs.TargetRows
import FieldMap.Proofs.References
import FieldMap.Proofs.MarkupTokens
import FieldMap.Proofs.XmlCharacters
import FieldMap.Proofs.MarkupNodes
import FieldMap.Proofs.SheetDocument
import FieldMap.Proofs.CommentText
import FieldMap.Proofs.SheetRows
import FieldMap.Proofs.SheetMarkup
import FieldMap.Proofs.SheetBodies
import FieldMap.Proofs.DecodedAttributes
import FieldMap.Proofs.SheetValidity
import FieldMap.Proofs.XmlSheetShape
import FieldMap.Proofs.ContextWindows
import FieldMap.Proofs.LocationPaths
import FieldMap.Proofs.BareMarkup
import FieldMap.Proofs.FlatColumns
import FieldMap.Proofs.JsonOrder
import FieldMap.Proofs.RecordRoundTrip
import FieldMap.Proofs.ProjectRoundTrip
import FieldMap.Proofs.MarkupElements
import FieldMap.Proofs.StringExpressions
import FieldMap.Proofs.LiteralValues
import FieldMap.Proofs.ValueTemplates
import FieldMap.Proofs.JsonEntries
import FieldMap.Proofs.JsonReports
import FieldMap.Proofs.Insertions
import FieldMap.Proofs.SkippedRows
import FieldMap.Proofs.BracketDepth
import FieldMap.Proofs.SourceSteps
import FieldMap.Proofs.GapPaths
import FieldMap.Proofs.CompletedTree
import FieldMap.Proofs.CompletedSheets
import FieldMap.Proofs.JoinedPieces
import FieldMap.Proofs.KeptText
import FieldMap.Proofs.LegalNames
import FieldMap.Proofs.NamedTargets
import FieldMap.Proofs.HeaderAttributes
import FieldMap.Proofs.ContextSearch
import FieldMap.Proofs.MixedSeparators
import FieldMap.Proofs.DepthScanner
import FieldMap.Proofs.NormalPaths
import FieldMap.Proofs.VariableReferences
import FieldMap.Proofs.RepeatedFields
import FieldMap.Proofs.EscapedText
import FieldMap.Proofs.FieldExpressions
import FieldMap.Proofs.RootSubtrees
import FieldMap.Proofs.NestedSteps
import FieldMap.Proofs.Renderer
import FieldMap.Proofs.RenderedSheets
