import MarkupFormat.Main
import MarkupFormat.Proofs.Layout.LineFit
import MarkupFormat.Proofs.Markup.Tiling
import MarkupFormat.Proofs.Markup.Losslessness
import MarkupFormat.Proofs.Layout.Unbroken
import MarkupFormat.Proofs.Markup.Declaration
import MarkupFormat.Proofs.Annotate.Declaration
import MarkupFormat.Proofs.Print.Doctype
import MarkupFormat.Proofs.Format.Declaration
import MarkupFormat.Proofs.Format.Settled
import MarkupFormat.Proofs.Layout.Ink
import MarkupFormat.Proofs.Markup.RoundTrip
import MarkupFormat.Proofs.Annotate.Spaces
import MarkupFormat.Proofs.Format.Markers
import MarkupFormat.Proofs.Layout.ForcedBreaks
import MarkupFormat.Proofs.Layout.Sharing
import MarkupFormat.Proofs.Format.Failure
import MarkupFormat.Proofs.Format.LineEndings
import MarkupFormat.Proofs.Layout.CurrentColumn
import MarkupFormat.Proofs.Cli.FilesFormatted
import MarkupFormat.Proofs.Cli.LineDiff
import MarkupFormat.Proofs.Annotate.Sensitivity
import MarkupFormat.Proofs.Annotate.Faithful
import MarkupFormat.Proofs.Annotate.Candidates
import MarkupFormat.Proofs.Markup.DocumentOrder
import MarkupFormat.Proofs.Layout.MostExpanded
import MarkupFormat.Proofs.Layout.Wrapping
import MarkupFormat.Proofs.Layout.FlatChoice
import MarkupFormat.Proofs.Text.Quotation
import MarkupFormat.Proofs.Layout.Phrases
import MarkupFormat.Proofs.Layout.Renamed
import MarkupFormat.Proofs.Layout.Dumped
import MarkupFormat.Proofs.Layout.Rewritten
import MarkupFormat.Proofs.Layout.Stripped
import MarkupFormat.Proofs.Layout.FinalLines
import MarkupFormat.Proofs.Layout.Respelled
import MarkupFormat.Proofs.Layout.Continued
import MarkupFormat.Proofs.Layout.Emptiness
import MarkupFormat.Proofs.Markup.Outcome
import MarkupFormat.Proofs.Markup.Rollback
import MarkupFormat.Proofs.Markup.UnreadSection
import MarkupFormat.Proofs.Markup.Elements
import MarkupFormat.Proofs.Markup.Attributes
import MarkupFormat.Proofs.Markup.TouchingAttributes
import MarkupFormat.Proofs.Markup.Moved
import MarkupFormat.Proofs.Markup.RawText
import MarkupFormat.Proofs.Markup.Nesting
import MarkupFormat.Proofs.Markup.ImpliedEnds
import MarkupFormat.Proofs.Layout.Verbatim
import MarkupFormat.Proofs.Print.AttributeText
import MarkupFormat.Proofs.Text.Blocks
import MarkupFormat.Proofs.Text.QuoteEntities
import MarkupFormat.Proofs.Print.Reread
import MarkupFormat.Proofs.Print.KeptSource
import MarkupFormat.Proofs.Format.Kept
import MarkupFormat.Proofs.Format.Redeclared
import MarkupFormat.Proofs.Format.InsertedPragma
import MarkupFormat.Proofs.Format.OpeningDeclaration
import MarkupFormat.Proofs.Format.Preformatted
import MarkupFormat.Proofs.Text.WordBreaks
import MarkupFormat.Proofs.Format.Lines
import MarkupFormat.Proofs.Markup.LineIndex
import MarkupFormat.Proofs.Cli.ErrorReports
import MarkupFormat.Proofs.Cli.IgnorePatterns
import MarkupFormat.Proofs.Layout.Dedented
import MarkupFormat.Proofs.Layout.DepthFirst
