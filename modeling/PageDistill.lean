import PageDistill.CommandLine.Arguments
import PageDistill.CommandLine.Files
import PageDistill.CommandLine.Run
import PageDistill.CommandLine.Surroundings
import PageDistill.ConversionError
import PageDistill.Convert
import PageDistill.Dom.AttrValue
import PageDistill.Dom.Category
import PageDistill.Dom.Element
import PageDistill.Dom.Node
import PageDistill.Entries
import PageDistill.Json.Reader
import PageDistill.Json.Value
import PageDistill.Json.Writer
import PageDistill.Lower
import PageDistill.Main
import PageDistill.MainContent.Detect
import PageDistill.MainContent.Score
import PageDistill.Markdown.Escape
import PageDistill.Markdown.FrontMatter
import PageDistill.Markdown.Node
import PageDistill.Markdown.Render
import PageDistill.Markdown.Spacing
import PageDistill.Markdown.TableLayout
import PageDistill.Markdown.Walk
import PageDistill.Markup.Completing
import PageDistill.Markup.Dialect
import PageDistill.Markup.Encoding
import PageDistill.Markup.Escaping
import PageDistill.Markup.Html
import PageDistill.Markup.Nesting
import PageDistill.Markup.Progress
import PageDistill.Markup.Reader
import PageDistill.Markup.Token
import PageDistill.Markup.Writer
import PageDistill.Metadata
import PageDistill.Number.Binary64
import PageDistill.Number.Fixed
import PageDistill.Number.Integer
import PageDistill.Number.Shortest
import PageDistill.Options
import PageDistill.Options.Settings
import PageDistill.Text.Blank
import PageDistill.Text.DecimalDigit
import PageDistill.Text.Fold
import PageDistill.Text.Percent
import PageDistill.Text.Printable
import PageDistill.Text.Quoted
import PageDistill.Text.Utf8
import PageDistill.Traced
import PageDistill.Url.Address
import PageDistill.Url.Parts
import PageDistill.Url.ReferenceMap
import PageDistill.Url.Shorten
import PageDistill.Proofs.Url.References
import PageDistill.Proofs.Url.Compaction
import PageDistill.Proofs.Markdown.Unhooked
import PageDistill.Proofs.Text.Visible
import PageDistill.Proofs.Markdown.TableLines
import PageDistill.Proofs.Markdown.TextKept
import PageDistill.Proofs.Dom.Descendants
import PageDistill.Proofs.Dom.PageText
import PageDistill.Proofs.Outcomes
import PageDistill.Proofs.Dom.Tidy
import PageDistill.Proofs.Lower.Separators
import PageDistill.Proofs.Lower.TextKept
import PageDistill.Proofs.Dom.Similar
import PageDistill.Proofs.Dom.Equality
import PageDistill.Proofs.Lower.CodeKept
import PageDistill.Proofs.Lower.Congruence
import PageDistill.Proofs.Lower.Agreement
import PageDistill.Proofs.Lower.Dropped
import PageDistill.Proofs.Lower.MetadataFree
import PageDistill.Proofs.Markdown.Attachment
import PageDistill.Proofs.Metadata.Extraction
import PageDistill.Proofs.MainContent.Found
import PageDistill.Proofs.Convert.Finishing
import PageDistill.Proofs.Convert.PageShape
import PageDistill.Proofs.Convert.FrontMatterAdded
import PageDistill.Proofs.Convert.Grafting
import PageDistill.Proofs.Convert.HeadKept
import PageDistill.Proofs.Lower.Rules
import PageDistill.Proofs.Convert.Failures
import PageDistill.Proofs.Convert.Nesting
import PageDistill.Proofs.Json.Height
import PageDistill.Proofs.Convert.Session
import PageDistill.Proofs.Options.Overrides
import PageDistill.Proofs.Json.OneLine
import PageDistill.Proofs.Lower.WellFormed
import PageDistill.Proofs.Markdown.FrontMatterLines
import PageDistill.Proofs.Lower.DepthBound
import PageDistill.Proofs.Markdown.Height
import PageDistill.Proofs.Markdown.CodeReading
import PageDistill.Proofs.Markdown.Delimiters
import PageDistill.Proofs.Lower.Tables
import PageDistill.Proofs.Lower.TextTables
import PageDistill.Proofs.Markdown.Rewriting
import PageDistill.Proofs.Markdown.Asked
import PageDistill.Proofs.Url.Settled
import PageDistill.Proofs.Markdown.MetadataReplaced
import PageDistill.Proofs.Lower.MetadataModes
import PageDistill.Proofs.Convert.Interchangeable
import PageDistill.Proofs.Convert.MetadataModes
import PageDistill.Proofs.Dom.Tally
import PageDistill.Proofs.Lower.Overwritten
import PageDistill.Proofs.Lower.Copies
import PageDistill.Proofs.Dom.Places
import PageDistill.Proofs.MainContent.Choice
import PageDistill.Proofs.MainContent.Marking
import PageDistill.Proofs.MainContent.Points
import PageDistill.Proofs.Markdown.NestedLists
import PageDistill.Proofs.Markdown.ListReading
import PageDistill.Proofs.Dom.Wrapping
import PageDistill.Proofs.Lower.Transparent
import PageDistill.Proofs.Lower.EnoughLevels
import PageDistill.Proofs.Markdown.Layout
import PageDistill.Proofs.Markdown.ListColumns
import PageDistill.Proofs.Markdown.Silenced
import PageDistill.Proofs.Metadata.Contents
import PageDistill.Proofs.Dom.Renaming
import PageDistill.Proofs.Lower.LetterCase
import PageDistill.Proofs.Markdown.Shown
import PageDistill.Proofs.Lower.Told
import PageDistill.Proofs.Lower.Marked
import PageDistill.Proofs.Text.PercentDecoding
import PageDistill.Proofs.Markdown.EscapePasses
import PageDistill.Proofs.Lower.TableColumns
import PageDistill.Proofs.Lower.TableGrid
import PageDistill.Proofs.Markdown.Destinations
import PageDistill.Proofs.Markdown.SearchOrder
import PageDistill.Proofs.CommandLine.Runs
