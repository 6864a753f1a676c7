import WidgetSchema.Main
import WidgetSchema.Overlay.Snapshot
import WidgetSchema.Proofs.Node.Place
import WidgetSchema.Proofs.Control.Fits
import WidgetSchema.Proofs.Edit.Accepted
import WidgetSchema.Proofs.Edit.Beside
import WidgetSchema.Proofs.Edit.Valid
import WidgetSchema.Proofs.Node.Names
import WidgetSchema.Proofs.Edit.Names
import WidgetSchema.Proofs.Overlay.Outside
import WidgetSchema.Proofs.Edit.Settings
import WidgetSchema.Proofs.Node.Outline
import WidgetSchema.Proofs.Typography.Outline
import WidgetSchema.Proofs.Control.Exchange
import WidgetSchema.Proofs.Edit.Items
import WidgetSchema.Proofs.Decimal.Whole
import WidgetSchema.Proofs.Node.Numeric
import WidgetSchema.Proofs.Node.Text
import WidgetSchema.Proofs.Text.Trim
import WidgetSchema.Proofs.Typography.Size
import WidgetSchema.Proofs.Control.Kinds
import WidgetSchema.Proofs.Edit.WriteBack
import WidgetSchema.Proofs.Node.Sites
import WidgetSchema.Proofs.Node.SiteMembers
import WidgetSchema.Proofs.Node.Position
import WidgetSchema.Proofs.Node.Visit
import WidgetSchema.Proofs.Normalization.Reading
import WidgetSchema.Proofs.Normalization.Ways
import WidgetSchema.Proofs.Normalization.Corrections
import WidgetSchema.Proofs.Normalization.FreshIds
import WidgetSchema.Proofs.Normalization.Ids
import WidgetSchema.Proofs.Normalization.Twice
import WidgetSchema.Proofs.Template.RoundTrip
import WidgetSchema.Proofs.Fragment.Levels
import WidgetSchema.Proofs.Normalization.Defaults
import WidgetSchema.Proofs.Command.Recompile
import WidgetSchema.Proofs.Declaration.Parts
import WidgetSchema.Proofs.Declaration.Bounds
import WidgetSchema.Proofs.Declaration.Kept
import WidgetSchema.Proofs.Text.Folded
import WidgetSchema.Proofs.Markup.Held
import WidgetSchema.Proofs.Markup.Opening
import WidgetSchema.Proofs.Markup.Bodies
import WidgetSchema.Proofs.Markup.Spans
import WidgetSchema.Proofs.Markup.Document
import WidgetSchema.Proofs.Markup.Within
import WidgetSchema.Proofs.Markup.Forest
import WidgetSchema.Proofs.Markup.Balanced
import WidgetSchema.Proofs.Markup.PanelOpening
import WidgetSchema.Proofs.Markup.PanelReader
import WidgetSchema.Proofs.Markup.PanelLines
import WidgetSchema.Proofs.Node.Letters
import WidgetSchema.Proofs.Generated.Lines
import WidgetSchema.Proofs.Generated.LayoutLines
import WidgetSchema.Proofs.Generated.Pieces
import WidgetSchema.Proofs.Generated.Places
import WidgetSchema.Proofs.Generated.PanelsStay
import WidgetSchema.Proofs.Generated.LayoutPanel
import WidgetSchema.Proofs.Generated.FieldsKept
import WidgetSchema.Proofs.Control.Expression
import WidgetSchema.Proofs.Control.Literal
import WidgetSchema.Proofs.Node.Spared
import WidgetSchema.Proofs.Overlay.Collected
import WidgetSchema.Proofs.Node.Spellings
import WidgetSchema.Proofs.Overlay.Merged
import WidgetSchema.Proofs.Overlay.Replayed
import WidgetSchema.Proofs.Edit.Positions
import WidgetSchema.Proofs.Fragment.Conditions
import WidgetSchema.Proofs.Node.Compact
import WidgetSchema.Proofs.Markup.Entities
import WidgetSchema.Proofs.Generated.Choices
import WidgetSchema.Proofs.Node.TreeWeight
import WidgetSchema.Proofs.Generated.ChoicesKept
import WidgetSchema.Proofs.Node.Reached
import WidgetSchema.Proofs.Normalization.Given
import WidgetSchema.Proofs.Normalization.Leaves
import WidgetSchema.Proofs.Widget.PanelIds
import WidgetSchema.Proofs.Edit.Repeated
import WidgetSchema.Proofs.Edit.Charged
import WidgetSchema.Proofs.Control.Coerced
import WidgetSchema.Proofs.Control.Reported
import WidgetSchema.Proofs.Markup.Decoded
import WidgetSchema.Proofs.Css.Single
import WidgetSchema.Proofs.Typography.Kind
import WidgetSchema.Proofs.Text.Rewritten
import WidgetSchema.Proofs.Markup.SimpleTags
import WidgetSchema.Proofs.Markup.QuotedTags
import WidgetSchema.Proofs.Typography.Fitted
import WidgetSchema.Proofs.Typography.Ranges
import WidgetSchema.Proofs.Typography.Weights
import WidgetSchema.Proofs.Text.Within
import WidgetSchema.Proofs.Overlay.Filtered
import WidgetSchema.Proofs.Overlay.Entries
import WidgetSchema.Proofs.Text.Slug
import WidgetSchema.Proofs.Control.Governing
import WidgetSchema.Proofs.Template.Unclosed
import WidgetSchema.Proofs.Fragment.Rendered
import WidgetSchema.Proofs.Widget.Images
import WidgetSchema.Proofs.Normalization.Reread
import WidgetSchema.Proofs.Node.Padding
import WidgetSchema.Proofs.Node.Removed
import WidgetSchema.Proofs.Declaration.Depth
