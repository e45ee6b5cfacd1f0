import DocComment.Comment.Render
import DocComment.Settings.Discovery
import DocComment.Tag.Reader
import DocComment.Tag.Written
import DocComment.Text.Alphanumeric
import DocComment.Text.Blank
import DocComment.Text.LowerCase
import DocComment.Text.Octets
import DocComment.Text.Quoted
import DocComment.TypeExpr.Basic
import DocComment.TypeExpr.Token
import DocComment.Proofs.Catalog.Filing
import DocComment.Proofs.Catalog.Runs
import DocComment.Proofs.Catalog.Lookup
import DocComment.Proofs.Catalog.Merging
import DocComment.Proofs.Catalog.Groups
import DocComment.Proofs.Sorting
import DocComment.Proofs.Tag.Order
import DocComment.Proofs.Catalog.Declarations
import DocComment.Proofs.Layout.Unframed
import DocComment.Proofs.Comment.Words
import DocComment.Proofs.TypeExpr.Token
import DocComment.Proofs.Tag.Declaration
import DocComment.Proofs.Tag.Rereading
import DocComment.Proofs.Tag.Argument
import DocComment.Proofs.Tag.MethodRereading
import DocComment.Proofs.Catalog.SortedViews
import DocComment.Proofs.Catalog.Openings
import DocComment.Proofs.Catalog.FirstAppearance
import DocComment.Proofs.Comment.Shape
import DocComment.Proofs.Tag.ReadMethod
import DocComment.Proofs.Catalog.Duplicates
import DocComment.Proofs.Catalog.Remerging
import DocComment.Proofs.Catalog.MergeOrder
import DocComment.Proofs.Comment.Closing
import DocComment.Proofs.Text.Filling
import DocComment.Proofs.Text.Refilling
import DocComment.Proofs.TypeExpr.WellFormed
import DocComment.Proofs.Tag.ProperParts
import DocComment.Proofs.Tag.InPlace
import DocComment.Proofs.Tag.InPlaceMethod
import DocComment.Proofs.Tag.ReadInPlace
import DocComment.Proofs.Tag.Announced
import DocComment.Proofs.Tag.Description
import DocComment.Proofs.Tag.WithoutParameters
import DocComment.Proofs.Tag.Marks
import DocComment.Proofs.Tag.AnnouncedMethod
import DocComment.Proofs.Catalog.Erasing
import DocComment.Proofs.Layout.Columns
import DocComment.Proofs.Comment.Runs
import DocComment.Proofs.Tag.Built
import DocComment.Proofs.Comment.Alignment
import DocComment.Proofs.Catalog.OwnTags
import DocComment.Proofs.Comment.Edits
import DocComment.Proofs.Settings.Nearest
import DocComment.Proofs.Tag.Cuts
import DocComment.Proofs.Tag.Tiling
import DocComment.Proofs.Tag.Announcement
