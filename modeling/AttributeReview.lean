import AttributeReview.Command.Program
import AttributeReview.Main
import AttributeReview.Proofs.Ascending
import AttributeReview.Proofs.Attribute.Spelling
import AttributeReview.Proofs.Text.Utf8
import AttributeReview.Proofs.Proposal
import AttributeReview.Proofs.Review.Panel
import AttributeReview.Proofs.Review.Rows
import AttributeReview.Proofs.Json.Quoted
import AttributeReview.Proofs.Json.Numeral
import AttributeReview.Proofs.Json.Number
import AttributeReview.Proofs.Json.Token
import AttributeReview.Proofs.Json.Document
import AttributeReview.Proofs.Json.Fields
import AttributeReview.Proofs.Review.Report
import AttributeReview.Proofs.Json.Order
import AttributeReview.Proofs.Review.Order
import AttributeReview.Proofs.Command.Diff
import AttributeReview.Proofs.Calendar.Rendering
import AttributeReview.Proofs.Review.Display
import AttributeReview.Proofs.Attribute.Literal
import AttributeReview.Proofs.Review.Answers
import AttributeReview.Proofs.Json.Compact
import AttributeReview.Proofs.Attribute.Value
import AttributeReview.Proofs.Instance
import AttributeReview.Proofs.Review.Inputs
import AttributeReview.Proofs.Files.Tree
import AttributeReview.Proofs.Review.Stored
import AttributeReview.Proofs.Command.Program
import AttributeReview.Proofs.Command.Agreement
import AttributeReview.Proofs.Calendar.Days
import AttributeReview.Proofs.Calendar.Number
import AttributeReview.Proofs.Text.Blank
import AttributeReview.Proofs.Calendar.Reading
import AttributeReview.Proofs.Calendar.Written
import AttributeReview.Proofs.Calendar.Shown
import AttributeReview.Proofs.Review.Instants
import AttributeReview.Proofs.Calendar.Numeral
import AttributeReview.Proofs.Review.Dates
import AttributeReview.Proofs.Calendar.Readers
import AttributeReview.Proofs.Calendar.Pattern
import AttributeReview.Proofs.Review.Formats
import AttributeReview.Proofs.Review.Whole
import AttributeReview.Proofs.Binary64.Exact
import AttributeReview.Proofs.Attribute.Exact
import AttributeReview.Proofs.Attribute.Notation
import AttributeReview.Proofs.Ascending.Around
import AttributeReview.Proofs.Review.Edits
import AttributeReview.Proofs.Review.Applied
import AttributeReview.Proofs.Review.Alike
import AttributeReview.Proofs.Review.Absent
import AttributeReview.Proofs.Review.Growth
import AttributeReview.Proofs.Proposal.Notices
import AttributeReview.Proofs.Review.Colors
import AttributeReview.Proofs.Review.Visible
import AttributeReview.Proofs.Binary64.Order
import AttributeReview.Proofs.Review.Equal
import AttributeReview.Proofs.Review.Layout
import AttributeReview.Proofs.Json.Tree
import AttributeReview.Proofs.Json.Foreign
import AttributeReview.Proofs.Review.Foreign
import AttributeReview.Proofs.Binary64.Nearest
import AttributeReview.Proofs.Binary64.Shortest
import AttributeReview.Proofs.Json.Fraction
import AttributeReview.Proofs.Binary64.Error
import AttributeReview.Proofs.Json.Scaled
import AttributeReview.Proofs.Json.Reread
import AttributeReview.Proofs.Attribute.Fraction
