import KeyLint.Main
import KeyLint.Text.Units
import KeyLint.Proofs.Pattern.Acceptance
import KeyLint.Proofs.Template.RoundTrip
import KeyLint.Proofs.Expression.Candidates
import KeyLint.Proofs.Naming.Prefix
import KeyLint.Proofs.Checker.Bindings
import KeyLint.Proofs.Checker.Places
import KeyLint.Proofs.Checker.IgnoredPrefixes
import KeyLint.Proofs.Checker.Patterns
import KeyLint.Proofs.Checker.ByteOrderMark
import KeyLint.Proofs.Checker.InlineTemplates
import KeyLint.Proofs.Outcome
import KeyLint.Proofs.Project.Configuration
import KeyLint.Proofs.Template.Interpolations
import KeyLint.Proofs.Template.Errors
import KeyLint.Proofs.Template.References
import KeyLint.Proofs.Project.Decoding
import KeyLint.Proofs.Cursor.Checked
import KeyLint.Proofs.Cursor.Entities
import KeyLint.Proofs.Cursor.Regions
import KeyLint.Proofs.Cursor.Markup
import KeyLint.Proofs.Cursor.Templates
import KeyLint.Proofs.Cursor.Expressions
import KeyLint.Proofs.Naming.Segments
import KeyLint.Proofs.Naming.Contexts
import KeyLint.Proofs.Wording.Exemptions
import KeyLint.Proofs.Template.Headers
import KeyLint.Proofs.Script.Walk
import KeyLint.Proofs.Checker.Wrappers
import KeyLint.Proofs.Checker.DocumentOrder
import KeyLint.Proofs.Expression.Literals
import KeyLint.Proofs.Cursor.Lines
import KeyLint.Proofs.Project.Sources
import KeyLint.Proofs.Pattern.Balance
import KeyLint.Proofs.Report.Listing
import KeyLint.Proofs.Project.Ignores
