import Scriptlet.Command.Options
import Scriptlet.Command.Run
import Scriptlet.Command.Workspace
import Scriptlet.Json.Basic
import Scriptlet.Main
import Scriptlet.Number.Decimal
import Scriptlet.Number.Double
import Scriptlet.Parse.Expr
import Scriptlet.Parse.Fault
import Scriptlet.Parse.Step
import Scriptlet.Parse.Stmt
import Scriptlet.Proofs.Command.Arguments
import Scriptlet.Proofs.Command.Listing
import Scriptlet.Proofs.Command.Outcome
import Scriptlet.Proofs.Command.Paths
import Scriptlet.Proofs.Grammar.Agreement
import Scriptlet.Proofs.Grammar.Basic
import Scriptlet.Proofs.Grammar.Complete
import Scriptlet.Proofs.Grammar.Flat
import Scriptlet.Proofs.Grammar.Follow
import Scriptlet.Proofs.Grammar.Reading
import Scriptlet.Proofs.Grammar.Sound
import Scriptlet.Proofs.Json.Blanks
import Scriptlet.Proofs.Json.Order
import Scriptlet.Proofs.Json.Reading
import Scriptlet.Proofs.Number.Fewest
import Scriptlet.Proofs.Number.Literal
import Scriptlet.Proofs.Number.Nearest
import Scriptlet.Proofs.Number.Numeral
import Scriptlet.Proofs.Number.Plain
import Scriptlet.Proofs.Number.ReadBack
import Scriptlet.Proofs.Number.Rounding
import Scriptlet.Proofs.Number.Shortest
import Scriptlet.Proofs.Number.Whole
import Scriptlet.Proofs.Parse.Ahead
import Scriptlet.Proofs.Parse.Blame
import Scriptlet.Proofs.Parse.Calls
import Scriptlet.Proofs.Parse.Concat
import Scriptlet.Proofs.Parse.Earliest
import Scriptlet.Proofs.Parse.Guarded
import Scriptlet.Proofs.Parse.Moved
import Scriptlet.Proofs.Parse.Progress
import Scriptlet.Proofs.Parse.Prompt
import Scriptlet.Proofs.Parse.Targets
import Scriptlet.Proofs.Parse.Transparent
import Scriptlet.Proofs.Report.Layout
import Scriptlet.Proofs.Report.Place
import Scriptlet.Proofs.Token.Genuine
import Scriptlet.Proofs.Token.Longest
import Scriptlet.Proofs.Token.Newline
import Scriptlet.Proofs.Token.Scan
import Scriptlet.Proofs.Token.Seam
import Scriptlet.Proofs.Token.Session
import Scriptlet.Proofs.Token.Stuck
import Scriptlet.Proofs.Token.Tiling
import Scriptlet.Proofs.Tree.Legible
import Scriptlet.Proofs.Tree.Normal
import Scriptlet.Proofs.Tree.OfJson
import Scriptlet.Proofs.Tree.OfSExpr
import Scriptlet.Proofs.Tree.Spelling
import Scriptlet.Proofs.Tree.Texts
import Scriptlet.Proofs.Tree.Unsigned
import Scriptlet.Report
import Scriptlet.SExpr.Basic
import Scriptlet.Text.Blank
import Scriptlet.Text.Line
import Scriptlet.Text.Position
import Scriptlet.Text.Word
import Scriptlet.Token.Basic
import Scriptlet.Token.Cursor
import Scriptlet.Token.Pattern
import Scriptlet.Token.Rule
import Scriptlet.Token.Session
import Scriptlet.Token.Stream
import Scriptlet.Tree.Basic
import Scriptlet.Tree.Operator
import Scriptlet.Tree.ToJson
import Scriptlet.Tree.ToSExpr
