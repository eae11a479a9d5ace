import ColumnRules.Main
import ColumnRules.RuleSet.Edit
import ColumnRules.Proofs.Grammar.UnknownNames
import ColumnRules.Proofs.Grammar.WellFormed
import ColumnRules.Proofs.Grouping.Overlap
import ColumnRules.Proofs.Grouping.Partition
import ColumnRules.Proofs.RoundTrip.Numeric
import ColumnRules.Proofs.RoundTrip.Views
import ColumnRules.Proofs.RuleSet.Runs
import ColumnRules.Proofs.Template.Composition
import ColumnRules.Proofs.Template.Recovery
import ColumnRules.Proofs.Template.Respelling
import ColumnRules.Proofs.Token.Recognition
import ColumnRules.Proofs.Template.Reordering
import ColumnRules.Proofs.RuleSet.FieldOrder
import ColumnRules.Proofs.Command.Interleaving
import ColumnRules.Proofs.Expr.Tagged
import ColumnRules.Proofs.Grammar.Balance
