import EntitySplit.Backup.Create
import EntitySplit.Lexical.Cursor
import EntitySplit.Main
import EntitySplit.Proofs.Block.Grammar
import EntitySplit.Proofs.Reference.Rewriting
import EntitySplit.Proofs.Lexical.Grammar
import EntitySplit.Proofs.Lexical.Reading
import EntitySplit.Proofs.Lexical.Kind
import EntitySplit.Proofs.Block.Balance
import EntitySplit.Proofs.Block.Passage
import EntitySplit.Proofs.Lexical.BlankLine
import EntitySplit.Proofs.Block.Excerpts
import EntitySplit.Proofs.Reference.Relabelling
import EntitySplit.Proofs.Reference.Kinds
import EntitySplit.Proofs.Block.Alone
import EntitySplit.Proofs.Block.Starts
import EntitySplit.Proofs.Reference.Starts
import EntitySplit.Proofs.Indent
import EntitySplit.Proofs.ConfigurationClass.Braces
import EntitySplit.Proofs.Lexical.Returns
import EntitySplit.Proofs.Block.Returns
import EntitySplit.Proofs.ConfigurationClass.Returns
import EntitySplit.Proofs.Header.Returns
import EntitySplit.Proofs.Split.Returns
import EntitySplit.Proofs.Path.Place
import EntitySplit.Proofs.Files.Walk
import EntitySplit.Proofs.Files.Change
import EntitySplit.Proofs.Backup.Place
import EntitySplit.Proofs.Backup.Calendar
import EntitySplit.Proofs.Split.Performed
import EntitySplit.Proofs.Split.Effect
import EntitySplit.Proofs.Split.BackedUp
import EntitySplit.Proofs.Split.Preview
import EntitySplit.Proofs.Split.Grouping
import EntitySplit.Proofs.ConfigurationClass.Place
import EntitySplit.Proofs.Reference.LeftBehind
import EntitySplit.Proofs.Block.TypeName
import EntitySplit.Proofs.Header.Code
import EntitySplit.Proofs.Split.LineEndings
import EntitySplit.Proofs.Edit.Substitution
import EntitySplit.Proofs.Lexical.Delimiters
import EntitySplit.Proofs.Block.Scanning
import EntitySplit.Proofs.ConfigurationClass.Literals
import EntitySplit.Proofs.Indent.Lines
import EntitySplit.Proofs.Diff.Patch
import EntitySplit.Proofs.Diff.Numbers
