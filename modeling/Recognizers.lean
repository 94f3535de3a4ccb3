import Recognizers.Serial
import Recognizers.Serial.Counter
import Recognizers.LogLevel
import Recognizers.Grammar
import Recognizers.Vocabulary.Indexed
import Recognizers.Table.Matrix
import Recognizers.Table.Rows
import Recognizers.Tree.Forest
import Recognizers.Tree.Visitor
import Recognizers.Tree.Ordered
import Recognizers.Parser.Trace
import Recognizers.Parser.Pushback
import Recognizers.Description.Basic
import Recognizers.Graph.Keywords
import Recognizers.Graph.Inspect
import Recognizers.Graph.Visit
import Recognizers.Graph.Workspace
import Recognizers.Main
import Recognizers.Proofs.Parser.History
import Recognizers.Proofs.Parser.Ledger
import Recognizers.Proofs.Table.Listed
import Recognizers.Proofs.Parser.Items
import Recognizers.Proofs.Parser.Lockstep
import Recognizers.Proofs.Parser.Augmented
import Recognizers.Proofs.Parser.Accepted
import Recognizers.Proofs.Parser.Positions
import Recognizers.Proofs.Parser.Accounts
import Recognizers.Proofs.Parser.Termination
import Recognizers.Proofs.Parser.Prefixes
import Recognizers.Proofs.Table.Entries
import Recognizers.Proofs.Parser.Extension
import Recognizers.Proofs.Parser.Stopping
import Recognizers.Proofs.Tree.Isomorphism
import Recognizers.Proofs.Parser.Reparsing
import Recognizers.Proofs.Vocabulary.Names
import Recognizers.Proofs.Description.Lines
import Recognizers.Proofs.Description.Obedience
import Recognizers.Proofs.Description.Meaning
import Recognizers.Proofs.Parser.Renaming
import Recognizers.Proofs.Description.Reordering
import Recognizers.Parser.Checked
import Recognizers.Proofs.Tree.Checked
import Recognizers.Proofs.Parser.Checked
import Recognizers.Proofs.Parser.Alphabet
import Recognizers.Proofs.Description.Closure
import Recognizers.Proofs.Sessions
import Recognizers.Proofs.Table.Requests
import Recognizers.Proofs.Table.Rows
import Recognizers.Proofs.Vocabulary.Interning
import Recognizers.Proofs.Graph.Reachability
import Recognizers.Proofs.Graph.Drawing
import Recognizers.Proofs.Vocabulary.Indexed
import Recognizers.Proofs.Serial.Codes
import Recognizers.Proofs.Graph.Requests
import Recognizers.Proofs.Graph.EdgeLines
import Recognizers.Proofs.Graph.Faithful
import Recognizers.Proofs.Graph.Chains
import Recognizers.Proofs.Graph.Keywords
import Recognizers.Graph.Literal
import Recognizers.Proofs.Graph.Literal
import Recognizers.Proofs.Text.Words
import Recognizers.Proofs.Description.Layout
import Recognizers.Proofs.Serial.Shortlex
import Recognizers.Proofs.Table.Reading
import Recognizers.Proofs.Tree.Walk
import Recognizers.Proofs.Tree.Outline
import Recognizers.Proofs.Tree.Shapes
import Recognizers.Proofs.Tree.Indentation
import Recognizers.Proofs.Graph.NodeLines
