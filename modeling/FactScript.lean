import FactScript.Block
import FactScript.Command.Arguments
import FactScript.Command.Run
import FactScript.File
import FactScript.FileTree
import FactScript.Json
import FactScript.Lexeme.Alphabet
import FactScript.Lexeme.Basic
import FactScript.Lexeme.Scan
import FactScript.Lexeme.Unicode
import FactScript.Line
import FactScript.Log.Event
import FactScript.Log.Level
import FactScript.Main
import FactScript.Memory.Basic
import FactScript.Memory.Json
import FactScript.Memory.Session
import FactScript.Memory.Store
import FactScript.Outline
import FactScript.Parser.Basic
import FactScript.Parser.Cursor
import FactScript.Parser.Fault
import FactScript.Position
import FactScript.Program
import FactScript.Proofs.Decimal
import FactScript.Proofs.Grammar
import FactScript.Proofs.Success
import FactScript.Settings
import FactScript.Statement.Basic
import FactScript.Statement.Header
import FactScript.Statement.Json
import FactScript.Statement.Parser
import FactScript.Statement.Printer
import FactScript.Term.Basic
import FactScript.Term.Json
import FactScript.Term.Parser
import FactScript.Term.Printer
import FactScript.Text.Blank
import FactScript.Text.Combining
import FactScript.Text.Cut
import FactScript.Text.Decimal
import FactScript.Text.Identifier
import FactScript.Text.Quoted
import FactScript.Text.Ranges
import FactScript.Text.Recent
import FactScript.Toml.Basic
import FactScript.Toml.Parser
import FactScript.Toml.Scalar
import FactScript.Toml.Scan
import FactScript.Proofs.PhraseSound
import FactScript.Proofs.Lookahead
import FactScript.Proofs.Strength
import FactScript.Proofs.PhraseComplete
import FactScript.Proofs.HeaderGrammar
import FactScript.Proofs.BlockGrammar
import FactScript.Proofs.SectionGrammar
import FactScript.Proofs.StatementGrammar
import FactScript.Proofs.Nesting
import FactScript.Proofs.Spelling
import FactScript.Proofs.Tally
import FactScript.Proofs.WellFormed
import FactScript.Proofs.Spacing
import FactScript.Proofs.Printing
import FactScript.Proofs.Layout
import FactScript.Proofs.RoundTrip
import FactScript.Proofs.Indentation
import FactScript.Proofs.Joining
import FactScript.Proofs.SessionLog
import FactScript.Proofs.Reachable
import FactScript.Proofs.Munch
import FactScript.Proofs.BlockText
import FactScript.Proofs.Isomorphism
import FactScript.Proofs.Layers
import FactScript.Proofs.Spans
import FactScript.Proofs.TabWidth
import FactScript.Proofs.Discipline
import FactScript.Proofs.Traceback
import FactScript.Proofs.Blame
import FactScript.Proofs.SectionOrder
import FactScript.Proofs.GuardPlacement
import FactScript.Proofs.SurfaceForms
import FactScript.Proofs.Leaves
import FactScript.Proofs.Numerals
import FactScript.Proofs.Starts
import FactScript.Proofs.CursorRuns
