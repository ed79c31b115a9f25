import PirFrontend.Build.Builder
import PirFrontend.Build.Command
import PirFrontend.Build.Declaration
import PirFrontend.Build.Diagnostic
import PirFrontend.Build.Emission
import PirFrontend.Build.Frame
import PirFrontend.Build.Invoking
import PirFrontend.Build.Operand
import PirFrontend.Code.Branch
import PirFrontend.Code.Expression
import PirFrontend.Code.FlagSet
import PirFrontend.Code.Instruction
import PirFrontend.Code.Invocation
import PirFrontend.Code.LabelCheck
import PirFrontend.Code.Opcode
import PirFrontend.Code.Reduction
import PirFrontend.Code.Subroutine
import PirFrontend.Code.Symbol
import PirFrontend.Code.Table
import PirFrontend.Compile
import PirFrontend.Decimal.Read
import PirFrontend.Decimal.Shortest
import PirFrontend.Decimal.Written
import PirFrontend.Grammar.Assignment
import PirFrontend.Grammar.CallBlock
import PirFrontend.Grammar.Conditional
import PirFrontend.Grammar.Declaration
import PirFrontend.Grammar.Invocation
import PirFrontend.Grammar.Parser
import PirFrontend.Grammar.Program
import PirFrontend.Grammar.Statement
import PirFrontend.Grammar.Value
import PirFrontend.Grammar.Words
import PirFrontend.Proofs.Aborting
import PirFrontend.Proofs.Actions
import PirFrontend.Proofs.Arithmetic
import PirFrontend.Proofs.Arriving
import PirFrontend.Proofs.Blanks
import PirFrontend.Proofs.Blocks
import PirFrontend.Proofs.Bodies
import PirFrontend.Proofs.Breaking
import PirFrontend.Proofs.Augmented
import PirFrontend.Proofs.BrokenLines
import PirFrontend.Proofs.Building
import PirFrontend.Proofs.Calls
import PirFrontend.Proofs.Commands
import PirFrontend.Proofs.Comparisons
import PirFrontend.Proofs.Conditions
import PirFrontend.Proofs.Crossing
import PirFrontend.Proofs.Decisions
import PirFrontend.Proofs.Displacement
import PirFrontend.Proofs.Doubles
import PirFrontend.Proofs.Growth
import PirFrontend.Proofs.Independence
import PirFrontend.Proofs.InvalidLines
import PirFrontend.Proofs.Invariants
import PirFrontend.Proofs.Joins
import PirFrontend.Proofs.LabelChecks
import PirFrontend.Proofs.LabelTables
import PirFrontend.Proofs.LeadingLabels
import PirFrontend.Proofs.Limits
import PirFrontend.Proofs.LineEndings
import PirFrontend.Proofs.Lines
import PirFrontend.Proofs.LongForms
import PirFrontend.Proofs.Mending
import PirFrontend.Proofs.Mirrors
import PirFrontend.Proofs.NamedConstants
import PirFrontend.Proofs.Newlines
import PirFrontend.Proofs.Operands
import PirFrontend.Proofs.Outcomes
import PirFrontend.Proofs.Pairing
import PirFrontend.Proofs.Parting
import PirFrontend.Proofs.Programs
import PirFrontend.Proofs.Running
import PirFrontend.Proofs.Runs
import PirFrontend.Proofs.Soundness
import PirFrontend.Proofs.SourceOrder
import PirFrontend.Proofs.Statements
import PirFrontend.Proofs.Steps
import PirFrontend.Proofs.Tables
import PirFrontend.Proofs.Termination
import PirFrontend.Proofs.Twins
import PirFrontend.Proofs.Values
import PirFrontend.Proofs.Words
import PirFrontend.Source.Span
import PirFrontend.Text.Digits
import PirFrontend.Text.Escape
import PirFrontend.Token.Basic
import PirFrontend.Token.Lexer
import PirFrontend.Token.Numeral
import PirFrontend.Token.Operator
import PirFrontend.Token.ParseError
import PirFrontend.Token.Piece
import PirFrontend.Token.Quoted
import PirFrontend.Token.Scan
import PirFrontend.Token.Split
import PirFrontend.Token.Stream
import PirFrontend.Token.Word
import PirFrontend.Value.Constant
import PirFrontend.Value.Fold
import PirFrontend.Value.Operation
import PirFrontend.Value.Truth
import PirFrontend.Value.ValueType
import PirFrontend.Proofs.Tiling
import PirFrontend.Proofs.Rescanning
import PirFrontend.Proofs.Respacing
import PirFrontend.Proofs.Literals
import PirFrontend.Proofs.Quoting
import PirFrontend.Proofs.Rendering
import PirFrontend.Proofs.RoundTrips
import PirFrontend.Proofs.Reductions
import PirFrontend.Proofs.Integers
import PirFrontend.Proofs.Buffering
import PirFrontend.Proofs.Respelling
import PirFrontend.Proofs.Renaming
import PirFrontend.Proofs.Carrying
import PirFrontend.Proofs.RenamedBuilds
import PirFrontend.Proofs.RenamedDeclarations
import PirFrontend.Proofs.RenamedTokens
import PirFrontend.Proofs.RenamedValues
import PirFrontend.Proofs.RenamedCalls
import PirFrontend.Proofs.RenamedStatements
import PirFrontend.Proofs.RenamedPrograms
import PirFrontend.Proofs.TypeNames
import PirFrontend.Proofs.IntLiterals
import PirFrontend.Proofs.Resolution
import PirFrontend.Proofs.Registers
import PirFrontend.Proofs.SubIds
import PirFrontend.Proofs.Operators
