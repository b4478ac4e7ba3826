import BoxScript.CommandLine
import BoxScript.Decimal.Binary64
import BoxScript.Decimal.Integer
import BoxScript.Decimal.Layout
import BoxScript.Decimal.Reading
import BoxScript.Decimal.Shortest
import BoxScript.Diagnostic
import BoxScript.Error.Execution
import BoxScript.Error.Semantic
import BoxScript.Error.Syntax
import BoxScript.Eval
import BoxScript.Fact
import BoxScript.Fact.Store
import BoxScript.Heap
import BoxScript.Heap.Text
import BoxScript.Machine
import BoxScript.Main
import BoxScript.Proofs.Invariance.Brackets
import BoxScript.Proofs.Invariance.Renaming
import BoxScript.Proofs.Invariance.Spacing
import BoxScript.Proofs.Lexing.Escapes
import BoxScript.Proofs.Lexing.Literals
import BoxScript.Proofs.Lexing.Printing
import BoxScript.Proofs.Lexing.Reading
import BoxScript.Proofs.Lexing.Refusal
import BoxScript.Proofs.Lexing.Spelling
import BoxScript.Proofs.Lexing.Tiling
import BoxScript.Proofs.Recasting.Analysis
import BoxScript.Proofs.Recasting.Copying
import BoxScript.Proofs.Recasting.Entering
import BoxScript.Proofs.Recasting.Expressions
import BoxScript.Proofs.Recasting.Heaps
import BoxScript.Proofs.Recasting.Layout
import BoxScript.Proofs.Recasting.Parts
import BoxScript.Proofs.Recasting.Plans
import BoxScript.Proofs.Recasting.Relaying
import BoxScript.Proofs.Recasting.Rules
import BoxScript.Proofs.Recasting.Running
import BoxScript.Proofs.Recasting.Statements
import BoxScript.Proofs.Recasting.Steps
import BoxScript.Proofs.Recasting.Tables
import BoxScript.Proofs.Recasting.Trees
import BoxScript.Proofs.Recasting.Values
import BoxScript.Proofs.Recasting.Walk
import BoxScript.Proofs.Reporting.Arguments
import BoxScript.Proofs.Reporting.Excerpts
import BoxScript.Proofs.Reporting.Lines
import BoxScript.Proofs.Reporting.Positions
import BoxScript.Proofs.Rules.Asking
import BoxScript.Proofs.Rules.Characterization
import BoxScript.Proofs.Rules.Confluence
import BoxScript.Proofs.Rules.Counterparts
import BoxScript.Proofs.Rules.Course
import BoxScript.Proofs.Rules.Discipline
import BoxScript.Proofs.Rules.Effects
import BoxScript.Proofs.Rules.Fates
import BoxScript.Proofs.Rules.Holding
import BoxScript.Proofs.Rules.Lockstep
import BoxScript.Proofs.Rules.Mirroring
import BoxScript.Proofs.Rules.Passes
import BoxScript.Proofs.Rules.Questions
import BoxScript.Proofs.Rules.Script
import BoxScript.Proofs.Rules.SideBySide
import BoxScript.Proofs.Rules.Solving
import BoxScript.Proofs.Running.Activations
import BoxScript.Proofs.Running.Assignments
import BoxScript.Proofs.Running.Bindings
import BoxScript.Proofs.Running.Chains
import BoxScript.Proofs.Running.Chronicle
import BoxScript.Proofs.Running.Conformance
import BoxScript.Proofs.Running.Correspondence
import BoxScript.Proofs.Running.CurrentFrame
import BoxScript.Proofs.Running.Entering
import BoxScript.Proofs.Running.Expectation
import BoxScript.Proofs.Running.Expressions
import BoxScript.Proofs.Running.Heaps
import BoxScript.Proofs.Running.Initialisation
import BoxScript.Proofs.Running.IntArithmetic
import BoxScript.Proofs.Running.IntText
import BoxScript.Proofs.Running.Keeping
import BoxScript.Proofs.Running.Making
import BoxScript.Proofs.Running.MethodReferences
import BoxScript.Proofs.Running.Names
import BoxScript.Proofs.Running.Operators
import BoxScript.Proofs.Running.Origins
import BoxScript.Proofs.Running.Parts
import BoxScript.Proofs.Running.Passages
import BoxScript.Proofs.Running.Preparation
import BoxScript.Proofs.Running.Programs
import BoxScript.Proofs.Running.Provenance
import BoxScript.Proofs.Running.Receivers
import BoxScript.Proofs.Running.References
import BoxScript.Proofs.Running.Retention
import BoxScript.Proofs.Running.Returning
import BoxScript.Proofs.Running.Safety
import BoxScript.Proofs.Running.Selection
import BoxScript.Proofs.Running.Shapes
import BoxScript.Proofs.Running.Soundness
import BoxScript.Proofs.Running.Sparing
import BoxScript.Proofs.Running.Statements
import BoxScript.Proofs.Running.Surroundings
import BoxScript.Proofs.Running.Visits
import BoxScript.Proofs.Scopes.Building
import BoxScript.Proofs.Scopes.Members
import BoxScript.Proofs.Scopes.Visibility
import BoxScript.Proofs.Syntax.Children
import BoxScript.Proofs.Syntax.Covering
import BoxScript.Proofs.Syntax.Derivation
import BoxScript.Proofs.Syntax.ExpressionReading
import BoxScript.Proofs.Syntax.Fidelity
import BoxScript.Proofs.Syntax.Grammar
import BoxScript.Proofs.Syntax.Identities
import BoxScript.Proofs.Syntax.Lexemes
import BoxScript.Proofs.Syntax.Nesting
import BoxScript.Proofs.Syntax.Nodes
import BoxScript.Proofs.Syntax.Order
import BoxScript.Proofs.Syntax.Places
import BoxScript.Proofs.Syntax.Reading
import BoxScript.Proofs.Syntax.Stopping
import BoxScript.Proofs.Syntax.Writing
import BoxScript.Proofs.Types.Assignability
import BoxScript.Proofs.Types.Supertypes
import BoxScript.Proofs.Typing.ArrayLiterals
import BoxScript.Proofs.Typing.Completeness
import BoxScript.Proofs.Typing.Decision
import BoxScript.Proofs.Typing.DistinctNames
import BoxScript.Proofs.Typing.ExpressionRules
import BoxScript.Proofs.Typing.Found
import BoxScript.Proofs.Typing.Independence
import BoxScript.Proofs.Typing.Juxtaposition
import BoxScript.Proofs.Typing.Progress
import BoxScript.Proofs.Typing.Readiness
import BoxScript.Proofs.Typing.StatementRules
import BoxScript.Proofs.Typing.System
import BoxScript.Proofs.Walking.Accepted
import BoxScript.Proofs.Walking.Asked
import BoxScript.Proofs.Walking.Duplicates
import BoxScript.Proofs.Walking.Landmarks
import BoxScript.Proofs.Walking.Lookup
import BoxScript.Proofs.Walking.Ownership
import BoxScript.Proofs.Walking.Scopes
import BoxScript.Proofs.Walking.Sites
import BoxScript.Proofs.Walking.Table
import BoxScript.Proofs.Walking.Uses
import BoxScript.Rule
import BoxScript.Run
import BoxScript.Scope
import BoxScript.Sink
import BoxScript.Solver
import BoxScript.Source.Cursor
import BoxScript.Source.Line
import BoxScript.Source.Span
import BoxScript.Syntax.Operator
import BoxScript.Syntax.Parser
import BoxScript.Syntax.Precedence
import BoxScript.Syntax.Stream
import BoxScript.Syntax.Tree
import BoxScript.Text.Blank
import BoxScript.Text.Quoted
import BoxScript.Text.Unprintable
import BoxScript.Token
import BoxScript.Token.Lexer
import BoxScript.Ty
import BoxScript.Typing
import BoxScript.Typing.Annotations
import BoxScript.Typing.Rules
import BoxScript.Typing.Walk
import BoxScript.Value
import BoxScript.Value.Kind
import BoxScript.Value.Operation
