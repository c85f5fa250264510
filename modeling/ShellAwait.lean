import ShellAwait.Text.Lines
import ShellAwait.Grammar.Parse
import ShellAwait.Tree.Listing
import ShellAwait.Script.OfTree
import ShellAwait.Script.Names
import ShellAwait.Main
import ShellAwait.Bindings.Listing
import ShellAwait.Proofs.Grammar.Conservation
import ShellAwait.Proofs.Token.Lossless
import ShellAwait.Proofs.Token.Tiling
import ShellAwait.Proofs.Tree.Layout
import ShellAwait.Proofs.Tree.Shape
import ShellAwait.Proofs.Tree.Occurrences
import ShellAwait.Proofs.Grammar.Clean
import ShellAwait.Proofs.Grammar.Rules
import ShellAwait.Proofs.Grammar.Sound
import ShellAwait.Proofs.Tree.OfScript
import ShellAwait.Proofs.Script.Nodes
import ShellAwait.Proofs.Script.OfTree
import ShellAwait.Proofs.Analysis.Discipline
import ShellAwait.Proofs.Analysis.Trace
import ShellAwait.Proofs.Analysis.Traced
import ShellAwait.Proofs.Script.Writes
import ShellAwait.Proofs.Analysis.OfScript
import ShellAwait.Proofs.Analysis.Findings
import ShellAwait.Proofs.Analysis.Promotion
import ShellAwait.Proofs.Script.Places
import ShellAwait.Proofs.Analysis.Notes
import ShellAwait.Proofs.Analysis.Derivation
import ShellAwait.Proofs.Output.Insertions
import ShellAwait.Proofs.Analysis.Hoisting
import ShellAwait.Proofs.Bindings.Widening
import ShellAwait.Proofs.Bindings.Outer
import ShellAwait.Proofs.Analysis.Closed
import ShellAwait.Proofs.Analysis.Confinement
import ShellAwait.Proofs.Analysis.Checked
import ShellAwait.Proofs.Analysis.Twins
import ShellAwait.Proofs.Script.Names
import ShellAwait.Proofs.Analysis.Settling
import ShellAwait.Proofs.Grammar.Events
import ShellAwait.Proofs.Grammar.Marks
import ShellAwait.Proofs.Tree.Building
import ShellAwait.Proofs.Grammar.Fronts
import ShellAwait.Proofs.Grammar.Drafts
import ShellAwait.Proofs.Grammar.Reading.Expressions
import ShellAwait.Proofs.Grammar.Reading.Statements
import ShellAwait.Proofs.Analysis.Recording
import ShellAwait.Proofs.Bindings.Held
import ShellAwait.Proofs.Analysis.Points
import ShellAwait.Proofs.Analysis.Regimes
import ShellAwait.Proofs.Analysis.Regimes.OfScript
import ShellAwait.Proofs.Catalogue.Members
import ShellAwait.Proofs.Analysis.Resolved
import ShellAwait.Proofs.Output.Conservative
import ShellAwait.Proofs.Tree.Slots
import ShellAwait.Proofs.Grammar.Filled
import ShellAwait.Proofs.Script.Slots
import ShellAwait.Proofs.Script.Complete
import ShellAwait.Proofs.Script.Missed
import ShellAwait.Proofs.Analysis.Tallies
import ShellAwait.Proofs.Analysis.Tallies.OfScript
import ShellAwait.Proofs.Analysis.Coverage
import ShellAwait.Proofs.Catalogue.Closure
import ShellAwait.Proofs.Tree.Brackets
import ShellAwait.Proofs.Grammar.Termination
import ShellAwait.Proofs.Tree.Trivia
import ShellAwait.Proofs.Bindings.Nearest
import ShellAwait.Proofs.Analysis.Hoisting.Rounds
import ShellAwait.Proofs.Analysis.Parentheses
import ShellAwait.Proofs.Analysis.Destructuring
import ShellAwait.Proofs.Tree.Spots
import ShellAwait.Proofs.Tree.Ranges
import ShellAwait.Proofs.Grammar.Rooted
import ShellAwait.Proofs.Grammar.Precedence
import ShellAwait.Proofs.Grammar.LineEnds
import ShellAwait.Proofs.Grammar.Pairs
import ShellAwait.Proofs.Tree.Location
import ShellAwait.Proofs.Bindings.Agreement
import ShellAwait.Proofs.Token.Templates
import ShellAwait.Proofs.Grammar.Restriction
import ShellAwait.Proofs.Output.Links
import ShellAwait.Proofs.Text.Lines
import ShellAwait.Proofs.Analysis.SourceOrder
import ShellAwait.Proofs.Token.Terminators
import ShellAwait.Proofs.Grammar.LineBreaks
import ShellAwait.Proofs.Grammar.ArrowParameters
import ShellAwait.Proofs.Grammar.Positions
