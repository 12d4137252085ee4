import JazzGrammar.Binary64
import JazzGrammar.Binary64.Shortest
import JazzGrammar.Chord
import JazzGrammar.Chord.Symbol
import JazzGrammar.CommandLine
import JazzGrammar.CommandLine.Arguments
import JazzGrammar.Decimal
import JazzGrammar.Duration
import JazzGrammar.Duration.Literal
import JazzGrammar.Exploration
import JazzGrammar.Fault
import JazzGrammar.Grid
import JazzGrammar.Grid.Printer
import JazzGrammar.Grid.Reader
import JazzGrammar.Json.Printer
import JazzGrammar.Json.Reader
import JazzGrammar.Json.Value
import JazzGrammar.Main
import JazzGrammar.Notation
import JazzGrammar.Printed
import JazzGrammar.Progression
import JazzGrammar.Proofs.Binary64
import JazzGrammar.Proofs.Binary64.Shortest
import JazzGrammar.Proofs.CommandLine
import JazzGrammar.Proofs.Compaction
import JazzGrammar.Proofs.DeadEnds
import JazzGrammar.Proofs.Detection
import JazzGrammar.Proofs.Diminished
import JazzGrammar.Proofs.Exploration
import JazzGrammar.Proofs.Fault
import JazzGrammar.Proofs.Grid.Accepted
import JazzGrammar.Proofs.Grid.Alignment
import JazzGrammar.Proofs.Grid.BarLines
import JazzGrammar.Proofs.Grid.Canonical
import JazzGrammar.Proofs.Grid.Cut
import JazzGrammar.Proofs.Grid.Density
import JazzGrammar.Proofs.Grid.Excess
import JazzGrammar.Proofs.Grid.Grammar
import JazzGrammar.Proofs.Grid.Layout
import JazzGrammar.Proofs.Grid.Limit
import JazzGrammar.Proofs.Grid.Padding
import JazzGrammar.Proofs.Grid.Reading
import JazzGrammar.Proofs.Grid.RoundTrip
import JazzGrammar.Proofs.Grid.Slots
import JazzGrammar.Proofs.Grid.Subdivision
import JazzGrammar.Proofs.Independence
import JazzGrammar.Proofs.Interval
import JazzGrammar.Proofs.Item
import JazzGrammar.Proofs.Joined
import JazzGrammar.Proofs.Json
import JazzGrammar.Proofs.Json.Number
import JazzGrammar.Proofs.Listed
import JazzGrammar.Proofs.Listing
import JazzGrammar.Proofs.Lists
import JazzGrammar.Proofs.Literal
import JazzGrammar.Proofs.Literal.Grammar
import JazzGrammar.Proofs.Marking
import JazzGrammar.Proofs.Merging
import JazzGrammar.Proofs.Printed
import JazzGrammar.Proofs.Refinement
import JazzGrammar.Proofs.Report
import JazzGrammar.Proofs.Reported
import JazzGrammar.Proofs.Rewriting
import JazzGrammar.Proofs.Rule
import JazzGrammar.Proofs.RuleTable
import JazzGrammar.Proofs.Run
import JazzGrammar.Proofs.Scaling
import JazzGrammar.Proofs.Session
import JazzGrammar.Proofs.Sound
import JazzGrammar.Proofs.Spelling
import JazzGrammar.Proofs.Substitution
import JazzGrammar.Proofs.Symbol
import JazzGrammar.Proofs.Symbol.Grammar
import JazzGrammar.Proofs.Symmetry
import JazzGrammar.Proofs.Termination
import JazzGrammar.Proofs.Text
import JazzGrammar.Proofs.Time
import JazzGrammar.Proofs.Timeline
import JazzGrammar.Proofs.Token
import JazzGrammar.Proofs.Transposition
import JazzGrammar.Report
import JazzGrammar.Root
import JazzGrammar.Root.Shift
import JazzGrammar.Root.Spelling
import JazzGrammar.Rule
import JazzGrammar.Run
import JazzGrammar.Session
import JazzGrammar.Settings
import JazzGrammar.Step
import JazzGrammar.Text
import JazzGrammar.TimedChord
import JazzGrammar.Yaml.Anchor
import JazzGrammar.Yaml.Cursor
import JazzGrammar.Yaml.Mapping
import JazzGrammar.Yaml.Scalar
import JazzGrammar.Yaml.Tag
import JazzGrammar.Yaml.Token
