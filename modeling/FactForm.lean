import FactForm.AnswerSets
import FactForm.Exchange
import FactForm.Main
import FactForm.Pattern
import FactForm.Program
import FactForm.Proofs.Live.Submission
import FactForm.Proofs.Live.Typing
import FactForm.Proofs.Atom.Canonical
import FactForm.Proofs.Live.Language
import FactForm.Proofs.Program.RoundTrip
import FactForm.Proofs.Atom.Compact
import FactForm.Proofs.Exchange.RoundTrip
import FactForm.Proofs.AnswerSets.RoundTrip
import FactForm.Proofs.Template.Greedy
import FactForm.Proofs.Template.LongestRun
import FactForm.Proofs.Template.Compile
import FactForm.Proofs.Exchange.Import
import FactForm.Proofs.Exchange.Run
import FactForm.Proofs.Live.Pool
import FactForm.Proofs.Program.Occurrence
import FactForm.Proofs.Program.Statements
import FactForm.Proofs.Program.Rules
import FactForm.Proofs.Program.Grouping
import FactForm.Proofs.Atom.Construction
import FactForm.Proofs.AnswerSets.Entries
import FactForm.Proofs.Entity.FullMatch
import FactForm.Proofs.Live.Pass
import FactForm.Proofs.Entity.Readability
import FactForm.Proofs.Live.TypedText
import FactForm.Proofs.Live.Prompt
import FactForm.Proofs.Source.Resolution
import FactForm.Proofs.Source.Limits
import FactForm.Proofs.Live.Filtered
import FactForm.Proofs.Value.Delimiters
import FactForm.Proofs.Source.Descriptor
import FactForm.Proofs.Kind.Compile
import FactForm.Proofs.CommandLine.Spellings
import FactForm.Proofs.Pattern.Atoms
