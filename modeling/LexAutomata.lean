import LexAutomata.Main
import LexAutomata.Proofs.Search
import LexAutomata.Proofs.OrderedMap
import LexAutomata.Proofs.Table.Run
import LexAutomata.Proofs.Table.Determinization
import LexAutomata.Proofs.Table.Partition
import LexAutomata.Proofs.Table.Refinement
import LexAutomata.Proofs.Table.Quotient
import LexAutomata.Proofs.Table.Minimality
import LexAutomata.Proofs.Table.Numbering
import LexAutomata.Proofs.Table.Residual
import LexAutomata.Proofs.Table.CanonicalForm
import LexAutomata.Proofs.Automaton.Construction
import LexAutomata.Proofs.Automaton.Merge
import LexAutomata.Proofs.Pattern.Language
import LexAutomata.Proofs.Grammar
import LexAutomata.Proofs.Pattern.Standard
import LexAutomata.Proofs.Table.Intact
import LexAutomata.Proofs.Recognizer
import LexAutomata.Proofs.Terminal.Soundness
import LexAutomata.Proofs.Source.Reading
import LexAutomata.Proofs.Terminal.History
import LexAutomata.Proofs.Terminal.Outline
import LexAutomata.Proofs.Automaton.History
import LexAutomata.Proofs.Source.Comment
import LexAutomata.Proofs.Source.Concatenation
import LexAutomata.Proofs.Counter
import LexAutomata.Proofs.Automaton.Renaming
import LexAutomata.Proofs.Table.Renaming
import LexAutomata.Proofs.Pattern.Shift
import LexAutomata.Proofs.Recognizer.Shift
import LexAutomata.Proofs.Table.Criteria
import LexAutomata.Proofs.Table.Repetition
import LexAutomata.Proofs.Files.Directory
import LexAutomata.Proofs.Analyzer
import LexAutomata.Proofs.Table.ClassMap
import LexAutomata.Proofs.Table.ReachedSets
import LexAutomata.Proofs.Table.BreadthFirst
import LexAutomata.Proofs.Table.Copy
import LexAutomata.Proofs.Table.Deterministic
import LexAutomata.Proofs.Table.Faithfulness
import LexAutomata.Proofs.Automaton.LabelledPath
import LexAutomata.Proofs.Pattern.Compilation
import LexAutomata.Proofs.Pattern.Branching
import LexAutomata.Proofs.Table.Trie
import LexAutomata.Proofs.Source.Segmentation
import LexAutomata.Proofs.Source.Uncommented
import LexAutomata.Proofs.Source.LineNumbers
import LexAutomata.Automaton.Memory
import LexAutomata.Proofs.Automaton.Memory
import LexAutomata.Proofs.Automaton.MergeFailure
import LexAutomata.Proofs.Source.Declaration
import LexAutomata.Proofs.Source.ReservedWord
import LexAutomata.Proofs.Source.Redeclaration
import LexAutomata.Proofs.Source.Junction
import LexAutomata.Proofs.Automaton.Growth
import LexAutomata.Proofs.Automaton.Closure
import LexAutomata.Proofs.Source.Trimming
import LexAutomata.Proofs.Table.LookUp
import LexAutomata.Proofs.Table.Worklist
import LexAutomata.Proofs.Report
import LexAutomata.Proofs.Drawing
