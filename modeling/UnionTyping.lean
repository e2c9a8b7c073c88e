import UnionTyping.Grammar.Equations
import UnionTyping.Main
import UnionTyping.Proofs.Grammar.Composition
import UnionTyping.Proofs.Grammar.Failures
import UnionTyping.Proofs.Grammar.ReadableTypes
import UnionTyping.Proofs.Grammar.RoundTrip
import UnionTyping.Proofs.Types.Semilattice
import UnionTyping.Scan.Offset
import UnionTyping.Proofs.Grammar.RecordedTypes
import UnionTyping.Proofs.Tree.TypeInvariants
import UnionTyping.Proofs.Grammar.Preservation
import UnionTyping.Proofs.Types.NormalForm
import UnionTyping.Proofs.Types.Resolution
import UnionTyping.Proofs.Types.SubstitutionResolution
import UnionTyping.Proofs.Grammar.Programs
import UnionTyping.Proofs.Grammar.WellFormed
import UnionTyping.Proofs.Grammar.Locality
import UnionTyping.Proofs.Grammar.UnionOrder
import UnionTyping.Proofs.Grammar.Declining
import UnionTyping.Proofs.Grammar.Sentinels
import UnionTyping.Proofs.Grammar.Calls
import UnionTyping.Proofs.Types.Solving
import UnionTyping.Proofs.Types.FreeNames
import UnionTyping.Proofs.Types.Kinds
import UnionTyping.Proofs.Grammar.Bodies
import UnionTyping.Proofs.Grammar.Annotations
import UnionTyping.Proofs.Tree.UnionOperands
import UnionTyping.Proofs.Grammar.Splits
import UnionTyping.Proofs.Grammar.Strings
import UnionTyping.Proofs.Scan.Exactness
import UnionTyping.Proofs.Grammar.Numerals
import UnionTyping.Proofs.Grammar.Segments
