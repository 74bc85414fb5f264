import EffectLang.Language.Check
import EffectLang.Proofs.Grammar.Run
import EffectLang.Proofs.Grammar.Shape
import EffectLang.Proofs.Expr.Grouping
import EffectLang.Proofs.Grammar.Derivation
import EffectLang.Proofs.Language.RoundTrip
import EffectLang.Proofs.Grammar.Viable
import EffectLang.Proofs.Language.WellFormed
import EffectLang.Proofs.Language.Fault
import EffectLang.Proofs.Language.Layout
import EffectLang.Proofs.Language.Boundary
import EffectLang.Proofs.Grammar.Oblivious
import EffectLang.Proofs.Language.Compose
import EffectLang.Proofs.Language.NodeSpan
import EffectLang.Proofs.Grammar.Refusal
import EffectLang.Proofs.Grammar.Repair
import EffectLang.Proofs.Grammar.Descent
import EffectLang.Proofs.Language.Relevance
import EffectLang.Proofs.Language.Diagnosis
import EffectLang.Proofs.Operator.Canonical
import EffectLang.Proofs.Language.LongestMatch
import EffectLang.Proofs.Language.Spelling
import EffectLang.Proofs.Expr.Readings
import EffectLang.Proofs.Text.Cursor
import EffectLang.Proofs.Language.Scanner
