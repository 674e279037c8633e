import RecordFilter.Cache
import RecordFilter.Load
import RecordFilter.Proofs.CacheRun
import RecordFilter.Proofs.IntegerCondition
import RecordFilter.Proofs.Json.RoundTrip
import RecordFilter.Proofs.PathFailure
import RecordFilter.Proofs.CompileOutcome
import RecordFilter.Proofs.CacheSharing
import RecordFilter.Proofs.Json.RuleSetLanguage
import RecordFilter.Proofs.PathComposition
import RecordFilter.Proofs.Explanation
import RecordFilter.Proofs.FiniteFloats
import RecordFilter.Proofs.Truncation
import RecordFilter.Proofs.FirstFault
import RecordFilter.Proofs.Loading
import RecordFilter.Proofs.SchemaFields
import RecordFilter.Proofs.StringCoercion
import RecordFilter.Proofs.SchemaExtension
import RecordFilter.Proofs.ConditionSets
import RecordFilter.Proofs.CacheAccounting
import RecordFilter.Proofs.CacheInterleaving
import RecordFilter.Proofs.OperatorLaws
import RecordFilter.Proofs.Json.DroppedDigits
import RecordFilter.Proofs.Json.FloatRoundTrip
import RecordFilter.Proofs.QuotedNumber
import RecordFilter.Proofs.Thresholds
import RecordFilter.Proofs.EqualRuleSets
import RecordFilter.Proofs.Json.NumberLiteral
import RecordFilter.Proofs.Respelling
import RecordFilter.Proofs.WholeText
import RecordFilter.Proofs.FloatString
import RecordFilter.Proofs.SubstringOrder
