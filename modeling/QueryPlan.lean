import QueryPlan.Aggregate.Registry
import QueryPlan.Filter.Stored
import QueryPlan.Plan.Same
import QueryPlan.Plan.Traverse
import QueryPlan.Pushdown.Aggregation
import QueryPlan.Qualify.Pass
import QueryPlan.Sql.Plan
import QueryPlan.Proofs.SplitPlan
import QueryPlan.Proofs.Alike
import QueryPlan.Proofs.Substitution
import QueryPlan.Proofs.Projection
import QueryPlan.Proofs.PushedFilters
import QueryPlan.Proofs.Walks
import QueryPlan.Proofs.Labels
import QueryPlan.Proofs.ExactFilters
import QueryPlan.Proofs.StoredFilters
import QueryPlan.Proofs.GroupRows
import QueryPlan.Proofs.Closed
import QueryPlan.Proofs.Ambiguity
import QueryPlan.Proofs.RowOrder
import QueryPlan.Proofs.IntegerOrder
import QueryPlan.Proofs.PartialSums
import QueryPlan.Proofs.Writable
import QueryPlan.Proofs.Repeats
import QueryPlan.Proofs.EqualKeys
import QueryPlan.Proofs.SameText
import QueryPlan.Proofs.RawScans
import QueryPlan.Proofs.WideFilters
import QueryPlan.Proofs.Patterns
import QueryPlan.Proofs.IntegerSums
import QueryPlan.Proofs.Quotation
import QueryPlan.Proofs.Chains
import QueryPlan.Proofs.ReplacedReferences
import QueryPlan.Proofs.RegularExpressions
