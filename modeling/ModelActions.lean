import ModelActions.Proofs.Reading
import ModelActions.Run.Runner
import ModelActions.Settings.Environment
import ModelActions.Store.Basic
import ModelActions.Proofs.FollowedWalk
import ModelActions.Proofs.GuardedOperations
import ModelActions.Proofs.HiddenRows
import ModelActions.Proofs.Growth
import ModelActions.Proofs.BatchedExpansion
import ModelActions.Proofs.AllOrNothing
import ModelActions.Proofs.ReadBack
import ModelActions.Proofs.FailedActions
import ModelActions.Proofs.CheckedGraphs
import ModelActions.Proofs.FrozenRows
import ModelActions.Proofs.FirstMatch
import ModelActions.Proofs.ActionSteps
import ModelActions.Proofs.RepeatedDeletes
import ModelActions.Proofs.ReadByKey
import ModelActions.Proofs.UpdatedRows
import ModelActions.Proofs.CreatedRows
import ModelActions.Proofs.TypedStores
import ModelActions.Proofs.OpenPaths
import ModelActions.Proofs.Recordings
import ModelActions.Proofs.CanonicalOperations
import ModelActions.Proofs.SummarizedSelections
import ModelActions.Proofs.GraphForms
import ModelActions.Proofs.FailingOperators
import ModelActions.Proofs.ExpandedRows
import ModelActions.Proofs.MemberLaws
import ModelActions.Proofs.SeparateHops
import ModelActions.Proofs.SeparateRows
import ModelActions.Proofs.PagedInputs
import ModelActions.Proofs.Pages
import ModelActions.Proofs.FilterForms
import ModelActions.Proofs.RepeatedChecks
import ModelActions.Proofs.BuiltSelects
import ModelActions.Proofs.RelatedScopes
import ModelActions.Proofs.FilterOffences
import ModelActions.Proofs.ClosedRegistries
import ModelActions.Proofs.FoundModels
import ModelActions.Proofs.FoundRuns
import ModelActions.Proofs.StoredRows
import ModelActions.Proofs.PageSizes
import ModelActions.Proofs.Subqueries
import ModelActions.Proofs.BatchedSelects
import ModelActions.Proofs.ScopeMeanings
import ModelActions.Proofs.Projections
import ModelActions.Proofs.SortedRows
import ModelActions.Proofs.AffectedRows
import ModelActions.Proofs.AcceptedRequests
import ModelActions.Proofs.IntegerKeys
import ModelActions.Proofs.MinimalCovers
import ModelActions.Proofs.AcyclicGraphs
import ModelActions.Proofs.ReportedScopes
import ModelActions.Proofs.RegularPlurals
import ModelActions.Proofs.PathPartitions
import ModelActions.Proofs.RectangularInserts
