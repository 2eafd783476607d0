import CardSearch.Main
import CardSearch.Proofs.Query.Simplification
import CardSearch.Proofs.Query.Encoding
import CardSearch.Proofs.Query.Composition
import CardSearch.Proofs.Query.Denial
import CardSearch.Proofs.Evaluation.Faults
import CardSearch.Proofs.SortIndex.Sorting
import CardSearch.Proofs.Engine.Agreement
import CardSearch.Proofs.VersionSet.Runs
import CardSearch.Proofs.Store.Generations
import CardSearch.Proofs.Engine.Outcomes
import CardSearch.Proofs.Engine.SingleFlight
import CardSearch.Proofs.Query.Preparation
import CardSearch.Proofs.Store.Completion
import CardSearch.Proofs.Engine.Edits
import CardSearch.Proofs.Evaluation.Agreement
import CardSearch.Proofs.Query.Sufficiency
import CardSearch.Proofs.Engine.Keys
import CardSearch.Proofs.Engine.Refinement
import CardSearch.Proofs.Query.SubsetNames
import CardSearch.Proofs.Catalog.Inserts
import CardSearch.Proofs.Store.Failures
import CardSearch.Proofs.Engine.Recovery
import CardSearch.Proofs.Query.Conjunction
import CardSearch.Proofs.SortIndex.Prefixes
import CardSearch.Proofs.Query.CostComparison
import CardSearch.Proofs.Mana.Spelling
import CardSearch.Proofs.Query.ReleaseDates
import CardSearch.Proofs.Text.Slices
import CardSearch.Proofs.SortIndex.Bounds
import CardSearch.Proofs.Evaluation.Allocation
import CardSearch.Proofs.Evaluation.Memory
import CardSearch.Proofs.Query.Definitions
import CardSearch.Proofs.Query.Properties
import CardSearch.Proofs.Query.NameSearch
import CardSearch.Proofs.Mana.Grammar
import CardSearch.Proofs.Log.Lines
import CardSearch.Proofs.Query.Descent
