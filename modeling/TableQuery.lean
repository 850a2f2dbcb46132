import TableQuery.Json.Reader
import TableQuery.Json.Printer
import TableQuery.Table.Records
import TableQuery.Statement.Outline
import TableQuery.Statement.Forest
import TableQuery.Statement.Grammar
import TableQuery.Settings
import TableQuery.Table.Filter
import TableQuery.Grouping.Select
import TableQuery.Grouping.Having
import TableQuery.Query.Draft
import TableQuery.Query.Run
import TableQuery.Proofs.Cell.Sameness
import TableQuery.Proofs.Condition.Truth
import TableQuery.Proofs.OrderedMap
import TableQuery.Proofs.Grouping.Having
import TableQuery.Proofs.Grouping.Groups
import TableQuery.Proofs.Grouping.Partition
import TableQuery.Proofs.Table.Filter
import TableQuery.Proofs.Grouping.Pushdown
import TableQuery.Proofs.Statement.Grammar
import TableQuery.Proofs.Statement.Nodes
import TableQuery.Proofs.Statement.Language
import TableQuery.Proofs.Statement.Validation
import TableQuery.Proofs.Statement.WellFormed
import TableQuery.Proofs.Grouping.Select
import TableQuery.Proofs.Query.Grouped
import TableQuery.Proofs.Table.Refusals
import TableQuery.Proofs.Grouping.Refusals
import TableQuery.Proofs.Query.Refusals
import TableQuery.Proofs.Query.Drafts
import TableQuery.Proofs.Query.Erasure
import TableQuery.Proofs.Query.Sameness
import TableQuery.Proofs.Grouping.Rekeyed
import TableQuery.Proofs.Query.Regrouped
import TableQuery.Proofs.Statement.Growth
import TableQuery.Proofs.Query.Construction
import TableQuery.Proofs.Grouping.Bounds
import TableQuery.Proofs.Query.Aliases
import TableQuery.Proofs.Statement.References
import TableQuery.Proofs.Statement.Descent
import TableQuery.Proofs.Query.Cursor
import TableQuery.Proofs.Query.Desks
import TableQuery.Proofs.Grouping.Reordered
import TableQuery.Proofs.Table.Records
import TableQuery.Proofs.Condition.ShortCircuit
import TableQuery.Proofs.Table.Clashes
import TableQuery.Proofs.Grouping.Form
import TableQuery.Proofs.Query.Ungrouped
import TableQuery.Proofs.Query.Renamed
import TableQuery.Proofs.Grouping.Causes
import TableQuery.Proofs.Grouping.Sequences
import TableQuery.Proofs.Cell.Kinds
import TableQuery.Proofs.Aggregate.Accumulators
import TableQuery.Proofs.Aggregate.Sums
import TableQuery.Proofs.Text.Bytes
import TableQuery.Proofs.Binary64.Integers
import TableQuery.Proofs.Aggregate.Extremes
import TableQuery.Proofs.Aggregate.EmptyCells
import TableQuery.Proofs.Aggregate.IntegerExtremes
import TableQuery.Proofs.Grouping.Calls
import TableQuery.Proofs.Grouping.Nested
import TableQuery.Proofs.Grouping.Counts
import TableQuery.Proofs.Grouping.Rollup
import TableQuery.Proofs.Table.Projection
import TableQuery.Proofs.Parted
import TableQuery.Proofs.Condition.Related
import TableQuery.Proofs.Table.ProjectedRows
import TableQuery.Proofs.Text.Quoted
import TableQuery.Proofs.Cell.Comparisons
import TableQuery.Proofs.Table.Comparisons
import TableQuery.Proofs.Statement.Sameness
import TableQuery.Proofs.Decimal.Counts
import TableQuery.Proofs.Statement.Limits
import TableQuery.Proofs.Text.LetterCase
import TableQuery.Proofs.Aggregate.Catalog
import TableQuery.Proofs.Table.Resolution
import TableQuery.Proofs.Statement.Spelling
import TableQuery.Proofs.Grouping.Spelling
import TableQuery.Proofs.Statement.Places
import TableQuery.Proofs.Statement.Outline
