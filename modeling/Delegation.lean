import Delegation.Main
import Delegation.Proofs.Coalesce.Runs
import Delegation.Proofs.Ownership
import Delegation.Proofs.Build.Groups
import Delegation.Proofs.Build.Stages
import Delegation.Proofs.Index.Search
import Delegation.Proofs.Build.Lookup
import Delegation.Proofs.Build.Outcome
import Delegation.Proofs.Build.Canonical
import Delegation.Proofs.Build.Invariant
import Delegation.Proofs.Coalesce.Staged
import Delegation.Proofs.Build.Inert
import Delegation.Proofs.Catalog.Lookup
import Delegation.Proofs.Coalesce.Tally
import Delegation.Proofs.Coalesce.Clash
import Delegation.Proofs.Build.Tally
import Delegation.Proofs.Catalog.Balance
import Delegation.Proofs.Storage.Lines
import Delegation.Proofs.Statistics.Accounting
import Delegation.Proofs.Statistics.Writing
import Delegation.Proofs.Build.Schedule
import Delegation.Proofs.Statistics.Loading
import Delegation.Proofs.Build.Selections
import Delegation.Proofs.Address.Canonical
import Delegation.Proofs.Address.Short
import Delegation.Proofs.Address.Spelling
import Delegation.Proofs.Block.Enclosing
import Delegation.Proofs.Block.Tiling
import Delegation.Proofs.Block.Cover
import Delegation.Proofs.Word
import Delegation.Proofs.Block.Words
import Delegation.Proofs.Report.Rows
import Delegation.Proofs.Command.Arguments
import Delegation.Proofs.Command.Inputs
import Delegation.Proofs.Command.Lookup
import Delegation.Proofs.Storage.Tree
import Delegation.Proofs.Report.Csv
import Delegation.Proofs.Command.Build
import Delegation.Proofs.Json.Quoted
import Delegation.Proofs.Json.Pretty
import Delegation.Proofs.Command.Exports
import Delegation.Proofs.Coalesce.Counters
import Delegation.Proofs.Text.Blank
import Delegation.Proofs.Statistics.Layout
import Delegation.Proofs.Statistics.Extension
import Delegation.Proofs.Block.Length
import Delegation.Proofs.Extent
import Delegation.Proofs.Block.Exact
import Delegation.Proofs.Build.AddressCount
import Delegation.Proofs.Address.Detection
import Delegation.Proofs.Address.Quad
import Delegation.Proofs.Country.Table
import Delegation.Proofs.Json.Member
import Delegation.Proofs.Json.TextList
import Delegation.Proofs.Country.Export
import Delegation.Proofs.Gzip.Behind
import Delegation.Proofs.Gzip.Member
import Delegation.Proofs.Gzip.Stored
import Delegation.Proofs.Statistics.Compressed
import Delegation.Proofs.Statistics.Failure
