import NextEdit.Main
import NextEdit.CommandLine.Run
import NextEdit.Diff.Edit
import NextEdit.Request.Encode
import NextEdit.Proofs.Text.Measure
import NextEdit.Proofs.Text.Lines
import NextEdit.Proofs.Text.Occurrence
import NextEdit.Proofs.Text.Scan
import NextEdit.Proofs.Text.Slices
import NextEdit.Proofs.Text.Octets
import NextEdit.Proofs.Text.Stray
import NextEdit.Proofs.Text.Erasure
import NextEdit.Proofs.Json.Number
import NextEdit.Proofs.Json.Quote
import NextEdit.Proofs.Json.Elements
import NextEdit.Proofs.Json.RoundTrip
import NextEdit.Proofs.Json.Legibility
import NextEdit.Proofs.Json.Newlines
import NextEdit.Proofs.Json.Ascii
import NextEdit.Proofs.Request.Members
import NextEdit.Proofs.Request.RoundTrip
import NextEdit.Proofs.Request.Accepted
import NextEdit.Proofs.Diff.Hunks
import NextEdit.Proofs.Diff.Trim
import NextEdit.Proofs.Diff.Apply
import NextEdit.Proofs.Diff.Tight
import NextEdit.Proofs.Budget.Greedy
import NextEdit.Proofs.Budget.History
import NextEdit.Proofs.Budget.Related
import NextEdit.Proofs.Budget.Selection
import NextEdit.Proofs.Budget.Rounding
import NextEdit.Proofs.Prompt.Assembly
import NextEdit.Proofs.Prompt.Spending
import NextEdit.Proofs.Prompt.Priority
import NextEdit.Proofs.Prompt.Accounting
import NextEdit.Proofs.Format.Reserved
import NextEdit.Proofs.Region.Cut
import NextEdit.Proofs.Region.Blocks
import NextEdit.Proofs.Region.Recovery
import NextEdit.Proofs.Region.Collision
import NextEdit.Proofs.Region.Resolution
import NextEdit.Proofs.Legacy.Fence
import NextEdit.Proofs.Legacy.Echo
import NextEdit.Proofs.Legacy.Rewrite
import NextEdit.Proofs.Legacy.Agreement
import NextEdit.Proofs.Console.Controls
import NextEdit.Proofs.CommandLine.Options
import NextEdit.Proofs.CommandLine.Host
import NextEdit.Proofs.CommandLine.Source
import NextEdit.Proofs.CommandLine.Render
import NextEdit.Proofs.Answer.Prefill
import NextEdit.Proofs.Budget.Newest
import NextEdit.Proofs.Settings.Environment
import NextEdit.Proofs.Settings.Session
import NextEdit.Proofs.CommandLine.Stops
import NextEdit.Proofs.CommandLine.Failure
import NextEdit.Proofs.Legacy.Extent
import NextEdit.Proofs.Legacy.Cursor
import NextEdit.Proofs.Legacy.Readings
import NextEdit.Proofs.Legacy.History
import NextEdit.Proofs.Answer.SafeCut
import NextEdit.Proofs.Budget.Tiling
import NextEdit.Proofs.Region.MarkerLines
import NextEdit.Proofs.CommandLine.Clean
import NextEdit.Proofs.Text.Offsets
import NextEdit.Proofs.Json.Grammar
import NextEdit.Proofs.CommandLine.Lossless
import NextEdit.Proofs.Budget.Excerpts
import NextEdit.Proofs.History.Paths
import NextEdit.Proofs.Text.Bytes
import NextEdit.Proofs.Legacy.Slices
