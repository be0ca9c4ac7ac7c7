import DataLayout.Arithmetic
import DataLayout.Orderings
import DataLayout.Placement
import DataLayout.Text.LineEnds
import DataLayout.Text.Numeral
import DataLayout.Text.LowerCase
import DataLayout.Text.Quoted
import DataLayout.Text.Cells
import DataLayout.Action
import DataLayout.Datum
import DataLayout.Definition
import DataLayout.Failure
import DataLayout.Journal
import DataLayout.Packing
import DataLayout.Compound
import DataLayout.Footprint
import DataLayout.Report
import DataLayout.Engine
import DataLayout.Ledger
import DataLayout.Workshop
import DataLayout.Command
import DataLayout.Console.Markup
import DataLayout.Console.Display
import DataLayout.CommandLine.Invocation
import DataLayout.CommandLine.Outcome
import DataLayout.Checks.Arguments
import DataLayout.Checks.Plan
import DataLayout.Main
import DataLayout.Proofs.Registration
import DataLayout.Proofs.Orderings
import DataLayout.Proofs.Footprint
import DataLayout.Proofs.Search
import DataLayout.Proofs.Workshop
import DataLayout.Proofs.Memory
import DataLayout.Proofs.Totality
import DataLayout.Proofs.Unions
import DataLayout.Proofs.Renaming
import DataLayout.Proofs.Padding
import DataLayout.Proofs.Validation
import DataLayout.Proofs.Writing
import DataLayout.Proofs.Session
import DataLayout.Proofs.LongNumbers
import DataLayout.Proofs.Atomicity
import DataLayout.Proofs.Prediction
import DataLayout.Proofs.Blank
import DataLayout.Proofs.Wrap
import DataLayout.Proofs.LongLines
import DataLayout.Proofs.Rows
import DataLayout.Proofs.Printed
import DataLayout.Proofs.Script
import DataLayout.Proofs.Dialogue
import DataLayout.Proofs.Jobs
import DataLayout.Proofs.Optimum
import DataLayout.Proofs.MemberLists
import DataLayout.Proofs.Advice
import DataLayout.Proofs.Findings
import DataLayout.Proofs.SearchLog
import DataLayout.Proofs.LogLines
import DataLayout.Proofs.AuditTrail
import DataLayout.Proofs.Grammar
import DataLayout.Proofs.Placement
import DataLayout.Proofs.Precedence
import DataLayout.Proofs.Numeral
import DataLayout.Proofs.LowerCase
import DataLayout.Proofs.Leaves
import DataLayout.Proofs.Unfoldings
import DataLayout.Proofs.Counts
import DataLayout.Proofs.Backtracking
import DataLayout.Proofs.Divisors
import DataLayout.Proofs.Verbs
import DataLayout.Proofs.PlainText
import DataLayout.Proofs.Codes
import DataLayout.Proofs.Title
import DataLayout.Proofs.Options
