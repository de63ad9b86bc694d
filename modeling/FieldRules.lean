import FieldRules.Text.Blank
import FieldRules.Text.Digits
import FieldRules.Text.Quoted
import FieldRules.Text.Outline
import FieldRules.Number.Integer
import FieldRules.Number.Decimal
import FieldRules.Number.Decimal.Reader
import FieldRules.Number.Binary64.Reader
import FieldRules.Number.Binary64.Scaled
import FieldRules.Number.Binary64.Layout
import FieldRules.Calendar.DateTime
import FieldRules.Calendar.Scan
import FieldRules.Calendar.Instant
import FieldRules.Json
import FieldRules.Json.Reader
import FieldRules.Json.Writer
import FieldRules.Schema.Value
import FieldRules.Schema
import FieldRules.Schema.Operand
import FieldRules.Condition
import FieldRules.Condition.Position
import FieldRules.Condition.Document
import FieldRules.Condition.Encoding
import FieldRules.Digest.Blake3
import FieldRules.Digest
import FieldRules.Predicate.Expr
import FieldRules.Predicate.Fault
import FieldRules.Predicate.Noted
import FieldRules.Predicate.Compilation
import FieldRules.Predicate
import FieldRules.Compiler.Options
import FieldRules.Compiler.Document
import FieldRules.Compiler.Records
import FieldRules.Compiler.Cache
import FieldRules.Compiler.Log
import FieldRules.Compiler
import FieldRules.Compiler.Session
import FieldRules.Proofs.Content
import FieldRules.Proofs.Encoding
import FieldRules.Proofs.Comparison
import FieldRules.Proofs.Compilation
import FieldRules.Proofs.Operands
import FieldRules.Proofs.Meaning
import FieldRules.Proofs.Typing
import FieldRules.Proofs.Calls
import FieldRules.Proofs.Transparency
import FieldRules.Proofs.Positions
import FieldRules.Proofs.Faults
import FieldRules.Proofs.Acceptance
import FieldRules.Proofs.History
import FieldRules.Proofs.Lifetimes
import FieldRules.Proofs.FirstStored
import FieldRules.Proofs.Traces
import FieldRules.Proofs.Counters
import FieldRules.Proofs.Sharing
import FieldRules.Proofs.Omission
import FieldRules.Proofs.Indifference
import FieldRules.Proofs.Reads
import FieldRules.Proofs.Visits
import FieldRules.Proofs.Logs
import FieldRules.Proofs.Documents
import FieldRules.Proofs.Numerals
import FieldRules.Proofs.DateTexts
import FieldRules.Proofs.Readability
import FieldRules.Proofs.Grammar
import FieldRules.Proofs.PartsRead
import FieldRules.Proofs.WrittenTimes
import FieldRules.Proofs.IntegerTexts
import FieldRules.Proofs.ScalarTexts
import FieldRules.Proofs.DayNumbers
import FieldRules.Proofs.Instants
import FieldRules.Proofs.Leavings
import FieldRules.Proofs.DateForms
import FieldRules.Proofs.Ranks
import FieldRules.Proofs.ValueOrder
import FieldRules.Proofs.Registration
import FieldRules.Proofs.Counts
import FieldRules.Proofs.Reordering
import FieldRules.Proofs.Tightening
import FieldRules.Proofs.Effort
