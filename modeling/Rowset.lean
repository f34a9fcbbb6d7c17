import Rowset.Cursor.Buffered
import Rowset.Cursor.Streaming
import Rowset.Value.Printer
import Rowset.Proofs.Cursor.Agreement
import Rowset.Proofs.Descriptor.Grammar
import Rowset.Proofs.Descriptor.Recognition
import Rowset.Proofs.Descriptor.RoundTrip
import Rowset.Proofs.Cursor.Behaviour
import Rowset.Proofs.Cursor.Operations
import Rowset.Proofs.Cursor.Likeness
import Rowset.Proofs.Wire.Lines
import Rowset.Proofs.Cursor.Framing
import Rowset.Proofs.Cursor.Isolation
import Rowset.Proofs.Cursor.Provenance
import Rowset.Proofs.Value.Shape
import Rowset.Proofs.Cursor.Laws
import Rowset.Proofs.Cursor.Log
import Rowset.Proofs.Cursor.Lifecycle
import Rowset.Proofs.Cursor.Navigation
import Rowset.Proofs.Cursor.Ownership
import Rowset.Proofs.Cursor.Demand
import Rowset.Proofs.Wire.Front
import Rowset.Proofs.Cursor.Failure
import Rowset.Proofs.Cursor.Causality
import Rowset.Proofs.Cursor.Draining
import Rowset.Proofs.Cursor.Refusal
import Rowset.Proofs.Json.Extension
import Rowset.Proofs.Wire.Concatenation
import Rowset.Proofs.Calendar.Days
import Rowset.Proofs.Calendar.Layout
import Rowset.Proofs.Calendar.Offset
import Rowset.Proofs.Calendar.Reading
import Rowset.Proofs.Calendar.Seconds
import Rowset.Proofs.Calendar.Rendering
import Rowset.Proofs.Decimal.Measure
import Rowset.Proofs.Json.Literal
import Rowset.Proofs.Json.Number
import Rowset.Proofs.Decimal.Spelling
import Rowset.Proofs.Decimal.Grammar
import Rowset.Proofs.Decimal.Number
import Rowset.Proofs.Decimal.Parts
import Rowset.Proofs.Decimal.Precision
import Rowset.Proofs.Value.Quoting
import Rowset.Proofs.Value.RoundTrip
import Rowset.Proofs.Fields
import Rowset.Proofs.Decimal.Normal
import Rowset.Proofs.Decimal.Exponent
import Rowset.Proofs.Value.Equality
import Rowset.Proofs.Value.Fault
import Rowset.Proofs.Value.Likeness
import Rowset.Descriptor.Scan
import Rowset.Proofs.Schema
import Rowset.Proofs.Cursor.Consistency
import Rowset.Proofs.Text.Position
import Rowset.Proofs.Descriptor.Scan
import Rowset.Proofs.Json.Description
