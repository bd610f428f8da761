import Scriptlet.Main
import Scriptlet.Proofs.Speculation.Equivalence
import Scriptlet.Proofs.Environment.Equivalence
import Scriptlet.Proofs.Typing.Sound
import Scriptlet.Proofs.Typing.Resolution
import Scriptlet.Program.Bare
import Scriptlet.Proofs.Grammar.Derivation
import Scriptlet.Proofs.Grammar.Acceptance
import Scriptlet.Proofs.Grammar.Productions
import Scriptlet.Proofs.Descent.Forward
import Scriptlet.Proofs.Grammar.Tracking
import Scriptlet.Proofs.Grammar.Completeness
import Scriptlet.Proofs.Grammar.Equivalence
import Scriptlet.Proofs.Lexical.Segment
import Scriptlet.Proofs.Lexical.Munch
import Scriptlet.Proofs.Lexical.Reading
import Scriptlet.Proofs.Lexical.Scanning
import Scriptlet.Proofs.Lexical.Equivalence
import Scriptlet.Proofs.Mirror.Basic
import Scriptlet.Proofs.Mirror.Check
import Scriptlet.Proofs.Double.Interval
import Scriptlet.Proofs.Double.Rounding
import Scriptlet.Proofs.Double.Shortest
import Scriptlet.Program.Plain
import Scriptlet.Proofs.Double.Notation
import Scriptlet.Proofs.Mirror.Raise
import Scriptlet.Proofs.Mirror.Inverse
import Scriptlet.Proofs.Readable.Reader
import Scriptlet.Proofs.Readable.Parsed
import Scriptlet.Proofs.Readable.Source
import Scriptlet.Proofs.Mirror.Faithful
import Scriptlet.Proofs.Walk.Basic
import Scriptlet.Proofs.Walk.Nesting
import Scriptlet.Proofs.Walk.Tree
import Scriptlet.Proofs.Mirror.Functions
import Scriptlet.Proofs.Grammar.Writing
import Scriptlet.Ir.Bare
import Scriptlet.Proofs.Layout.Alike
import Scriptlet.Proofs.Layout.Lowering
import Scriptlet.Proofs.Layout.Check
import Scriptlet.Proofs.Layout.Compile
import Scriptlet.Proofs.Typing.Void
import Scriptlet.Proofs.Environment.Meets
import Scriptlet.Proofs.Diagnosis.Heads
import Scriptlet.Proofs.Diagnosis.Explained
import Scriptlet.Proofs.Diagnosis.Names
import Scriptlet.Proofs.Diagnosis.Source
import Scriptlet.Proofs.Calls.Basic
import Scriptlet.Proofs.Calls.Known
import Scriptlet.Proofs.Calls.Order
import Scriptlet.Proofs.Lexical.Lines
import Scriptlet.Proofs.Lexical.Malformed
import Scriptlet.Proofs.Lexical.Printing
import Scriptlet.Proofs.Lexical.Joined
import Scriptlet.Proofs.Spans.Basic
import Scriptlet.Proofs.Spans.Reader
import Scriptlet.Proofs.Spans.Parsed
import Scriptlet.Proofs.Spans.Check
import Scriptlet.Proofs.Spans.Source
import Scriptlet.Proofs.Spans.Nodes
import Scriptlet.Proofs.Calls.Count
import Scriptlet.Proofs.Concatenation.Carries
import Scriptlet.Proofs.Concatenation.Programs
import Scriptlet.Proofs.Frame.Steps
import Scriptlet.Proofs.Frame.Confined
import Scriptlet.Proofs.Frame.Points
import Scriptlet.Proofs.Frame.Append
import Scriptlet.Proofs.Thrift.Uses
import Scriptlet.Proofs.Thrift.Saving
import Scriptlet.Proofs.Thrift.Productions
import Scriptlet.Proofs.Lines.Located
import Scriptlet.Proofs.Lines.Scanned
import Scriptlet.Proofs.Renaming.Basic
import Scriptlet.Proofs.Renaming.Lowering
import Scriptlet.Proofs.Renaming.Check
import Scriptlet.Proofs.Numerals.Gap
import Scriptlet.Proofs.Numerals.Uniform
import Scriptlet.Proofs.Numerals.Written
import Scriptlet.Proofs.Numerals.Exact
import Scriptlet.Proofs.Scopes.Check
import Scriptlet.Proofs.Lines.Places
import Scriptlet.Proofs.Checkpoints.Productions
import Scriptlet.Proofs.Dump.Programs
import Scriptlet.Proofs.Lexical.Turns
import Scriptlet.Proofs.Ending.Productions
