import StackPeek.Layout.Builtin
import StackPeek.Layout.Describe
import StackPeek.Layout.Validate
import StackPeek.Layout.Version
import StackPeek.Log
import StackPeek.Numeral
import StackPeek.Probe
import StackPeek.Text.Utf8
import StackPeek.LineTable.Locations
import StackPeek.LineTable.Lookup
import StackPeek.Member.Snapshot
import StackPeek.Member.Read
import StackPeek.Simulation.Scripted
import StackPeek.Stack.Code
import StackPeek.Stack.Frame
import StackPeek.Thread.Basic
import StackPeek.Stack.Walk
import StackPeek.Thread.List
import StackPeek.Sampling.Sampler
import StackPeek.Memory.Guarded
import StackPeek.Process.Image
import StackPeek.Process.Path
import StackPeek.Cli
import StackPeek.Main
import StackPeek.Proofs.Probe.Course
import StackPeek.Proofs.Probe.Still
import StackPeek.Proofs.Stack.Status
import StackPeek.Proofs.Stack.Chain
import StackPeek.Proofs.Sampling.Interleaving
import StackPeek.Proofs.Sampling.Finish
import StackPeek.Proofs.Probe.Ensures
import StackPeek.Proofs.Sampling.Parallel
import StackPeek.Proofs.Stack.Supported
import StackPeek.Proofs.Layout.Span
import StackPeek.Proofs.Image.Stored
import StackPeek.Proofs.Image.Objects
import StackPeek.Proofs.Image.Frames
import StackPeek.Proofs.Image.Threads
import StackPeek.Proofs.Image.Sample
import StackPeek.Proofs.Memory.Regions
import StackPeek.Proofs.Member.Range
import StackPeek.Proofs.Thread.Rounds
import StackPeek.Proofs.Thread.Walks
import StackPeek.Proofs.Probe.Latch
import StackPeek.Proofs.Sampling.Whole
import StackPeek.Proofs.Layout.Required
import StackPeek.Proofs.Text.Exacting
import StackPeek.Proofs.Thread.Supported
import StackPeek.Proofs.Sampling.Faultless
import StackPeek.Proofs.Text.Encoding
import StackPeek.Proofs.Text.Representation
import StackPeek.Proofs.Member.Agreement
import StackPeek.Proofs.Probe.Spends
import StackPeek.Proofs.Text.Cost
import StackPeek.Proofs.Sampling.Bounded
import StackPeek.Proofs.Sampling.Purse
import StackPeek.Proofs.Calls.Operations
import StackPeek.Proofs.Calls.Refusal
import StackPeek.Proofs.Text.WellFormed
import StackPeek.Proofs.LineTable.Ranges
import StackPeek.Proofs.Sampling.Interpreters
import StackPeek.Proofs.LineTable.Entries
import StackPeek.Proofs.LineTable.Written
import StackPeek.Proofs.LineTable.Serialized
import StackPeek.Proofs.LineTable.Prefixes
import StackPeek.Proofs.LineTable.Running
import StackPeek.Proofs.Text.Repair
import StackPeek.Proofs.Text.Spelling
import StackPeek.Proofs.Text.Truncation
import StackPeek.Proofs.Member.Accepted
import StackPeek.Proofs.Text.Sizes
import StackPeek.Proofs.Probe.Cancelled
import StackPeek.Proofs.Sampling.Cancelled
import StackPeek.Proofs.Probe.Replies
import StackPeek.Proofs.Thread.Handles
import StackPeek.Proofs.Stack.Position
import StackPeek.Proofs.LineTable.Produced
import StackPeek.Proofs.LineTable.Numbers
import StackPeek.Proofs.Layout.Select
import StackPeek.Proofs.Text.Appended
import StackPeek.Proofs.Numeral.Spelled
import StackPeek.Proofs.Process.Rendered
import StackPeek.Proofs.Process.Lines
import StackPeek.Proofs.Process.Addresses
import StackPeek.Proofs.Member.Bits
import StackPeek.Proofs.Memory.Stores
import StackPeek.Proofs.Member.Store
