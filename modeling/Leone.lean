import Leone.Framework.SortedMap
import Leone.Framework.Method
import Leone.Framework.Machine
import Leone.Framework.Cumulative
import Leone.Framework.Slice
import Leone.Scheduler.Types
import Leone.Scheduler.Model
import Leone.Scheduler.Invariant
import Leone.Scheduler.Batch
import Leone.Scheduler.Coherence
import Leone.Scheduler.Order
import Leone.Scheduler.Accounting
import Leone.Scheduler.Moves
import Leone.Scheduler.Fairness
import Leone.Scheduler.Progress
import Leone.Scheduler.Counts
import Leone.Scheduler.Admission
import Leone.Service.Model
import Leone.Service.Steps
import Leone.Service.Lockstep
import Leone.Service.Ticks
import Leone.Runtime.Executor
import Leone.Runtime.Transcript
import Leone.Runtime.Agreement
import Leone.Gguf.Types
import Leone.Gguf.Reader
import Leone.Gguf.Parser
import Leone.Gguf.Yields
import Leone.Gguf.Ranges
import Leone.Gguf.SoundTable
import Leone.Gguf.Decodes
import Leone.Gguf.Document
import Leone.Gguf.Fields
import Leone.Gguf.Accepts
import Leone.Text.Tokenizer
import Leone.Text.Merge
import Leone.Text.Greedy
import Leone.Text.RoundTrip
import Leone.Text.Plain
import Leone.Framework.Regex
import Leone.Text.Pattern
import Leone.Framework.Json
import Leone.Text.Constraint
import Leone.Text.JsonObject
import Leone.Sampling.Model
import Leone.Sampling.Verify
import Leone.Sampling.Exact
import Leone.Framework.Ranking
import Leone.Sampling.Truncation
import Leone.Sampling.Order
import Leone.Sampling.Stages
import Leone.Sampling.Pipeline
import Leone.Sampling.Passes
import Leone.Sampling.Distribution
import Leone.Quant.Repack
import Leone.Quant.Records
import Leone.Quant.Layout
import Leone.Quant.Lossless
import Leone.Kv.Types
import Leone.Kv.State
import Leone.Kv.Rollback
import Leone.Kv.Table
import Leone.Kv.Stage
import Leone.Kv.View
import Leone.Kv.Copy
import Leone.Kv.Reachable
import Leone.Kv.Family
import Leone.Kv.Isolation
import Leone.Kv.Refinement
import Leone.Session.Model
import Leone.Session.Prefill
import Leone.Session.Segment
import Leone.Session.Advance
import Leone.Session.Plan
import Leone.Session.Run
import Leone.Session.Transparent
import Leone.Session.Boundary
import Leone.Drafting.Controller
import Leone.Drafting.Generation
import Leone.Drafting.Receipt
import Leone.Drafting.Counts
import Leone.Drafting.Agreement
import Leone.Drafting.Validity
import Leone.Framework.Utf8
import Leone.Chat.Stop
import Leone.Chat.Matching
import Leone.Chat.Chunks
import Leone.Chat.Task
import Leone.Chat.Runs
import Leone.Chat.Modes
import Leone.Framework.Tally
import Leone.Memory.Model
import Leone.Memory.Steps
import Leone.Memory.Exact
import Leone.Memory.Gauges
import Leone.Memory.Invariant
import Leone.Memory.Ledger
import Leone.Framework.Markers
import Leone.Template.Json
import Leone.Template.Model
import Leone.Template.Related
import Leone.Template.Document
import Leone.Template.Turns
import Leone.Template.Forgery
import Leone.State.Allocator
import Leone.State.Ledger
import Leone.Drafting.Suffix
import Leone.Sampling.Dry
import Leone.Sampling.Device
import Leone.Drafting.Correctable
import Leone.Drafting.Followers
import Leone.Drafting.Proposals
import Leone.Drafting.Measured
import Leone.Drafting.Decisions
import Leone.Drafting.Rounds
import Leone.Scheduler.Numbered
import Leone.Scheduler.Selection
import Leone.Transport.Address
import Leone.Transport.Limits
import Leone.Transport.Request
import Leone.Transport.Segments
import Leone.Transport.Identity
import Leone.Framework.Stepping
import Leone.Session.Evaluate
import Leone.Session.Windows
import Leone.Template.Layout
import Leone.Template.Spacing
import Leone.Template.Formats
import Leone.Template.Walk
import Leone.Template.Reader
import Leone.Template.Reference
import Leone.Template.Preserve
import Leone.Template.Generated
import Leone.Template.Tags
import Leone.Template.Calls
import Leone.Template.Returns
import Leone.Cpu.Buffer
import Leone.Cpu.Append
import Leone.Cpu.Rows
import Leone.Cpu.Runs
import Leone.Cpu.Frame
import Leone.Cpu.Straddle
import Leone.Cpu.Attention
import Leone.Cpu.Fill
import Leone.Progressive.Codes
import Leone.Progressive.Lossless
import Leone.Receipt.Hex
import Leone.Receipt.Response
import Leone.Framework.Largest
import Leone.Store.Archives
import Leone.Policy.Model
import Leone.Policy.Limits
import Leone.Policy.Resolved
import Leone.Policy.Service
import Leone.Metrics.Model
import Leone.Metrics.Record
import Leone.Metrics.History
import Leone.Metrics.Timeline
import Leone.Metrics.Checks
import Leone.Metrics.Steps
import Leone.Metrics.Conservation
import Leone.Framework.Loop
import Leone.Trace.Model
import Leone.Trace.Replay
import Leone.Trace.Events
import Leone.Trace.Ledger
import Leone.Trace.Verdict
import Leone.Trace.Follows
import Leone.Trace.Sources
import Leone.Trace.Execution
import Leone.Trace.Quanta
import Leone.Trace.Turns
import Leone.Trace.Runs
import Leone.Cpu.Segments
import Leone.Cpu.Contiguous
import Leone.Framework.Http
import Leone.Transport.Output
import Leone.Transport.Moves
import Leone.Transport.Spelling
import Leone.Transport.Claims
import Leone.Transport.Taken
import Leone.Transport.Wire
import Leone.Transport.Delivery
import Leone.Transport.Pending
import Leone.Transport.Ending
import Leone.Framework.Sharing
import Leone.Registry.Files
import Leone.Registry.Programs
import Leone.Registry.Leases
