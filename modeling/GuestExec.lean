import GuestExec.Bench
import GuestExec.Config.File
import GuestExec.Native.Signals
import GuestExec.Thread.Shared
import GuestExec.Proofs.Memory.Guards
import GuestExec.Proofs.Tlb.Slots
import GuestExec.Proofs.Tlb.Coherence
import GuestExec.Proofs.Mmu.Sound
import GuestExec.Proofs.Fault.Sound
import GuestExec.Proofs.Trace.Attempt
import GuestExec.Proofs.Trace.Sound
import GuestExec.Proofs.Native.Sound
import GuestExec.Proofs.Machine.Coherence
import GuestExec.Proofs.Mmu.Pieces
import GuestExec.Proofs.Fault.Alignment
import GuestExec.Proofs.Trace.Retry
import GuestExec.Proofs.Machine.States
import GuestExec.Proofs.Machine.Accesses
import GuestExec.Proofs.Trace.Alike
import GuestExec.Proofs.Trace.Stepping
import GuestExec.Proofs.Machine.Stepping
import GuestExec.Proofs.Tlb.Calls
import GuestExec.Proofs.Tlb.Consistent
import GuestExec.Proofs.Tlb.Latest
import GuestExec.Proofs.Thread.Coherence
import GuestExec.Proofs.Memory.Contents
import GuestExec.Proofs.Mmu.Contents
import GuestExec.Proofs.Fault.Contents
import GuestExec.Proofs.Trace.Course
import GuestExec.Proofs.Trace.Contents
import GuestExec.Proofs.Machine.Contents
import GuestExec.Proofs.Trace.Decode
import GuestExec.Proofs.Machine.Decode
import GuestExec.Proofs.Machine.Straight
import GuestExec.Proofs.Memory.Open
import GuestExec.Proofs.Mmu.Plain
import GuestExec.Proofs.Fault.Plain
import GuestExec.Proofs.Trace.Plain
import GuestExec.Proofs.Trace.Effects
import GuestExec.Proofs.Machine.Contexts
import GuestExec.Proofs.Machine.Coreless
import GuestExec.Proofs.Machine.Alignment
import GuestExec.Proofs.Machine.Requests
import GuestExec.Proofs.Machine.Migration
import GuestExec.Proofs.Memory.Calls
import GuestExec.Proofs.Memory.Faithful
import GuestExec.Proofs.Memory.Wrapping
import GuestExec.Proofs.Native.Code
import GuestExec.Proofs.Native.Armed
import GuestExec.Proofs.Native.Holders
import GuestExec.Proofs.Native.Overlay
import GuestExec.Proofs.Native.Shared
import GuestExec.Proofs.Memory.Stored
import GuestExec.Proofs.Machine.Stores
import GuestExec.Proofs.Thread.Lock
import GuestExec.Proofs.Machine.Rest
import GuestExec.Proofs.Native.Frames
import GuestExec.Proofs.Native.Handlers
import GuestExec.Proofs.Native.Reentry
import GuestExec.Proofs.Machine.Reentry
import GuestExec.Proofs.Fault.Eased
import GuestExec.Proofs.Native.Scripted
import GuestExec.Proofs.Native.Table
import GuestExec.Proofs.Native.Undo
import GuestExec.Proofs.Native.Traceless
import GuestExec.Proofs.Trace.Eased
import GuestExec.Proofs.Machine.Unmarked
import GuestExec.Proofs.Machine.Traceless
import GuestExec.Proofs.Memory.Accesses
import GuestExec.Proofs.Trace.Fetch
import GuestExec.Proofs.Native.A64
import GuestExec.Proofs.Native.Targets
import GuestExec.Proofs.Native.Concealed
import GuestExec.Proofs.Mmu.Agreement
import GuestExec.Proofs.Fault.Registers
import GuestExec.Proofs.Fault.Decided
import GuestExec.Proofs.Fault.Performed
import GuestExec.Proofs.Memory.Parts
import GuestExec.Proofs.Memory.Protection
import GuestExec.Proofs.Mmu.Direct
import GuestExec.Proofs.Fault.Counts
import GuestExec.Proofs.Machine.Direct
import GuestExec.Proofs.Machine.Books
import GuestExec.Proofs.Machine.Hearing
import GuestExec.Proofs.Machine.Enrolled
import GuestExec.Proofs.Machine.Announced
import GuestExec.Proofs.Tlb.Places
import GuestExec.Proofs.Tlb.Victim
import GuestExec.Proofs.Tlb.Insertion
import GuestExec.Proofs.Tlb.Invalidation
import GuestExec.Proofs.Core.Drained
import GuestExec.Proofs.Thread.Counted
import GuestExec.Proofs.Thread.Interleaved
import GuestExec.Proofs.Thread.Contended
import GuestExec.Proofs.Native.Encoding
import GuestExec.Proofs.Native.TrapWords
import GuestExec.Proofs.Native.Chain
import GuestExec.Proofs.Native.FrameWrites
import GuestExec.Proofs.Tlb.Eviction
import GuestExec.Proofs.Tlb.Accounts
import GuestExec.Proofs.Config.RoundTrip
