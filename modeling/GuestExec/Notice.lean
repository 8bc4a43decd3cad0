import GuestExec.Error
import GuestExec.Fault.Basic
import GuestExec.Tlb.HitRate

/-!
# What cores report

Nothing is reported while the guest runs; a core reports after a run, from the
books that were kept.
-/

namespace GuestExec

inductive NoticeLevel where
  | error
  | warn
  | info
deriving DecidableEq, Repr

inductive Notice where
  /-- A fault ended the run for good. -/
  | fatalFault (core : Nat) (thread : UInt64) (record : FaultRecord)
  /-- The run ended for good without a fault. -/
  | fatalHalt (core : Nat) (thread : UInt64)
  | faultSummary (core : Nat) (faults : FaultStats) (tlb : Tlb.Stats)
  /-- A request was refused. -/
  | refused (core : Nat) (error : VmError)
  | interruptFailed (core : Nat) (thread : UInt64) (error : PlatformError)
  /-- The host thread could not be prepared. -/
  | setupFailed (error : PlatformError)
  | tooManyRuns
deriving DecidableEq, Repr

def FaultKind.label : FaultKind → String
  | .alignment => "Alignment"
  | .access => "Access"
  | .breakpoint => "Breakpoint"
  | .undefinedInstruction => "UndefinedInstruction"
  | .unknown => "Unknown"

def Access.label : Access → String
  | .read => "Read"
  | .write => "Write"
  | .execute => "Execute"

/-- A syndrome as reports show it: in hexadecimal without a mark, or absent. -/
def syndromeText : Option UInt64 → String
  | some word => s!"Some({hexDigits word.toNat})"
  | none => "None"

namespace Notice

def level : Notice → NoticeLevel
  | fatalFault .. | fatalHalt .. | setupFailed .. | tooManyRuns => .error
  | refused .. | interruptFailed .. => .warn
  | faultSummary .. => .info

def text : Notice → String
  | fatalFault core thread record =>
    s!"core {core}: thread {thread} fatal {record.kind.label} fault" ++
      s!" at pc={hexText record.pc.toNat} sp={hexText record.sp.toNat}" ++
      s!" addr={record.info.address} access={record.info.access.label}" ++
      s!" syndrome={syndromeText record.info.syndrome}"
  | fatalHalt core thread => s!"core {core}: thread {thread} halted fatally"
  | faultSummary core faults tlb =>
    s!"core {core}: faults recovered={faults.recovered}" ++
      s!" (alignment={faults.alignmentEmulated}, retried={faults.accessRetried}," ++
      s!" delivered={faults.exceptionsDelivered}), aborts={faults.abortsHalted}," ++
      s!" fatal={faults.fatal}, tlb hit rate {tlb.hitRateText}"
  | refused core error => s!"core {core}: {error.message}"
  | interruptFailed core thread error =>
    s!"core {core}: failed to interrupt thread {thread}: {error.message}"
  | setupFailed error => s!"native core thread setup failed: {error.message}"
  | tooManyRuns => "too many concurrently running native cores"

/-- The line in a log. -/
def line (n : Notice) : String :=
  let level := match n.level with
    | .error => "ERROR"
    | .warn => "WARN"
    | .info => "INFO"
  level ++ ": " ++ n.text

end Notice

end GuestExec
