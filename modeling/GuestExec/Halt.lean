import GuestExec.Word.Hex

/-!
# Why a run ended

One call may end for several reasons at once, so a reason is a set of bits. Bits
without a name are kept.
-/

namespace GuestExec

/-- The set of reasons for which a run returned. -/
structure HaltReason where
  bits : UInt64
deriving DecidableEq, Repr, Inhabited

namespace HaltReason

/-- One instruction was stepped. -/
def stepThread : HaltReason := ⟨0x1⟩

/-- The thread was asked to stop, or yielded. -/
def breakLoop : HaltReason := ⟨0x4⟩

/-- The guest called its supervisor. -/
def supervisorCall : HaltReason := ⟨0x8⟩

/-- The guest reached a breakpoint instruction. -/
def instructionBreakpoint : HaltReason := ⟨0x10⟩

/-- A fetch failed and the guest has no exception vector. -/
def prefetchAbort : HaltReason := ⟨0x100000⟩

/-- A data access failed and the guest has no exception vector. -/
def dataAbort : HaltReason := ⟨0x40000000⟩

/-- The thread cannot go on. -/
def fatalError : HaltReason := ⟨0x80000000⟩

/-- The reasons that have a name, low bit first. -/
def named : List (HaltReason × String) :=
  [(stepThread, "STEP_THREAD"), (breakLoop, "BREAK_LOOP"), (supervisorCall, "SUPERVISOR_CALL"),
    (instructionBreakpoint, "INSTRUCTION_BREAKPOINT"), (prefetchAbort, "PREFETCH_ABORT"),
    (dataAbort, "DATA_ABORT"), (fatalError, "FATAL_ERROR")]

instance : OrOp HaltReason := ⟨fun a b => ⟨a.bits ||| b.bits⟩⟩

/-- Every reason of `b` is one of `a`. -/
def contains (a b : HaltReason) : Bool := a.bits &&& b.bits == b.bits

/-- Some reason of `b` is one of `a`. -/
def meets (a b : HaltReason) : Bool := a.bits &&& b.bits != 0

/-- All reasons that have a name. -/
def known : HaltReason := named.foldl (fun a (reason, _) => a ||| reason) ⟨0⟩

/-- The reasons of `a` that have a name. -/
def truncate (a : HaltReason) : HaltReason := ⟨a.bits &&& known.bits⟩

/-- The bits of `a` that have no name. -/
def unnamed (a : HaltReason) : UInt64 := a.bits &&& ~~~known.bits

def isFatal (a : HaltReason) : Bool := a.contains fatalError

/-- The guest took an exception that it does not handle. -/
def isAbort (a : HaltReason) : Bool := a.meets (dataAbort ||| prefetchAbort)

/-- The names of the reasons, and the bits that have none as one number, with bars between. -/
def text (a : HaltReason) : String :=
  let names := (named.filter fun (reason, _) => a.contains reason).map (·.2)
  let rest := if a.unnamed = 0 then [] else [hexText a.unnamed.toNat]
  "|".intercalate (names ++ rest)

end HaltReason

end GuestExec
