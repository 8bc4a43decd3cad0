import GuestExec.Native.Session

/-!
# What the handlers do

Each handler of a session ends in one of a few ways: `TrapEnds`, `FaultEnds`,
`EnterEnds` and `InterruptEnds` list them, the last three also for a session that
the signal is not meant for. What a session keeps is proved by these
cases, and the handlers need not be opened again.
-/

namespace GuestExec.Native

namespace Session

/-! ## Faults -/

/-- How a trap instruction ends. -/
inductive TrapEnds (s : Session) (mode : RunMode) : Landing × Session → Prop where
  | stepHit (hit : s.patch.any (·.hits s.regs.pc) = true) :
    TrapEnds s mode (.host .stepThread, s)
  /-- No trap instruction is there. -/
  | unknown (info : FaultInfo) : TrapEnds s mode (s.dispatch mode .unknown info)
  /-- Another run's breakpoint is there. -/
  | other (site : s.sites.contains ⟨s.regs.pc⟩ = true) : TrapEnds s mode (.guest, s)
  | supervisorCall (svc : UInt32) :
    TrapEnds s mode
      (.host (if mode.step then .supervisorCall ||| .stepThread else .supervisorCall),
        s.setRegs { s.regs with svc, pc := s.regs.pc + 4 })
  | breakpoint (esr : UInt64) :
    TrapEnds s mode (.host .instructionBreakpoint, s.setRegs { s.regs with esr })

theorem trapEnds_onTrap (s : Session) (mode : RunMode) : TrapEnds s mode (s.onTrap mode) := by
  unfold onTrap
  dsimp only
  split
  · rename_i hit
    exact .stepHit hit
  · split
    · exact .unknown _
    · split
      · rename_i other
        rw [Bool.and_eq_true] at other
        exact .other other.2
      · split
        · exact .supervisorCall _
        · exact .breakpoint _

/-- The fault is looked at; where that leads is still to come. -/
def treat (s : Session) (mode : RunMode) (signal : HostSignal) (code : Int) (v : FrameView) :
    Landing × Session :=
  if signal = .trap then (s.save v).onTrap mode
  else
    (s.save v).dispatch mode ((s.save v).classify signal code v).1
      ((s.save v).classify signal code v).2

/-- How a fault ends: back in the guest or on the host, if it is the guest's. -/
inductive FaultEnds (s : Session) (mode : RunMode) (signal : HostSignal) (code : Int)
    (v : FrameView) : Landing × FrameView × Session → Prop where
  | outside (out : s.inGuest = false) : FaultEnds s mode signal code v (.guest, v, s)
  | guest {s₁ : Session} (inside : s.inGuest = true)
    (treated : s.treat mode signal code v = (.guest, s₁)) :
    FaultEnds s mode signal code v
      (.guest, v.loadFrom s₁.regs, { s₁ with threadPointer := s₁.regs.tpidr })
  | host {s₁ : Session} {reason : HaltReason} (inside : s.inGuest = true)
    (treated : s.treat mode signal code v = (.host reason, s₁)) :
    FaultEnds s mode signal code v
      (.host reason, s₁.toHost v, { s₁.disarm with inGuest := false })

theorem faultEnds_onFault (s : Session) (mode : RunMode) (signal : HostSignal) (code : Int)
    (v : FrameView) : FaultEnds s mode signal code v (s.onFault mode signal code v) := by
  have treated : s.treat mode signal code v = if signal = .trap then (s.save v).onTrap mode
    else (s.save v).dispatch mode ((s.save v).classify signal code v).1
      ((s.save v).classify signal code v).2 := rfl
  cases inside : s.inGuest with
  | false =>
    rw [onFault, if_neg (by rw [inside]; decide)]
    exact .outside inside
  | true =>
    unfold onFault
    rw [if_pos inside]
    dsimp only
    rw [← treated]
    rcases ends : s.treat mode signal code v with ⟨_ | reason, s₁⟩
    · exact .guest inside ends
    · exact .host inside ends

/-! ## Entering and stopping -/

/-- The session without the request to stop. -/
def takeStop (s : Session) : Session := { s with activation := s.activation.takeInterrupt.2 }

/-- The guest is in the processor. -/
def started (s : Session) : Session :=
  { s with
    threadPointer := s.regs.tpidr, inGuest := true
    activation := { s.activation with state := .running } }

/-- How the enter signal ends. -/
inductive EnterEnds (s : Session) (step : Bool) (v : FrameView) :
    Landing × FrameView × Session → Prop where
  | inside (there : s.inGuest = true) : EnterEnds s step v (.guest, v, s)
  | interrupted (outside : s.inGuest = false) :
    EnterEnds s step v
      (.host .breakLoop, s.toHost v, { s.takeStop.disarm with inGuest := false })
  | selfLoop {sites : SiteTable} {m : MemoryMap} (outside : s.inGuest = false)
    (armed : StepPatch.arm s.sites s.memory s.regs = (.selfLoop, sites, m)) :
    EnterEnds s step v (.host .stepThread, s.toHost v,
      { ({ s.takeStop.setMemory m with sites } : Session).disarm with inGuest := false })
  | armed {patch : StepPatch} {sites : SiteTable} {m : MemoryMap} (outside : s.inGuest = false)
    (armed : StepPatch.arm s.sites s.memory s.regs = (.patched patch, sites, m)) :
    EnterEnds s step v (.guest, v.loadFrom s.regs,
      ({ s.takeStop.setMemory m with sites, patch := some patch } : Session).started)
  | plain (outside : s.inGuest = false) :
    EnterEnds s step v (.guest, v.loadFrom s.regs, s.takeStop.started)

theorem enterEnds_onEnter (s : Session) (step : Bool) (v : FrameView) :
    EnterEnds s step v (s.onEnter step v) := by
  cases inside : s.inGuest with
  | true =>
    rw [onEnter, if_pos inside]
    exact .inside inside
  | false =>
    unfold onEnter
    rw [if_neg (by rw [inside]; decide)]
    dsimp only
    split
    · exact .interrupted inside
    · split
      · have armed : StepPatch.arm s.sites s.memory s.regs =
            StepPatch.arm s.takeStop.sites s.takeStop.memory s.takeStop.regs := rfl
        split
        · rename_i ends
          exact .selfLoop inside (armed.trans ends)
        · rename_i ends
          exact .armed inside (armed.trans ends)
      · exact .plain inside

/-- How the signal to stop ends. -/
inductive InterruptEnds (s : Session) (v : FrameView) : Landing × FrameView × Session → Prop where
  | outside (out : s.inGuest = false) : InterruptEnds s v (.guest, v, s)
  | stopped (inside : s.inGuest = true) : InterruptEnds s v
      (.host .breakLoop, s.toHost v, { (s.takeStop.save v).disarm with inGuest := false })
  | unasked (inside : s.inGuest = true) (free : s.activation.takeInterrupt.1 = false) :
    InterruptEnds s v (.guest, v, s.takeStop)

theorem interruptEnds_onInterrupt (s : Session) (v : FrameView) :
    InterruptEnds s v (s.onInterrupt v) := by
  cases inside : s.inGuest with
  | false =>
    rw [onInterrupt, if_neg (by rw [inside]; decide)]
    exact .outside inside
  | true =>
    unfold onInterrupt
    rw [if_pos inside]
    dsimp only
    split
    · exact .stopped inside
    · rename_i free
      exact .unasked inside (Bool.eq_false_iff.2 free)

/-! ## Frames -/

/-- What a handler makes of the frame: nothing, the guest loaded into it, or the way to the host. -/
inductive FrameEnds (v : FrameView) : Landing → FrameView → Prop where
  | same : FrameEnds v .guest v
  | loaded (regs : Registers) : FrameEnds v .guest (v.loadFrom regs)
  | toHost (reason : HaltReason) (pc x0 : UInt64) :
    FrameEnds v (.host reason) ((v.setPc pc).setReg 0 x0)

theorem frameEnds_deliver (s : Session) (mode : RunMode) (signal : HostSignal) (code : Int)
    (v : FrameView) :
    FrameEnds v (s.deliver mode signal code v).1 (s.deliver mode signal code v).2.1 := by
  have faulted (ends : s.FaultEnds mode signal code v (s.onFault mode signal code v)) :
      FrameEnds v (s.onFault mode signal code v).1 (s.onFault mode signal code v).2.1 := by
    generalize s.onFault mode signal code v = landed at ends
    cases ends with
    | outside => exact .same
    | guest => exact .loaded _
    | @host s₁ reason => exact .toHost reason s₁.returnAddress s₁.address
  cases signal with
  | enter =>
    have ends := s.enterEnds_onEnter mode.step v
    show FrameEnds v (s.onEnter mode.step v).1 (s.onEnter mode.step v).2.1
    generalize s.onEnter mode.step v = landed at ends
    cases ends with
    | inside => exact .same
    | armed | plain => exact .loaded _
    | interrupted | selfLoop => exact .toHost _ s.returnAddress s.address
  | interrupt =>
    have ends := s.interruptEnds_onInterrupt v
    show FrameEnds v (s.onInterrupt v).1 (s.onInterrupt v).2.1
    generalize s.onInterrupt v = landed at ends
    cases ends with
    | stopped => exact .toHost _ s.returnAddress s.address
    | outside | unasked => exact .same
  | _ => exact faulted (s.faultEnds_onFault mode _ code v)

end Session

end GuestExec.Native
