import GuestExec.Proofs.Core.Enter
import GuestExec.Proofs.Fault.Sound
import GuestExec.Proofs.Native.Code
import GuestExec.Proofs.Native.Course

/-!
# Native runs and the access unit

Breakpoints change code words, handlers change guards and the TLB. Each action
of the host and each handler keeps the access unit sound, so every state of a
session does that its script can reach.
-/

namespace GuestExec

open MemoryMap (SameFrames)

namespace Native

/-! ## Handlers -/

namespace Session

variable {s : Session}

/-- The access unit that the session works with. -/
def mmu (s : Session) : Mmu := s.activation.cpu.mmu

theorem follows_setMemory (sound : s.mmu.Sound) {m : MemoryMap} (same : SameFrames s.memory m) :
    s.mmu.Follows (s.setMemory m).mmu :=
  sound.setMemory same

/-- Arming a step moves no region. -/
theorem follows_arm (sound : s.mmu.Sound) {regs : Registers} {armed : Native.Armed}
    {sites : SiteTable} {m : MemoryMap}
    (placed : StepPatch.arm s.sites s.memory regs = (armed, sites, m)) :
    s.mmu.Follows (s.setMemory m).mmu := by
  have same : SameFrames s.memory (StepPatch.arm s.sites s.memory regs).2.2 :=
    sameFrames_arm sound.memory s.sites regs
  rw [placed] at same
  exact follows_setMemory sound same

theorem follows_disarm (sound : s.mmu.Sound) : s.mmu.Follows s.disarm.mmu := by
  unfold disarm
  split
  · exact sound.follows
  · rename_i patch _
    exact follows_setMemory sound (sameFrames_disarm sound.memory patch s.sites)

theorem follows_onEnter (sound : s.mmu.Sound) (step : Bool) (v : FrameView) :
    s.mmu.Follows (s.onEnter step v).2.2.mmu := by
  have ends := s.enterEnds_onEnter step v
  generalize s.onEnter step v = landed at ends
  cases ends with
  | inside => exact sound.follows
  | interrupted => exact follows_disarm (s := s.takeStop) sound
  | @selfLoop sites m _ armed =>
    have set := follows_arm sound armed
    exact set.trans (follows_disarm (s := { s.takeStop.setMemory m with sites }) set.sound)
  | armed _ armed => exact follows_arm sound armed
  | plain => exact sound.follows

theorem follows_dispatch (sound : s.mmu.Sound) (mode : RunMode) (kind : FaultKind)
    (info : FaultInfo) : s.mmu.Follows (s.dispatch mode kind info).2.mmu :=
  Vcpu.follows_handle sound kind info

theorem follows_onTrap (sound : s.mmu.Sound) (mode : RunMode) :
    s.mmu.Follows (s.onTrap mode).2.mmu := by
  have ends := s.trapEnds_onTrap mode
  generalize s.onTrap mode = landed at ends
  cases ends with
  | unknown info => exact follows_dispatch sound mode .unknown info
  | _ => exact sound.follows

theorem follows_treat (sound : s.mmu.Sound) (mode : RunMode) (signal : HostSignal) (code : Int)
    (v : FrameView) : s.mmu.Follows (s.treat mode signal code v).2.mmu := by
  unfold treat
  split
  · exact follows_onTrap (s := s.save v) sound mode
  · exact follows_dispatch (s := s.save v) sound mode _ _

theorem follows_onFault (sound : s.mmu.Sound) (mode : RunMode) (signal : HostSignal) (code : Int)
    (v : FrameView) : s.mmu.Follows (s.onFault mode signal code v).2.2.mmu := by
  have handled := follows_treat sound mode signal code v
  have ends := s.faultEnds_onFault mode signal code v
  generalize s.onFault mode signal code v = landed at ends
  cases ends with
  | outside => exact sound.follows
  | guest inside treated =>
    rw [treated] at handled
    exact handled
  | host inside treated =>
    rw [treated] at handled
    exact handled.trans (follows_disarm handled.sound)

theorem follows_onInterrupt (sound : s.mmu.Sound) (v : FrameView) :
    s.mmu.Follows (s.onInterrupt v).2.2.mmu := by
  have ends := s.interruptEnds_onInterrupt v
  generalize s.onInterrupt v = landed at ends
  cases ends with
  | outside => exact sound.follows
  | stopped => exact follows_disarm (s := s.takeStop.save v) sound
  | unasked => exact sound.follows

theorem follows_deliver (sound : s.mmu.Sound) (mode : RunMode) (signal : HostSignal) (code : Int)
    (v : FrameView) : s.mmu.Follows (s.deliver mode signal code v).2.2.mmu := by
  cases signal with
  | enter => exact follows_onEnter sound mode.step v
  | interrupt => exact follows_onInterrupt sound v
  | _ => exact follows_onFault sound mode _ code v

end Session

/-! ## Scripts -/

open Session

variable {s : Session}

theorem mmu_performAction (sessions : Nat) (s : Session) (action : HostAction) :
    (performAction sessions s action).2.mmu = s.mmu := by
  cases action with
  | interrupt => rfl
  | invalidate request => rfl
  | crowd cores => cases cores <;> rfl

theorem follows_armOther (sound : s.mmu.Sound) (pc : UInt64) :
    s.mmu.Follows (armOther s pc).2.mmu := by
  unfold armOther
  split <;>
  · rename_i armed
    exact follows_arm sound armed

theorem follows_disarmOther (sound : s.mmu.Sound) (patch : StepPatch) :
    s.mmu.Follows (disarmOther s patch).mmu :=
  follows_setMemory sound (sameFrames_disarm sound.memory patch s.sites)

theorem Reaches.follows {mode : RunMode} {a : Activation} (h : Reaches mode a s)
    (sound : a.cpu.mmu.Sound) : a.cpu.mmu.Follows s.mmu := by
  induction h with
  | start => exact sound.follows
  | action sessions action _ ih =>
    rw [mmu_performAction]
    exact ih
  | threadPointer pointer _ ih => exact ih
  | armOther pc _ ih => exact ih.trans (follows_armOther ih.sound pc)
  | deliver signal code v _ ih => exact ih.trans (follows_deliver ih.sound mode signal code v)
  | disarmOther patch _ ih => exact ih.trans (follows_disarmOther ih.sound patch)

theorem follows_switch (h : NativeHost) (b : NativeBackend) (script : Script) (mode : RunMode)
    {a : Activation} (sound : a.cpu.mmu.Sound) :
    a.cpu.mmu.Follows (switch h b script mode a).activation.cpu.mmu := by
  rcases switch_cases h b script mode a with same | taken | ⟨s, reached, same⟩
  · rw [same]
    exact sound.follows
  · rw [taken]
    exact sound.follows
  · rw [same]
    exact reached.follows sound

theorem follows_execute {c : NativeCore} {memory : MemoryMap}
    (sound : Mmu.Sound ⟨c.tlb, memory⟩) (h : NativeHost) (ref : ThreadRef) (thread : GuestThread)
    (mode : RunMode) (script : Script) :
    Mmu.Follows ⟨c.tlb, memory⟩ ⟨(c.execute h memory ref thread mode script).2.2.2.core.tlb,
      (c.execute h memory ref thread mode script).2.2.2.memory⟩ := by
  unfold NativeCore.execute
  split
  · exact sound.follows
  · rename_i e entered
    have mmu := Core.mmu_enter entered
    rw [← mmu] at sound ⊢
    split
    · exact sound.follows
    · exact follows_switch h c.backend script mode sound

end Native

end GuestExec
