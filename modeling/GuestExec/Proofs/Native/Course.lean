import GuestExec.Native.Script
import GuestExec.Proofs.Native.Handlers
import GuestExec.Proofs.Thread.Lock

/-!
# The course of a native run

A session passes through the states that `Reaches` lists, whatever its script
says, and what a native backend gives back is the activation of one of them
unless nothing ran at all. So whatever every handler keeps, the run keeps.
-/

namespace GuestExec.Native

open ThreadLock (Balanced)

/-! ## The states of a scripted session -/

/-- The states between two handlers of a session that runs `a`, and between a handler and what the
host does before and after it. -/
inductive Reaches (mode : RunMode) (a : Activation) : Session → Prop where
  | start (script : Script) (sites : SiteTable) :
    Reaches mode a (startSession script (a.drain.2.takeInterrupt.2.waitUnlocked mode.owner) sites)
  | action {s : Session} (sessions : Nat) (action : HostAction) : Reaches mode a s →
    Reaches mode a (performAction sessions s action).2
  | threadPointer {s : Session} (pointer : UInt64) : Reaches mode a s →
    Reaches mode a { s with threadPointer := pointer }
  | armOther {s : Session} (pc : UInt64) : Reaches mode a s → Reaches mode a (armOther s pc).2
  | deliver {s : Session} (signal : HostSignal) (code : Int) (v : FrameView) : Reaches mode a s →
    Reaches mode a (s.deliver mode signal code v).2.2
  | disarmOther {s : Session} (patch : StepPatch) : Reaches mode a s →
    Reaches mode a (disarmOther s patch)

variable {mode : RunMode} {a : Activation} {s : Session}

theorem Reaches.actions (h : Reaches mode a s) (sessions : Nat) (actions : List HostAction) :
    Reaches mode a (performActions sessions s actions).2 := by
  unfold performActions
  generalize ([] : List Notice) = notices
  induction actions generalizing notices s with
  | nil => exact h
  | cons action rest ih => exact ih (h.action sessions action) _

theorem Reaches.trap (h : Reaches mode a s) (script : Script) (sessions : Nat)
    (frame : SignalFrame) (t : Trap) :
    Reaches mode a (deliverTrap script mode sessions frame s t).2.2.2 := by
  have acted := (h.actions sessions t.actions).threadPointer
    (t.threadPointer.getD (performActions sessions s t.actions).2.threadPointer)
  unfold deliverTrap
  dsimp only
  cases t.otherStep with
  | none => exact (acted.deliver t.signal t.code _).disarmOther _
  | some pc => exact ((acted.armOther pc).deliver t.signal t.code _).disarmOther _

/-- Without further traps the session is asked to stop. -/
theorem session_deliverTraps_nil (script : Script) (mode : RunMode) (sessions : Nat)
    (frame : SignalFrame) (s : Session) :
    (deliverTraps script mode sessions frame s []).2.2.2 =
      ((performAction sessions s .interrupt).2.onInterrupt
        (FrameView.ofFrame (frame.setSyndrome script.withoutFp none))).2.2 := by
  unfold deliverTraps
  dsimp only
  split <;> rfl

theorem Reaches.traps (h : Reaches mode a s) (script : Script) (sessions : Nat)
    (frame : SignalFrame) (traps : List Trap) :
    Reaches mode a (deliverTraps script mode sessions frame s traps).2.2.2 := by
  induction traps generalizing s frame with
  | nil =>
    have stopped := (h.action sessions .interrupt).deliver .interrupt 0
      (FrameView.ofFrame (frame.setSyndrome script.withoutFp none))
    rw [session_deliverTraps_nil]
    exact stopped
  | cons t rest ih =>
    have first := h.trap script sessions frame t
    unfold deliverTraps
    dsimp only
    split
    · exact first
    · exact ih first _

theorem Reaches.session (h : Reaches mode a s) (script : Script) (sessions : Nat) :
    Reaches mode a (runSession script mode sessions s).2.2.2 := by
  have acted := h.actions sessions script.enter
  unfold runSession
  dsimp only
  split
  · exact acted
  · have entered := acted.deliver .enter 0 (FrameView.ofFrame (.blank script.withoutFp))
    split
    · exact entered
    · exact entered.traps script sessions _ script.traps

/-- What a native backend gives back: the activation as it was, if the host is not prepared; with a
request to stop taken from it; or that of a session. -/
theorem switch_cases (h : NativeHost) (b : NativeBackend) (script : Script) (mode : RunMode)
    (a : Activation) :
    (switch h b script mode a).activation = a ∨
      (switch h b script mode a).activation = a.drain.2.takeInterrupt.2 ∨
      ∃ s, Reaches mode a s ∧ (switch h b script mode a).activation = s.activation := by
  unfold switch
  split
  · exact .inl rfl
  · rename_i h' _
    dsimp only
    split
    · exact .inr (.inl rfl)
    · split
      · exact .inr (.inr
          ⟨_, (Reaches.start script h'.sites).session script (h'.sessions + 1), rfl⟩)
      · exact .inr (.inr ⟨_, .start script h'.sites, rfl⟩)

/-! ## The thread's lock -/

theorem lock_disarm (s : Session) :
    s.disarm.activation.params.lock = s.activation.params.lock := by
  unfold Session.disarm
  split <;> rfl

theorem lock_onEnter (s : Session) (step : Bool) (v : FrameView) :
    (s.onEnter step v).2.2.activation.params.lock = s.activation.params.lock := by
  have ends := s.enterEnds_onEnter step v
  generalize s.onEnter step v = landed at ends
  cases ends with
  | inside => rfl
  | interrupted => exact lock_disarm _
  | selfLoop => exact lock_disarm _
  | armed => rfl
  | plain => rfl

theorem lock_onInterrupt (s : Session) (v : FrameView) :
    (s.onInterrupt v).2.2.activation.params.lock = s.activation.params.lock := by
  have ends := s.interruptEnds_onInterrupt v
  generalize s.onInterrupt v = landed at ends
  cases ends with
  | outside => rfl
  | stopped => exact lock_disarm _
  | unasked => rfl

theorem balanced_onTrap (s : Session) (mode : RunMode) :
    Balanced mode.owner s.activation.params.lock (s.onTrap mode).2.activation.params.lock := by
  have ends := s.trapEnds_onTrap mode
  generalize s.onTrap mode = landed at ends
  cases ends with
  | unknown => exact .held .refl
  | _ => exact .refl

theorem balanced_treat (s : Session) (mode : RunMode) (signal : HostSignal) (code : Int)
    (v : FrameView) : Balanced mode.owner s.activation.params.lock
      (s.treat mode signal code v).2.activation.params.lock := by
  unfold Session.treat
  split
  · exact balanced_onTrap (s.save v) mode
  · exact .held .refl

theorem balanced_onFault (s : Session) (mode : RunMode) (signal : HostSignal) (code : Int)
    (v : FrameView) : Balanced mode.owner s.activation.params.lock
      (s.onFault mode signal code v).2.2.activation.params.lock := by
  have handled := balanced_treat s mode signal code v
  have ends := s.faultEnds_onFault mode signal code v
  generalize s.onFault mode signal code v = landed at ends
  cases ends with
  | outside => exact .refl
  | guest inside treated =>
    rw [treated] at handled
    exact handled
  | host inside treated =>
    rw [treated] at handled
    dsimp only
    rw [lock_disarm]
    exact handled

theorem balanced_deliver (s : Session) (mode : RunMode) (signal : HostSignal) (code : Int)
    (v : FrameView) : Balanced mode.owner s.activation.params.lock
      (s.deliver mode signal code v).2.2.activation.params.lock := by
  cases signal with
  | enter =>
    show Balanced _ _ (s.onEnter mode.step v).2.2.activation.params.lock
    rw [lock_onEnter]
    exact .refl
  | interrupt =>
    show Balanced _ _ (s.onInterrupt v).2.2.activation.params.lock
    rw [lock_onInterrupt]
    exact .refl
  | _ => exact balanced_onFault s mode _ code v

theorem Reaches.balanced (h : Reaches mode a s) :
    Balanced mode.owner a.params.lock s.activation.params.lock := by
  induction h with
  | start => exact .waited .refl
  | @action s sessions action _ ih =>
    cases action with
    | interrupt => exact ih
    | invalidate request => exact ih
    | crowd cores => cases cores <;> exact ih
  | threadPointer pointer _ ih => exact ih
  | @armOther s pc _ ih =>
    unfold Native.armOther
    split <;> exact ih
  | deliver signal code v _ ih => exact ih.trans (balanced_deliver _ mode signal code v)
  | disarmOther patch _ ih => exact ih

/-- A native run gives every level of the lock back. -/
theorem balanced_switch (h : NativeHost) (b : NativeBackend) (script : Script) (mode : RunMode)
    (a : Activation) : Balanced mode.owner a.params.lock
      (switch h b script mode a).activation.params.lock := by
  rcases switch_cases h b script mode a with same | taken | ⟨s, reached, same⟩
  · rw [same]
    exact .refl
  · rw [taken]
    exact .refl
  · rw [same]
    exact reached.balanced

end GuestExec.Native
