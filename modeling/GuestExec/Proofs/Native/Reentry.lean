import GuestExec.Proofs.Fault.Reasons
import GuestExec.Proofs.Native.Armed
import GuestExec.Proofs.Native.Course
import GuestExec.Proofs.Native.Frames
import GuestExec.Proofs.Native.Handlers

/-!
# Into the guest and out of it

When the guest is interrupted, hits a breakpoint of its step or calls its
supervisor, the session ends with the registers of the frame. Before the guest is
loaded a session has the registers that it was started with, and these go into the
frame. A trap that is resolved by a retry leads back into the guest with the frame
as it was.
-/

namespace GuestExec.Native

variable {mode : RunMode} {a : Activation} {s s' : Session} {signal : HostSignal} {code : Int}
  {v v' : FrameView} {reason : HaltReason}

/-! ## Out of the guest -/

/-- How far behind the trapped instruction a run that ended for `reason` goes on. -/
def skipped (reason : HaltReason) : UInt64 := if reason.contains .supervisorCall then 4 else 0

/-- The guest was interrupted, hit a breakpoint of its step or called its supervisor. -/
inductive LeavesWhole : HostSignal → HaltReason → Prop where
  | interrupted (reason : HaltReason) : LeavesWhole .interrupt reason
  | stepHit : LeavesWhole .trap .stepThread
  | supervisorCall {reason : HaltReason} (called : reason.contains .supervisorCall = true) :
    LeavesWhole .trap reason

theorem FrameView.pc_saveTo (v : FrameView) (regs : Registers) :
    (v.saveTo regs).pc = v.frame.pc := by
  unfold saveTo
  dsimp only
  split <;> rfl

theorem FrameView.pc_loadFrom (v : FrameView) (regs : Registers) :
    (v.loadFrom regs).frame.pc = regs.pc := by
  obtain ⟨reserved, eq, -⟩ := (v.sameButFp_loadFrom regs).frame
  rw [eq]
  rfl

namespace Session

theorem regs_disarm (s : Session) : s.disarm.regs = s.regs := by
  unfold disarm
  split <;> rfl

/-- A breakpoint of the step leaves the registers as they are, a supervisor call moves `pc` on. -/
theorem regs_onTrap (ended : s.onTrap mode = (.host reason, s'))
    (whole : LeavesWhole .trap reason) :
    ∃ svc, s'.regs = { s.regs with pc := s.regs.pc + skipped reason, svc } := by
  have other : reason ≠ .fatalError ∧ reason ≠ .instructionBreakpoint := by
    cases whole with
    | stepHit => decide
    | supervisorCall called =>
      constructor <;>
      · rintro rfl
        exact absurd called (by decide)
  have ends := s.trapEnds_onTrap mode
  rw [ended] at ends
  generalize result : (Landing.host reason, s') = landed at ends
  cases ends with
  | stepHit hit =>
    cases result
    refine ⟨s.regs.svc, ?_⟩
    rw [skipped, if_neg (by decide), UInt64.add_zero]
  | unknown info =>
    cases result
    exact absurd rfl other.1
  | other site => cases result
  | supervisorCall svc =>
    cases result
    have called : (if mode.step then HaltReason.supervisorCall ||| .stepThread
        else .supervisorCall).contains .supervisorCall = true := by
      split <;> decide
    refine ⟨svc, ?_⟩
    rw [skipped, if_pos called]
    rfl
  | breakpoint esr =>
    cases result
    exact absurd rfl other.2

/-- A session that ends with the guest whole has the registers of the frame. -/
theorem regs_of_leavesWhole (ended : s.deliver mode signal code v = (.host reason, v', s'))
    (whole : LeavesWhole signal reason) :
    ∃ svc, s'.regs = { v.saveTo s.regs with
      pc := v.frame.pc + skipped reason, svc, tpidr := s.threadPointer } := by
  rw [← v.pc_saveTo s.regs]
  cases signal with
  | interrupt =>
    have ends := s.interruptEnds_onInterrupt v
    rw [show s.onInterrupt v = (.host reason, v', s') from ended] at ends
    cases ends with
    | stopped inside =>
      refine ⟨(v.saveTo s.regs).svc, ?_⟩
      rw [skipped, if_neg (by decide), UInt64.add_zero]
      exact regs_disarm _
  | trap =>
    have ends := s.faultEnds_onFault mode .trap code v
    rw [show s.onFault mode .trap code v = (.host reason, v', s') from ended] at ends
    cases ends with
    | @host s₁ _ inside treated =>
      obtain ⟨svc, regs⟩ := regs_onTrap (s := s.save v) treated whole
      exact ⟨svc, (regs_disarm s₁).trans regs⟩
  | _ => cases whole

/-- A trap of the guest leads where its instruction says. -/
theorem landing_deliver_trap (inside : s.inGuest = true) :
    (s.deliver mode .trap code v).1 = ((s.save v).onTrap mode).1 := by
  have treated : s.treat mode .trap code v = (s.save v).onTrap mode := if_pos rfl
  have ends := s.faultEnds_onFault mode .trap code v
  show (s.onFault mode .trap code v).1 = _
  rw [← treated]
  generalize s.onFault mode .trap code v = landed at ends
  cases ends with
  | outside out => cases inside.symm.trans out
  | guest _ treated => rw [treated]
  | host _ treated => rw [treated]

/-- A breakpoint of the step ends it. -/
theorem landing_of_hit (inside : s.inGuest = true)
    (hit : s.patch.any (·.hits v.frame.pc) = true) :
    (s.deliver mode .trap code v).1 = .host .stepThread := by
  have hit' : (s.save v).patch.any (·.hits (s.save v).regs.pc) = true :=
    (v.pc_saveTo s.regs).symm ▸ hit
  rw [landing_deliver_trap inside, onTrap]
  dsimp only
  rw [if_pos hit']

/-! ## Into the guest -/

/-- The guest is loaded with the registers of the session. -/
theorem eq_loadFrom_of_onEnter {step : Bool} (outside : s.inGuest = false)
    (loaded : s.onEnter step v = (.guest, v', s')) : v' = v.loadFrom s.regs := by
  have ends := s.enterEnds_onEnter step v
  rw [loaded] at ends
  cases ends with
  | inside there =>
    rw [outside] at there
    cases there
  | armed outside armed => rfl
  | plain outside => rfl

end Session

/-- The session of `a` before its first handler. -/
inductive Awaits (mode : RunMode) (a : Activation) : Session → Prop where
  | start (script : Script) (sites : SiteTable) :
    Awaits mode a (startSession script (a.drain.2.takeInterrupt.2.waitUnlocked mode.owner) sites)
  | action {s : Session} (sessions : Nat) (action : HostAction) : Awaits mode a s →
    Awaits mode a (performAction sessions s action).2

/-- It has the registers that the run began with. -/
theorem Awaits.regs (h : Awaits mode a s) : s.regs = a.cpu.regs ∧ s.inGuest = false := by
  induction h with
  | start => exact ⟨rfl, rfl⟩
  | action sessions action _ ih =>
    cases action with
    | interrupt => exact ih
    | invalidate request => exact ih
    | crowd cores => cases cores <;> exact ih

/-! ## Scripted runs -/

/-- The session of `a` ended with `reason` when `signal` came with the frame `v`, and left `s'`.
Another run may lift its breakpoints before that. -/
inductive Ends (mode : RunMode) (a : Activation) (signal : HostSignal) (v : FrameView)
    (reason : HaltReason) : Session → Prop where
  | mk {s s₁ : Session} {v' : FrameView} (reached : Reaches mode a s) (code : Int)
    (ended : s.deliver mode signal code v = (.host reason, v', s₁)) (other : StepPatch) :
    Ends mode a signal v reason (disarmOther s₁ other)

theorem Ends.reaches (h : Ends mode a signal v reason s') : Reaches mode a s' := by
  cases h with
  | @mk s s₁ v' reached code ended other =>
    have delivered := reached.deliver signal code v
    rw [ended] at delivered
    exact delivered.disarmOther other

/-- The registers of a session that left the guest whole are those of the frame. -/
theorem Ends.exists_regs (h : Ends mode a signal v reason s') (whole : LeavesWhole signal reason) :
    ∃ regs svc tpidr, s'.regs = { v.saveTo regs with
      pc := v.frame.pc + skipped reason, svc, tpidr } := by
  cases h with
  | @mk s s₁ v' reached code ended other =>
    obtain ⟨svc, regs⟩ := Session.regs_of_leavesWhole ended whole
    exact ⟨s.regs, svc, s.threadPointer, regs⟩

/-- What shows of the frame `v` once it leads to the host: all but `pc` and `x0`. -/
def ShowsOnExit (v : FrameView) (shown : Registers) : Prop :=
  ∃ pc x0, shown = ((v.setPc pc).setReg 0 x0).saveTo .zero

/-- The session that a handler leaves when it leads to the host, and the frame that it shows. -/
theorem Reaches.ends (h : Reaches mode a s) (signal : HostSignal) (code : Int) {v : FrameView}
    (landed : (s.deliver mode signal code v).1 = .host reason) (other : StepPatch) :
    Ends mode a signal v reason (Native.disarmOther (s.deliver mode signal code v).2.2 other) ∧
      ShowsOnExit v ((s.deliver mode signal code v).2.1.saveTo .zero) := by
  have frame := s.frameEnds_deliver mode signal code v
  rcases ended : s.deliver mode signal code v with ⟨landing, v', s₁⟩
  rw [ended] at landed frame
  cases landed
  refine ⟨.mk h code ended other, ?_⟩
  cases frame with
  | toHost _ pc x0 => exact ⟨pc, x0, rfl⟩

theorem Reaches.ends_trap (h : Reaches mode a s) {script : Script} {sessions : Nat}
    {frame : SignalFrame} {t : Trap}
    (landed : (deliverTrap script mode sessions frame s t).2.1.landing = .host reason) :
    ∃ v, v.Walked ∧
      Ends mode a t.signal v reason (deliverTrap script mode sessions frame s t).2.2.2 ∧
      ShowsOnExit v (deliverTrap script mode sessions frame s t).2.1.frame := by
  have acted := (h.actions sessions t.actions).threadPointer
    (t.threadPointer.getD (performActions sessions s t.actions).2.threadPointer)
  unfold deliverTrap at landed ⊢
  dsimp only at landed ⊢
  cases step : t.otherStep with
  | none =>
    rw [step] at landed
    obtain ⟨ends, view⟩ := acted.ends t.signal t.code landed { breakpoints := [] }
    exact ⟨_, (FrameView.walked_ofFrame _).edit t.edit, ends, view⟩
  | some pc =>
    rw [step] at landed
    obtain ⟨ends, view⟩ := (acted.armOther pc).ends t.signal t.code landed _
    exact ⟨_, (FrameView.walked_ofFrame _).edit t.edit, ends, view⟩

/-- The handler that led to the host is not one that led to the guest. -/
theorem getLast?_of_guest {first item : TrailItem} {rest : List TrailItem}
    (last : (first :: rest).getLast? = some item) (guest : first.landing = .guest)
    (host : item.landing = .host reason) : rest.getLast? = some item := by
  rw [List.getLast?_cons, Option.some.injEq] at last
  cases later : rest.getLast? with
  | none =>
    rw [later] at last
    subst last
    cases guest.symm.trans host
  | some other =>
    rw [later] at last
    exact congrArg some last

/-- Traps whose last one led to the host ended the session there. -/
theorem Reaches.ends_traps (h : Reaches mode a s) {script : Script} {sessions : Nat}
    {frame : SignalFrame} {traps : List Trap} {item : TrailItem}
    (last : (deliverTraps script mode sessions frame s traps).2.2.1.getLast? = some item)
    (host : item.landing = .host reason) :
    ∃ signal v, v.Walked ∧ Ends mode a signal v (deliverTraps script mode sessions frame s traps).1
        (deliverTraps script mode sessions frame s traps).2.2.2 ∧
      ShowsOnExit v item.frame := by
  induction traps generalizing s frame with
  | nil =>
    have asked := h.action sessions .interrupt
    unfold deliverTraps at last ⊢
    dsimp only at last ⊢
    split at last
    · rename_i stopped eq
      cases last
      obtain ⟨ends, view⟩ := asked.ends .interrupt 0 eq { breakpoints := [] }
      rw [eq]
      exact ⟨_, _, FrameView.walked_ofFrame _, ends, view⟩
    · rename_i eq
      cases last
      cases eq.symm.trans host
  | cons t rest ih =>
    have delivered := h.trap script sessions frame t
    unfold deliverTraps at last ⊢
    dsimp only at last ⊢
    split at last
    · rename_i shown
      cases last
      exact ⟨t.signal, h.ends_trap shown⟩
    · rename_i shown
      exact ih delivered (getLast?_of_guest last shown host)

/-- So did a session whose last handler led to the host. -/
theorem Reaches.ends_session (h : Reaches mode a s) {script : Script} {sessions : Nat}
    {item : TrailItem}
    (last : (runSession script mode sessions s).2.2.1.getLast? = some item)
    (host : item.landing = .host reason) :
    ∃ signal v, v.Walked ∧ Ends mode a signal v (runSession script mode sessions s).1
        (runSession script mode sessions s).2.2.2 ∧
      ShowsOnExit v item.frame := by
  have acted := h.actions sessions script.enter
  unfold runSession at last ⊢
  dsimp only at last ⊢
  split at last
  · cases last
  · rename_i arrives
    rw [if_neg arrives]
    have entered := acted.deliver .enter 0 (FrameView.ofFrame (.blank script.withoutFp))
    split at last
    · rename_i eq
      cases last
      obtain ⟨ends, view⟩ := acted.ends .enter 0 eq { breakpoints := [] }
      rw [eq]
      exact ⟨_, _, FrameView.walked_ofFrame _, ends, view⟩
    · rename_i eq
      rw [eq]
      exact entered.ends_traps (getLast?_of_guest last eq host) host

theorem Awaits.actions (h : Awaits mode a s) (sessions : Nat) (actions : List HostAction) :
    Awaits mode a (performActions sessions s actions).2 := by
  unfold performActions
  generalize ([] : List Notice) = notices
  induction actions generalizing notices s with
  | nil => exact h
  | cons action rest ih => exact ih (h.action sessions action) _

/-- What a session shows first, if that led to the guest, is the frame that the guest was loaded
with. -/
theorem Awaits.exists_loaded (h : Awaits mode a s) {script : Script} {sessions : Nat}
    {item : TrailItem} (first : (runSession script mode sessions s).2.2.1.head? = some item)
    (guest : item.landing = .guest) :
    ∃ v v' s₁ s₂, v.Walked ∧ Awaits mode a s₁ ∧ s₁.onEnter mode.step v = (.guest, v', s₂) ∧
      item.frame = v'.saveTo .zero := by
  have acted := h.actions sessions script.enter
  rcases entered : (performActions sessions s script.enter).2.onEnter mode.step
    (FrameView.ofFrame (.blank script.withoutFp)) with ⟨landing, v', s₂⟩
  unfold runSession at first
  dsimp only at first
  rw [entered] at first
  split at first
  · cases first
  · cases landing with
    | guest =>
      cases first
      exact ⟨_, v', _, s₂, FrameView.walked_ofFrame _, acted, entered, rfl⟩
    | host reason =>
      cases first
      cases guest

/-- What a native backend shows last, if that led to the host, ended the run. -/
theorem exists_ends_switch {h : NativeHost} {b : NativeBackend} {script : Script}
    {item : TrailItem} (last : (switch h b script mode a).trail.getLast? = some item)
    (host : item.landing = .host reason) :
    ∃ signal v s, v.Walked ∧ Ends mode a signal v (switch h b script mode a).reason s ∧
      (switch h b script mode a).activation = s.activation ∧ ShowsOnExit v item.frame := by
  unfold switch at last ⊢
  split at last
  · cases last
  · rename_i h' prepared
    dsimp only at last ⊢
    split at last
    · cases last
    · rename_i free
      rw [if_neg free]
      split at last
      · rename_i room
        rw [if_pos room]
        obtain ⟨signal, v, walked, ends, view⟩ :=
          (Reaches.start script h'.sites).ends_session last host
        exact ⟨signal, v, _, walked, ends, rfl, view⟩
      · cases last

theorem exists_loaded_switch {h : NativeHost} {b : NativeBackend} {script : Script}
    {item : TrailItem} (first : (switch h b script mode a).trail.head? = some item)
    (guest : item.landing = .guest) :
    ∃ v v' s₁ s₂, v.Walked ∧ Awaits mode a s₁ ∧ s₁.onEnter mode.step v = (.guest, v', s₂) ∧
      item.frame = v'.saveTo .zero := by
  unfold switch at first
  split at first
  · cases first
  · rename_i h' prepared
    dsimp only at first
    split at first
    · cases first
    · split at first
      · exact (Awaits.start script h'.sites).exists_loaded first guest
      · cases first

/-! ## Retries -/

namespace Session

/-- The guest's trap is resolved by a retry: the policy mended what was in the way, or the
breakpoint is another run's. -/
inductive Retries (s : Session) (mode : RunMode) (signal : HostSignal) (code : Int)
    (v : FrameView) : Prop where
  | mended (inside : s.inGuest = true) (fault : signal.isFault = true) (other : signal ≠ .trap)
    (outcome : ((s.save v).activation.dispatchFault mode.owner
      ((s.save v).classify signal code v).1 ((s.save v).classify signal code v).2).1 = .retry)
  | breakpoint (inside : s.inGuest = true) (trap : signal = .trap)
    (outcome : ((s.save v).onTrap mode).1 = .guest)

theorem onTrap_of_guest (outcome : (s.onTrap mode).1 = .guest) : s.onTrap mode = (.guest, s) := by
  have ends := s.trapEnds_onTrap mode
  generalize s.onTrap mode = landed at ends outcome
  cases ends with
  | other site => rfl
  | unknown info => cases outcome
  | _ => cases outcome

/-- The registers are the frame's when the guest goes on after a retry. -/
theorem treat_of_retries (retries : s.Retries mode signal code v) :
    ∃ s₁, s.treat mode signal code v = (.guest, s₁) ∧ s₁.regs = (s.save v).regs := by
  cases retries with
  | mended inside fault other outcome =>
    have kept := (Vcpu.handled_handle (s.save v).activation.cpu
      ((s.save v).classify signal code v).1 ((s.save v).classify signal code v).2).regs outcome
    refine ⟨((s.save v).dispatch mode ((s.save v).classify signal code v).1
      ((s.save v).classify signal code v).2).2, ?_, kept⟩
    rw [treat, if_neg other]
    have back : afterFault mode.step .retry = .guest := by cases mode.step <;> rfl
    exact Prod.ext ((congrArg (afterFault mode.step) outcome).trans back) rfl
  | breakpoint inside trap outcome =>
    refine ⟨s.save v, ?_, rfl⟩
    rw [treat, if_pos trap, onTrap_of_guest outcome]

/-- A retry leads back into the guest with the frame as it was, but for the upper half of pstate,
and with the guest's thread pointer. -/
theorem deliver_of_retries (retries : s.Retries mode signal code v) :
    ∃ s', s.deliver mode signal code v = (.guest, v.cutPstate, s') ∧
      s'.threadPointer = s.threadPointer := by
  obtain ⟨inside, fault⟩ : s.inGuest = true ∧ signal.isFault = true := by
    cases retries with
    | mended inside fault => exact ⟨inside, fault⟩
    | breakpoint inside trap =>
      rw [trap]
      exact ⟨inside, rfl⟩
  obtain ⟨s₁, treated, regs⟩ := treat_of_retries retries
  have ends := s.faultEnds_onFault mode signal code v
  rw [deliver_of_isFault fault]
  generalize s.onFault mode signal code v = landed at ends
  cases ends with
  | outside out => cases inside.symm.trans out
  | guest _ treated' =>
    cases treated.symm.trans treated'
    refine ⟨_, Prod.ext rfl (Prod.ext ?_ rfl), congrArg Registers.tpidr regs⟩
    exact (congrArg v.loadFrom regs).trans (v.loadFrom_saveTo s.regs s.threadPointer)
  | host _ treated' => cases treated.symm.trans treated'

end Session

end GuestExec.Native
