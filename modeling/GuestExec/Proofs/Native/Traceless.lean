import GuestExec.Proofs.Fault.Contents
import GuestExec.Proofs.Fault.Eased
import GuestExec.Proofs.Native.Scripted
import GuestExec.Proofs.Native.Sound
import GuestExec.Proofs.Native.Undo

/-!
# A session leaves no trace

Whatever a session did to the table and to the code, letting its breakpoints go
undoes it; and however it ends, it lets them go. So what a native backend gives back
is the table that it found, and the code that it found but for what the guest stored
there itself.
-/

namespace GuestExec.Native

open MemoryMap (Eases ModifiesOnly Spared)

variable {mode : RunMode} {signal : HostSignal} {code : Int} {v : FrameView} {t₀ : SiteTable}
  {m₀ : MemoryMap} {stored : Nat → Prop} {others : List Breakpoint} {n : Nat}

/-! ## Stores of handlers -/

/-- `n` is an address of the store that a handler makes in software for a signal that reports
this. -/
def Stores (signal : HostSignal) (code : Int) (address : UInt64) (syndrome : Option UInt64)
    (n : Nat) : Prop :=
  signal = .bus ∧ code = misalignedCode ∧
    Vcpu.WritesAt { address := ⟨address⟩, access := .write, syndrome } n

/-- `n` is an address of a store that is made in software for one of the script's traps. -/
def Script.StoresAt (script : Script) (n : Nat) : Prop :=
  ∃ t ∈ script.traps, Stores t.signal t.code t.faultAddress t.syndrome n

namespace Session

variable {s s' : Session}

/-- A handler stores nothing but what its frame describes. -/
theorem stores_of_classify (kind : (s.classify signal code v).1 = .alignment)
    (writes : Vcpu.WritesAt (s.classify signal code v).2 n) :
    Stores signal code v.frame.faultAddress v.records.syndrome n := by
  unfold classify at kind writes
  split at kind
  · cases kind
  · rename_i other
    rw [if_neg other] at writes
    dsimp only at kind writes
    split at kind
    · rename_i misaligned
      rw [Bool.and_eq_true, decide_eq_true_eq, beq_iff_eq] at misaligned
      exact ⟨misaligned.1, misaligned.2, writes⟩
    · cases kind

/-! ## Sessions -/

/-- The breakpoints that the session holds. -/
def own (s : Session) : List Breakpoint := s.patch.elim [] (·.breakpoints)

theorem own_of_none (none : s.patch = none) : s.own = [] := by rw [own, none, Option.elim_none]

/-- Letting the breakpoints of the session and those of `others` go leads back to `t₀` and the code
of `m₀`. While the guest is not in the processor the session holds none. -/
structure Restorable (t₀ : SiteTable) (m₀ : MemoryMap) (stored : Nat → Prop)
    (others : List Breakpoint) (s : Session) : Prop where
  undoable : Undoable t₀ m₀ stored (s.own ++ others) s.sites s.memory
  sound : s.mmu.Sound
  outside : s.inGuest = false → s.patch = none

namespace Restorable

/-- What else a session has does not matter. -/
theorem of_eq (h : s.Restorable t₀ m₀ stored others) (sites : s'.sites = s.sites)
    (mmu : s'.mmu = s.mmu) (patch : s'.patch = s.patch)
    (outside : s'.inGuest = false → s.inGuest = false) : s'.Restorable t₀ m₀ stored others where
  undoable := by
    have undoable := h.undoable
    rw [own] at undoable ⊢
    rw [patch, sites, show s'.memory = s.memory from congrArg Mmu.memory mmu]
    exact undoable
  sound := mmu ▸ h.sound
  outside out := patch.trans (h.outside (outside out))

theorem disarm (h : s.Restorable t₀ m₀ stored others) (w : m₀.WellFormed)
    (held : ∀ s ∈ t₀.sites, s.holders ≠ 0) :
    s.disarm.Restorable t₀ m₀ stored others ∧ s.disarm.patch = none := by
  have sound := (follows_disarm h.sound).sound
  unfold Session.disarm at sound ⊢
  cases patched : s.patch with
  | none => exact ⟨h, patched⟩
  | some p =>
    rw [patched] at sound
    have undoable := h.undoable
    rw [own, patched, Option.elim_some] at undoable
    exact ⟨⟨undoable.disarm w held, sound, fun _ => rfl⟩, rfl⟩

/-- Arming a step adds its breakpoints, whoever steps. -/
theorem arm (h : s.Restorable t₀ m₀ stored others) (w : m₀.WellFormed) {regs : Registers}
    {armed : Native.Armed} {sites : SiteTable} {m : MemoryMap}
    (placed : StepPatch.arm s.sites s.memory regs = (armed, sites, m)) :
    Undoable t₀ m₀ stored (armed.breakpoints ++ (s.own ++ others)) sites m ∧
      (s.setMemory m).mmu.Sound := by
  have undoable := h.undoable.arm w.toRegular regs
  rw [placed] at undoable
  exact ⟨undoable, (follows_arm h.sound placed).sound⟩

/-- A fault mends pages and stores what it may. -/
theorem dispatch (h : s.Restorable t₀ m₀ stored others) (w : m₀.WellFormed) (mode : RunMode)
    {kind : FaultKind} {info : FaultInfo}
    (fits : kind = .alignment → ∀ n, Vcpu.WritesAt info n → stored n) :
    (s.dispatch mode kind info).2.Restorable t₀ m₀ stored others := by
  have modified : ModifiesOnly stored s.memory (s.dispatch mode kind info).2.memory := by
    by_cases alignment : kind = .alignment
    · exact (Vcpu.modifiesOnly_handle h.sound kind info).mono (fits alignment)
    · exact Vcpu.modifiesOnly_handle_of_ne h.sound.memory alignment stored info
  exact ⟨h.undoable.fault w.toRegular (Vcpu.eases_handle h.sound.memory kind info) modified,
    (follows_dispatch h.sound mode kind info).sound, h.outside⟩

theorem onTrap (h : s.Restorable t₀ m₀ stored others) (w : m₀.WellFormed) (mode : RunMode) :
    (s.onTrap mode).2.Restorable t₀ m₀ stored others := by
  have ends := s.trapEnds_onTrap mode
  generalize s.onTrap mode = landed at ends
  cases ends with
  | stepHit => exact h
  | unknown info => exact h.dispatch w mode fun alignment => by cases alignment
  | other => exact h
  | supervisorCall => exact h.of_eq rfl rfl rfl id
  | breakpoint => exact h.of_eq rfl rfl rfl id

theorem treat (h : s.Restorable t₀ m₀ stored others) (w : m₀.WellFormed) (mode : RunMode)
    (fits : ∀ n, Stores signal code v.frame.faultAddress v.records.syndrome n → stored n) :
    (s.treat mode signal code v).2.Restorable t₀ m₀ stored others := by
  have saved : (s.save v).Restorable t₀ m₀ stored others := h.of_eq rfl rfl rfl id
  unfold Session.treat
  split
  · exact saved.onTrap w mode
  · exact saved.dispatch w mode fun kind n writes => fits n (stores_of_classify kind writes)

end Restorable

/-- What a handler leaves can be undone, and when it leads to the host the session holds
nothing. -/
structure Lands (t₀ : SiteTable) (m₀ : MemoryMap) (stored : Nat → Prop)
    (others : List Breakpoint) (landing : Landing) (s : Session) : Prop where
  restorable : s.Restorable t₀ m₀ stored others
  outside : ∀ reason, landing = .host reason → s.inGuest = false

/-- A session that goes on in the guest. -/
theorem Restorable.lands (h : s.Restorable t₀ m₀ stored others) :
    Lands t₀ m₀ stored others .guest s :=
  ⟨h, fun _ host => by cases host⟩

section

variable (w : m₀.WellFormed) (held : ∀ s ∈ t₀.sites, s.holders ≠ 0)
include w held

/-- Every way to the host goes through `disarm`. -/
theorem Restorable.exits (h : s.Restorable t₀ m₀ stored others) (reason : HaltReason) :
    Lands t₀ m₀ stored others (.host reason) { s.disarm with inGuest := false } := by
  obtain ⟨disarmed, none⟩ := h.disarm w held
  exact ⟨⟨disarmed.undoable, disarmed.sound, fun _ => none⟩, fun _ _ => rfl⟩

theorem Restorable.onEnter (h : s.Restorable t₀ m₀ stored others) (step : Bool) (v : FrameView) :
    Lands t₀ m₀ stored others (s.onEnter step v).1 (s.onEnter step v).2.2 := by
  have taken : s.takeStop.Restorable t₀ m₀ stored others := h.of_eq rfl rfl rfl id
  have ends := s.enterEnds_onEnter step v
  generalize s.onEnter step v = landed at ends
  cases ends with
  | inside there => exact h.lands
  | interrupted outside => exact taken.exits w held .breakLoop
  | @selfLoop sites m outside armed =>
    obtain ⟨undoable, sound⟩ := taken.arm w armed
    have looped : ({ s.takeStop.setMemory m with sites } : Session).Restorable t₀ m₀ stored
        others := ⟨undoable, sound, taken.outside⟩
    exact looped.exits w held .stepThread
  | @armed patch sites m outside armed =>
    obtain ⟨undoable, sound⟩ := taken.arm w armed
    rw [own_of_none (s := s.takeStop) (h.outside outside)] at undoable
    exact ⟨⟨undoable, sound, fun out => by cases out⟩, fun _ host => by cases host⟩
  | plain outside =>
    exact ⟨taken.of_eq rfl rfl rfl (fun out => by cases out), fun _ host => by cases host⟩

theorem Restorable.onInterrupt (h : s.Restorable t₀ m₀ stored others) (v : FrameView) :
    Lands t₀ m₀ stored others (s.onInterrupt v).1 (s.onInterrupt v).2.2 := by
  have ends := s.interruptEnds_onInterrupt v
  generalize s.onInterrupt v = landed at ends
  cases ends with
  | outside => exact h.lands
  | stopped =>
    have saved : (s.takeStop.save v).Restorable t₀ m₀ stored others := h.of_eq rfl rfl rfl id
    exact saved.exits w held .breakLoop
  | unasked => exact Restorable.lands (h.of_eq rfl rfl rfl id)

theorem Restorable.onFault (h : s.Restorable t₀ m₀ stored others)
    (fits : ∀ n, Stores signal code v.frame.faultAddress v.records.syndrome n → stored n) :
    Lands t₀ m₀ stored others (s.onFault mode signal code v).1
      (s.onFault mode signal code v).2.2 := by
  have handled := h.treat w mode fits
  have ends := s.faultEnds_onFault mode signal code v
  generalize s.onFault mode signal code v = landed at ends
  cases ends with
  | outside => exact h.lands
  | guest inside treated =>
    rw [treated] at handled
    exact Restorable.lands (handled.of_eq rfl rfl rfl id)
  | @host s₁ reason inside treated =>
    rw [treated] at handled
    exact handled.exits w held reason

/-- So every handler leaves what can be undone. -/
theorem Restorable.deliver (h : s.Restorable t₀ m₀ stored others)
    (fits : ∀ n, Stores signal code v.frame.faultAddress v.records.syndrome n → stored n) :
    Lands t₀ m₀ stored others (s.deliver mode signal code v).1
      (s.deliver mode signal code v).2.2 := by
  cases signal with
  | enter => exact h.onEnter w held mode.step v
  | interrupt => exact h.onInterrupt w held v
  | _ => exact h.onFault w held fits

end

end Session

/-! ## Scripts -/

open Session (Restorable Lands)

variable {s : Session} {script : Script} {sessions : Nat} {frame : SignalFrame}

/-- What the host does meanwhile concerns neither breakpoints nor the processor. -/
theorem Session.Restorable.actions (h : s.Restorable t₀ m₀ stored others) (sessions : Nat)
    (actions : List HostAction) :
    (performActions sessions s actions).2.Restorable t₀ m₀ stored others ∧
      (performActions sessions s actions).2.inGuest = s.inGuest := by
  unfold performActions
  generalize ([] : List Notice) = notices
  induction actions generalizing notices s with
  | nil => exact ⟨h, rfl⟩
  | cons action rest ih =>
    have acted : (performAction sessions s action).2.Restorable t₀ m₀ stored others ∧
        (performAction sessions s action).2.inGuest = s.inGuest := by
      cases action with
      | interrupt => exact ⟨h.of_eq rfl rfl rfl id, rfl⟩
      | invalidate request => exact ⟨h.of_eq rfl rfl rfl id, rfl⟩
      | crowd cores => cases cores <;> exact ⟨h.of_eq rfl rfl rfl id, rfl⟩
    exact (ih acted.1 _).imp_right fun same => same.trans acted.2

section

variable (w : m₀.WellFormed) (held : ∀ s ∈ t₀.sites, s.holders ≠ 0)
include w

/-- Another run holds its breakpoints along with the session's. -/
theorem Session.Restorable.armOther (h : s.Restorable t₀ m₀ stored []) (pc : UInt64) :
    (armOther s pc).2.Restorable t₀ m₀ stored (armOther s pc).1.breakpoints := by
  have own : s.own ++ [] = s.own := List.append_nil _
  unfold Native.armOther
  split
  · rename_i sites m armed
    obtain ⟨undoable, sound⟩ := h.arm w armed
    exact ⟨undoable, sound, h.outside⟩
  · rename_i patch sites m armed
    obtain ⟨undoable, sound⟩ := h.arm w armed
    rw [own] at undoable
    exact ⟨undoable.perm List.perm_append_comm, sound, h.outside⟩

include held

theorem Session.Restorable.disarmOther {patch : StepPatch}
    (h : s.Restorable t₀ m₀ stored patch.breakpoints) :
    (disarmOther s patch).Restorable t₀ m₀ stored [] := by
  have undoable := (h.undoable.perm List.perm_append_comm).disarm w held
  rw [← List.append_nil s.own] at undoable
  exact ⟨undoable, (follows_disarmOther h.sound patch).sound, h.outside⟩

/-- One trap, whatever another run does meanwhile. -/
theorem Session.Restorable.trap (mode : RunMode) (h : s.Restorable t₀ m₀ stored [])
    (laid : frame.Laid script.withoutFp) (sessions : Nat) (t : Trap)
    (fits : ∀ n, Stores t.signal t.code t.faultAddress t.syndrome n → stored n) :
    Lands t₀ m₀ stored [] (deliverTrap script mode sessions frame s t).2.1.landing
        (deliverTrap script mode sessions frame s t).2.2.2 ∧
      (deliverTrap script mode sessions frame s t).2.2.1.Laid script.withoutFp := by
  have acted := (h.actions sessions t.actions).1
  have relaid : { frame with faultAddress := t.faultAddress }.Laid script.withoutFp :=
    ⟨laid.fp, laid.ends⟩
  have view := (FrameView.scripted_setSyndrome relaid t.syndrome).edit t.edit
  unfold deliverTrap
  dsimp only
  generalize FrameView.edit _ t.edit = v at view
  have fits : ∀ n, Stores t.signal t.code v.frame.faultAddress v.records.syndrome n → stored n := by
    rw [view.records, view.faultAddress]
    exact fits
  -- The handler runs while the other run holds the breakpoints `other`.
  have finished {other : StepPatch} {s₁ : Session}
      (ready : s₁.Restorable t₀ m₀ stored other.breakpoints) :
      Lands t₀ m₀ stored [] (s₁.deliver mode t.signal t.code v).1
          (Native.disarmOther (s₁.deliver mode t.signal t.code v).2.2 other) ∧
        (s₁.deliver mode t.signal t.code v).2.1.frame.Laid script.withoutFp := by
    have lands : Lands t₀ m₀ stored other.breakpoints (s₁.deliver mode t.signal t.code v).1
        (s₁.deliver mode t.signal t.code v).2.2 := ready.deliver w held fits
    exact ⟨⟨lands.restorable.disarmOther w held, lands.outside⟩, (view.deliver s₁ mode _ _).laid⟩
  generalize started : ({ (performActions sessions s t.actions).2 with
    threadPointer := t.threadPointer.getD (performActions sessions s t.actions).2.threadPointer } :
    Session) = s₁
  have ready : s₁.Restorable t₀ m₀ stored [] := started ▸ acted.of_eq rfl rfl rfl id
  cases t.otherStep with
  | none => exact @finished ⟨[]⟩ _ ready
  | some pc => exact finished (ready.armOther w pc)

/-- The traps of a script end with a session that holds nothing. -/
theorem Session.Restorable.traps (mode : RunMode) (h : s.Restorable t₀ m₀ stored [])
    (laid : frame.Laid script.withoutFp) (sessions : Nat) (traps : List Trap)
    (fits : ∀ t ∈ traps, ∀ n, Stores t.signal t.code t.faultAddress t.syndrome n → stored n) :
    (deliverTraps script mode sessions frame s traps).2.2.2.Restorable t₀ m₀ stored [] ∧
      (deliverTraps script mode sessions frame s traps).2.2.2.inGuest = false := by
  induction traps generalizing s frame with
  | nil =>
    have asked := (h.actions sessions [.interrupt]).1
    have lands := asked.onInterrupt w held
      (FrameView.ofFrame (frame.setSyndrome script.withoutFp none))
    rw [session_deliverTraps_nil]
    refine ⟨lands.restorable, ?_⟩
    have ends := (performActions sessions s [.interrupt]).2.interruptEnds_onInterrupt
      (FrameView.ofFrame (frame.setSyndrome script.withoutFp none))
    change ((performActions sessions s [.interrupt]).2.onInterrupt _).2.2.inGuest = false
    generalize (performActions sessions s [.interrupt]).2.onInterrupt _ = landed at ends
    cases ends with
    | outside out => exact out
    | stopped => rfl
    | unasked inside free =>
      -- The request to stop is there.
      cases free
  | cons t rest ih =>
    obtain ⟨lands, relaid⟩ := h.trap w held mode laid sessions t (fits t List.mem_cons_self)
    unfold deliverTraps
    dsimp only
    split
    · rename_i reason host
      exact ⟨lands.restorable, lands.outside reason host⟩
    · exact ih lands.restorable relaid fun t mem => fits t (List.mem_cons_of_mem _ mem)

/-- So a session that starts with nothing ends with nothing, also when the guest was never
entered. -/
theorem Session.Restorable.session (mode : RunMode) (h : s.Restorable t₀ m₀ stored [])
    (outside : s.inGuest = false) (sessions : Nat) (fits : ∀ n, script.StoresAt n → stored n) :
    (runSession script mode sessions s).2.2.2.Restorable t₀ m₀ stored [] ∧
      (runSession script mode sessions s).2.2.2.inGuest = false := by
  obtain ⟨acted, still⟩ := h.actions sessions script.enter
  unfold runSession
  dsimp only
  split
  · exact ⟨acted, still.trans outside⟩
  · have lands := acted.onEnter w held mode.step (FrameView.ofFrame (.blank script.withoutFp))
    have view := (FrameView.scripted_blank script.withoutFp).deliver
      (performActions sessions s script.enter).2 mode .enter 0
    split
    · rename_i reason host
      exact ⟨lands.restorable, lands.outside reason host⟩
    · exact lands.restorable.traps w held mode view.laid sessions script.traps
        fun t mem n stores => fits n ⟨t, mem, stores⟩

end

/-! ## Backends -/

theorem sites_prepare {h h' : NativeHost} {b : NativeBackend} (prepared : h.prepare b = .ok h') :
    h'.sites = h.sites := by
  unfold NativeHost.prepare at prepared
  split at prepared
  · cases prepared
    rfl
  · split at prepared <;> cases prepared
    rfl

theorem NativeCore.sites_prepare (c : NativeCore) (h : NativeHost) :
    (c.prepare h).2.sites = h.sites := by
  unfold prepare
  split
  · rfl
  · rename_i prepared
    have same := Native.sites_prepare prepared
    split <;> exact same

/-- However a backend's run ends, also before the guest was entered. -/
theorem traceless_switch {h : NativeHost} (held : ∀ s ∈ h.sites.sites, s.holders ≠ 0)
    (b : NativeBackend) (script : Script) (mode : RunMode) {a : Activation}
    (sound : a.cpu.mmu.Sound) (w : a.cpu.mmu.memory.WellFormed) :
    Traceless h.sites a.cpu.mmu.memory script.StoresAt (switch h b script mode a).host.sites
      (switch h b script mode a).activation.cpu.mmu.memory := by
  unfold switch
  split
  · exact traceless_refl _ _ _
  · rename_i h' prepared
    have same : h'.sites = h.sites := sites_prepare prepared
    dsimp only
    split
    · rw [same]
      exact traceless_refl _ _ _
    · split
      · generalize started :
          startSession script (a.drain.2.takeInterrupt.2.waitUnlocked mode.owner) h'.sites = s
        have ready : s.Restorable h.sites a.cpu.mmu.memory script.StoresAt [] := by
          subst started
          exact ⟨same ▸ undoable_refl _ _ _, sound, fun _ => rfl⟩
        obtain ⟨ended, out⟩ := ready.session w held mode (started ▸ rfl)
          (h'.sessions + 1) fun _ stores => stores
        have undoable := ended.undoable
        rw [Session.own_of_none (ended.outside out)] at undoable
        exact undoable.traceless
      · rw [same]
        exact traceless_refl _ _ _

/-- So a native run leaves no trace, whoever else holds breakpoints. -/
theorem NativeCore.traceless_execute {c : NativeCore} {memory : MemoryMap} {h : NativeHost}
    (sound : Mmu.Sound ⟨c.tlb, memory⟩) (w : memory.WellFormed)
    (held : ∀ s ∈ h.sites.sites, s.holders ≠ 0) (ref : ThreadRef) (thread : GuestThread)
    (mode : RunMode) (script : Script) :
    Traceless h.sites memory script.StoresAt
      (c.execute h memory ref thread mode script).2.2.1.sites
      (c.execute h memory ref thread mode script).2.2.2.memory := by
  unfold execute
  split
  · exact traceless_refl _ _ _
  · rename_i e entered
    have mmu := Core.mmu_enter entered
    have same : e.activation.cpu.mmu.memory = memory := congrArg Mmu.memory mmu
    rw [← mmu] at sound
    rw [← same] at w ⊢
    split
    · exact traceless_refl _ _ _
    · exact traceless_switch held c.backend script mode sound w

end GuestExec.Native
