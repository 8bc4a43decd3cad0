import GuestExec.Proofs.Machine.Coherence
import GuestExec.Proofs.Machine.Repeated
import GuestExec.Proofs.Native.Code
import GuestExec.Proofs.Native.Reentry
import GuestExec.Proofs.Native.TrapWords

/-!
# From one native run to the next

A thread that left native code whole and runs natively again, on whatever core, is
loaded with the registers it left with, if nothing wrote its registers in between.
They travel from the frame of the signal, which leads to the host by then, through
the session, the thread and the core's context cache into the frame of the enter
signal. That holds of fewer than 2^64 calls: a core that was left behind by as many
writes as it takes for the thread's stamp to come around loads what it knew.
-/

namespace GuestExec.Machine

open Native (Awaits Ends FrameView HostAction HostSignal Landing LeavesWhole NativeCore NativeHost
  Reaches Script Session ShowsOnExit SignalFrame SiteTable StepPatch TrailItem codeWord place
  skipped startSession svcTrap)

variable {m m' : Machine} {core core' thread : Nat} {step : Bool} {signal : HostSignal}
  {v v' : FrameView} {reason : HaltReason}

/-! ## Runs seen from their frames -/

/-- A native run in `m` of `thread` on `core` ended with `reason` when `signal` came with the frame
`v`, and left `m'`. -/
inductive Exits (m : Machine) (core thread : Nat) (step : Bool) (signal : HostSignal)
    (v : FrameView) (reason : HaltReason) : Machine → Prop where
  | mk {c : NativeCore} {t : GuestThread} {hostTid : Int32} {e : Core.Entered} {s : Session}
    (core_eq : m.nativeCores.get? core = some c) (thread_eq : m.threads.get? thread = some t)
    (entered : c.enter m.memory thread t owner hostTid = some e)
    (ended : Ends ⟨step, owner⟩ e.activation signal v reason s) (host : NativeHost) :
    Exits m core thread step signal v reason
      (m.settleNative core thread host (c.leave thread e s.activation c.backend reason))

/-- The enter signal of a native run in `m` of `thread` on `core` comes with the frame `v` and makes
it `v'`, with which the guest is let run. -/
inductive Loads (m : Machine) (core thread : Nat) (step : Bool) (v : FrameView) :
    FrameView → Prop where
  | mk {c : NativeCore} {t : GuestThread} {hostTid : Int32} {e : Core.Entered} {s s' : Session}
    {v' : FrameView} (core_eq : m.nativeCores.get? core = some c)
    (thread_eq : m.threads.get? thread = some t)
    (entered : c.enter m.memory thread t owner hostTid = some e)
    (awaits : Awaits ⟨step, owner⟩ e.activation s)
    (loaded : s.onEnter step v = (.guest, v', s')) : Loads m core thread step v v'

/-- Number of writes of a thread's registers so far, modulo 2^64. -/
def writes (m : Machine) (thread : Nat) : Option Nat :=
  (m.threads.get? thread).map (·.generation)

/-- Every scripted run whose last handler led to the host is one of these. -/
theorem exits_of_runNative {script : Script} {trail : List TrailItem} {notices : List Notice}
    {item : TrailItem} {landed : HaltReason}
    (ran : m.runNative core thread step script = some (reason, trail, notices, m'))
    (last : trail.getLast? = some item) (host : item.landing = .host landed) :
    ∃ signal frame, m.Exits core thread step signal (.ofFrame frame) reason m' ∧
      ShowsOnExit (.ofFrame frame) item.frame := by
  obtain ⟨c, t, host', left, core_eq, thread_eq, executed, -, rfl⟩ := exists_of_runNative ran
  unfold NativeCore.execute at executed
  split at executed
  · cases executed
    cases last
  · rename_i e entered
    split at executed
    · cases executed
      cases last
    · cases executed
      obtain ⟨signal, v, s, walked, ends, left, view⟩ := Native.exists_ends_switch last host
      rw [← walked] at ends view
      rw [left]
      exact ⟨signal, v.frame, .mk core_eq thread_eq entered ends _, view⟩

/-- So is every one that lets the guest run. -/
theorem loads_of_runNative {script : Script} {trail : List TrailItem} {notices : List Notice}
    {item : TrailItem}
    (ran : m.runNative core thread step script = some (reason, trail, notices, m'))
    (first : trail.head? = some item) (guest : item.landing = .guest) :
    ∃ frame v', m.Loads core thread step (.ofFrame frame) v' ∧ item.frame = v'.saveTo .zero := by
  obtain ⟨c, t, host', left, core_eq, thread_eq, executed, -, rfl⟩ := exists_of_runNative ran
  unfold NativeCore.execute at executed
  split at executed
  · cases executed
    cases first
  · rename_i e entered
    split at executed
    · cases executed
      cases first
    · cases executed
      obtain ⟨v, v', s, s', walked, awaits, loaded, view⟩ :=
        Native.exists_loaded_switch first guest
      rw [← walked] at loaded
      exact ⟨v.frame, v', .mk core_eq thread_eq entered awaits loaded, view⟩

/-! ## The thread in between -/

theorem Exits.evolves (h : m.Exits core thread step signal v reason m') : Evolves m m' := by
  cases h with
  | @mk c t _ e s core_eq thread_eq entered ended host =>
    obtain ⟨continues, becomes⟩ :=
      becomes_leave entered thread_eq ended.reaches.balanced c.backend reason
    exact .setThread thread_eq continues rfl (fun _ c now => ⟨c, now, .refl _ c⟩)
      fun _ _ now => Roster.exists_of_set core_eq (Becomes.refl _) becomes now

/-- A thread that left whole is stored with the registers of the frame. -/
theorem Exits.exists_stored (h : m.Exits core thread step signal v reason m')
    (whole : LeavesWhole signal reason) :
    ∃ t regs svc tpidr, m'.threads.get? thread = some t ∧ t.stored = { v.saveTo regs with
      pc := v.frame.pc + skipped reason, svc, tpidr } := by
  cases h with
  | @mk c t _ e s core_eq thread_eq entered ended host =>
    obtain ⟨regs, svc, tpidr, same⟩ := ended.exists_regs whole
    refine ⟨_, regs, svc, tpidr, Roster.get?_set_self thread_eq _, ?_⟩
    exact (Core.stored_leave c thread e s.activation c.backend reason).trans same

/-- It runs nowhere then, and other cores are as they were. -/
theorem Exits.rests (h : m.Exits core thread step signal v reason m') :
    (∃ t, m'.threads.get? thread = some t ∧ t.params.running = false) ∧
      ∀ i, i ≠ core → m'.nativeCores.get? i = m.nativeCores.get? i := by
  cases h with
  | @mk c t _ e s core_eq thread_eq entered ended host =>
    have params := Core.params_leave c thread e s.activation c.backend reason
    refine ⟨⟨_, Roster.get?_set_self thread_eq _, congrArg ThreadParams.running params⟩, ?_⟩
    intro i different
    exact (Roster.get?_set_of_get? core_eq).trans (if_neg different)

/-- Threads only go on while calls are made. -/
theorem later_foldl {t t' : GuestThread} {n : Nat} (stamped : Stamped n m.threads)
    (before : m.threads.get? thread = some t) (calls : List Call)
    (few : n + calls.length < 0x1_0000_0000_0000_0000)
    (now : (calls.foldl apply m).threads.get? thread = some t') : t.Later t' := by
  have kept := foldl_counted
    (P := fun n m => Stamped n m.threads ∧ thread < m.threads.members.size ∧
      ∀ t', m.threads.get? thread = some t' → t.Later t')
    (fun n m m' room h evolves => ?_)
    ⟨stamped, Roster.lt_of_get? before, fun t' there => ?_⟩ calls few
  · exact kept.2.2 t' now
  · obtain ⟨stamped, inside, later⟩ := h
    refine ⟨stamped.evolves evolves, Nat.lt_of_lt_of_le inside evolves.size,
      fun t'' there => ?_⟩
    rcases evolves.threads thread t'' there with ⟨t', member, continues⟩ | ⟨new, -⟩
    · have fits := Nat.lt_of_le_of_lt (Nat.succ_le_succ (stamped thread t' member)) room
      exact (later t' member).trans (continues.next.later fits)
    · exact absurd (new ▸ inside) (Nat.lt_irrefl _)
  · cases before.symm.trans there
    exact .refl t

/-- The guest is loaded with the registers that the core sees. -/
theorem Loads.exists_seen (h : m.Loads core thread step v v') :
    ∃ c t, m.nativeCores.get? core = some c ∧ m.threads.get? thread = some t ∧
      v' = v.loadFrom (c.getRegisters thread t).1 := by
  cases h with
  | @mk c t _ e s s' _ core_eq thread_eq entered awaits loaded =>
    obtain ⟨regs, outside⟩ := awaits.regs
    refine ⟨c, t, core_eq, thread_eq, ?_⟩
    rw [Session.eq_loadFrom_of_onEnter outside loaded, regs, Core.regs_enter entered]

/-- These are the ones that are stored with the thread, unless the core is ahead of it. -/
theorem Loads.exists_stored (faithful : m.Faithful) (h : m.Loads core thread step v v') :
    ∃ t, m.threads.get? thread = some t ∧ v' = v.loadFrom t.stored := by
  obtain ⟨c, t, core_eq, thread_eq, eq⟩ := h.exists_seen
  refine ⟨t, thread_eq, eq.trans (congrArg v.loadFrom ?_)⟩
  exact ((faithful.natives core_eq).truthful thread_eq).get.1

/-- A thread that runs nowhere can be run, and is loaded unless it is stopped at once. -/
theorem exists_loads {c : NativeCore} {t : GuestThread} (core_eq : m.nativeCores.get? core = some c)
    (thread_eq : m.threads.get? thread = some t) (idle : t.params.running = false)
    (script : Script) (v : FrameView) : ∃ v', m.Loads core thread false v v' := by
  obtain ⟨e, entered, -⟩ := Core.exists_enter c m.memory thread owner Native.ownTid idle
  exact ⟨_, .mk core_eq thread_eq entered (.start script {}) rfl⟩

/-! ## Nothing is lost on the way -/

/-- A thread that leaves native code on an interrupt, a step hit or a supervisor call, and enters
native code again with its registers unwritten, has in the new frame the registers that the old one
had, as long as its stamp cannot have come around. A trap that is resolved by a retry changes
nothing in the frame but the upper half of pstate. -/
theorem carries_of_loads (calls : List Call) :
    (∀ {core thread core' : Nat} {step step' : Bool} {signal : HostSignal} {reason : HaltReason}
        {frame frame' : SignalFrame} {v' : FrameView} {m₁ : Machine} {more : List Call},
      calls.length + 1 + more.length < 0x1_0000_0000_0000_0000 →
      (after calls).Exits core thread step signal (.ofFrame frame) reason m₁ →
      LeavesWhole signal reason →
      (FrameView.ofFrame frame).records.fp.isSome = true →
      (more.foldl apply m₁).writes thread = m₁.writes thread →
      (more.foldl apply m₁).Loads core' thread step' (.ofFrame frame') v' →
      (FrameView.ofFrame frame').records.fp.isSome = true →
      (FrameView.ofFrame frame).Carries (.ofFrame v'.frame) (skipped reason)) ∧
    ∀ {s : Session} {mode : RunMode} {signal : HostSignal} {code : Int} {frame : SignalFrame},
      s.Retries mode signal code (.ofFrame frame) →
      ∃ s', s.deliver mode signal code (.ofFrame frame) =
          (.guest, .ofFrame { frame with pstate := frame.pstate.toUInt32.toUInt64 }, s') ∧
        s'.threadPointer = s.threadPointer := by
  refine ⟨?_, fun retries => Session.deliver_of_retries retries⟩
  intro core thread core' step step' signal reason frame frame' v' m₁ more few exits whole fp
    unwritten loads fp'
  obtain ⟨start, hasFp⟩ := FrameView.exists_hasFp fp
  obtain ⟨start', hasFp'⟩ := FrameView.exists_hasFp fp'
  have room : calls.length + 1 < 0x1_0000_0000_0000_0000 :=
    Nat.lt_of_le_of_lt (Nat.le_add_right _ _) few
  have left := (recounted_after calls (Nat.lt_of_succ_lt room)).evolves exits.evolves room
  have faithful := (left.foldl more few).faithful
  obtain ⟨t₁, regs, svc, tpidr, there, stored⟩ := exits.exists_stored whole
  obtain ⟨t₂, entered, rfl⟩ := loads.exists_stored faithful
  have same : t₂.stored = t₁.stored := by
    have generation : t₂.generation = t₁.generation := by
      simpa only [writes, there, entered, Option.map_some, Option.some.injEq] using unwritten
    rcases later_foldl left.stamped there more few entered with lt | ⟨-, same⟩
    · exact absurd generation (Nat.ne_of_gt lt)
    · exact same
  rw [show FrameView.ofFrame _ = _ from (FrameView.walked_ofFrame frame').loadFrom t₂.stored, same,
    stored]
  exact FrameView.carries_loadFrom hasFp hasFp' regs (skipped reason) svc tpidr

/-! ## Runs that end and go on -/

/-- A script without traps. -/
def quiet : Script := { enter := [], lost := false, withoutFp := false, traps := [], peek := none }

/-- The session of a run of `a` once the guest was loaded. -/
def loaded (a : Activation) (step : Bool) : Session :=
  ((startSession quiet (a.drain.2.takeInterrupt.2.waitUnlocked owner) {}).deliver ⟨step, owner⟩
    .enter 0 (.ofFrame (.blank false))).2.2

theorem reaches_loaded (a : Activation) (step : Bool) : Reaches ⟨step, owner⟩ a (loaded a step) :=
  (Reaches.start quiet {}).deliver .enter 0 _

/-- If a signal leads to the host the run ends, and the thread can be run on any other core. -/
theorem exists_exits_and_loads {c : NativeCore} {t : GuestThread} {hostTid : Int32}
    {e : Core.Entered} {s : Session} {reason : HaltReason} (signal : HostSignal)
    (frame : SignalFrame) (core_eq : m.nativeCores.get? core = some c)
    (thread_eq : m.threads.get? thread = some t)
    (entered : c.enter m.memory thread t owner hostTid = some e)
    (reached : Reaches ⟨step, owner⟩ e.activation s)
    (landed : (s.deliver ⟨step, owner⟩ signal 0 (.ofFrame frame)).1 = .host reason)
    (other : core' ≠ core) (there : (m.nativeCores.get? core').isSome = true) (observer : Nat)
    (frame' : SignalFrame) :
    ∃ m₁ v', m.Exits core thread step signal (.ofFrame frame) reason m₁ ∧
      (m₁.apply (.observe observer)).Loads core' thread false (.ofFrame frame') v' := by
  obtain ⟨ends, -⟩ := reached.ends signal 0 landed { breakpoints := [] }
  have exits := Exits.mk core_eq thread_eq entered ends {}
  obtain ⟨⟨t', left, idle⟩, others⟩ := exits.rests
  obtain ⟨c', core_eq'⟩ := Option.isSome_iff_exists.1 there
  obtain ⟨v', loads⟩ := exists_loads
    (m := (m.settleNative core thread {} _).apply (.observe observer))
    ((others core' other).trans core_eq') left idle quiet (.ofFrame frame')
  exact ⟨_, v', exits, loads⟩

/-- A frame in the midst of the guest's code. -/
def amidst (pc : UInt64) : SignalFrame :=
  { SignalFrame.blank false with faultAddress := 0x10008, pc, pstate := 0xdeadbeef60000000 }

/-- Two native cores, and a thread about to run two `nop`s and a supervisor call. -/
def threeWords : List Call :=
  [.mapIdentity ⟨0x300000000⟩ 0x1000 ⟨true, true, true⟩,
    .writeHost ⟨0x300000000⟩
      [0x1f, 0x20, 0x03, 0xd5, 0x1f, 0x20, 0x03, 0xd5, 0xa0, 0x00, 0x3e, 0xd4],
    .addThread 7 { Registers.zero with pc := 0x300000000 }, .addNativeCore 0 {},
    .addNativeCore 1 {}]

/-- The first core can run the thread. -/
theorem exists_entered : ∃ c t e, (after threeWords).nativeCores.get? 0 = some c ∧
    (after threeWords).threads.get? 0 = some t ∧
    c.enter (after threeWords).memory 0 t owner Native.ownTid = some e ∧
    e.activation.cpu.mmu.memory = (after threeWords).memory ∧
    e.activation.cpu.regs = { Registers.zero with pc := 0x300000000 } := by
  let t := GuestThread.new 7 { Registers.zero with pc := 0x300000000 }
  obtain ⟨c, core_eq, slot⟩ : ∃ c, (after threeWords).nativeCores.get? 0 = some c ∧
    c.contexts.slot = none := ⟨_, rfl, rfl⟩
  obtain ⟨e, entered, cpu, -⟩ := Core.exists_enter c (after threeWords).memory 0 owner
    Native.ownTid (rfl : t.params.running = false)
  have missed : c.contexts.fresh? 0 t = none := by
    rw [ContextCache.fresh?, slot]
    rfl
  refine ⟨c, t, e, core_eq, rfl, entered, by rw [cpu], ?_⟩
  rw [cpu, ContextCache.activate, missed]
  rfl

/-- The third word is the supervisor call. -/
theorem codeWord_threeWords : codeWord (after threeWords).memory ⟨0x300000008⟩ = svcTrap 5 := by
  obtain ⟨r, found, bytes, base⟩ : ∃ r, (after threeWords).memory.findHost ⟨0x300000008⟩ = some r ∧
      r.backing.bytes = .write .zeros 0
        [0x1f, 0x20, 0x03, 0xd5, 0x1f, 0x20, 0x03, 0xd5, 0xa0, 0x00, 0x3e, 0xd4] ∧
      r.backing.base = ⟨0x300000000⟩ := ⟨_, rfl, rfl, rfl⟩
  have word : r.backing.bytes.read (0x300000008 - 0x300000000) 4 = [0xa0, 0x00, 0x3e, 0xd4] := by
    rw [bytes]
    simp [ByteStore.read, List.range', ByteStore.get_write]
  have behind : HostAddr.toNat ⟨0x300000008⟩ - HostAddr.toNat ⟨0x300000000⟩ =
      0x300000008 - 0x300000000 := rfl
  rw [codeWord, found]
  dsimp only
  rw [base, behind, word]
  decide

/-- A step over the first word has its breakpoint on the second. -/
theorem arm_threeWords : ∃ t m,
    StepPatch.arm {} (after threeWords).memory { Registers.zero with pc := 0x300000000 } =
      (.patched ⟨[⟨0x300000004, ⟨0x300000004⟩⟩]⟩, t, m) := by
  obtain ⟨r, found, bytes, offset, allowed⟩ : ∃ r,
      (after threeWords).memory.find ⟨0x300000000⟩ = some r ∧
      r.backing.bytes = .write .zeros 0
        [0x1f, 0x20, 0x03, 0xd5, 0x1f, 0x20, 0x03, 0xd5, 0xa0, 0x00, 0x3e, 0xd4] ∧
      r.offset ⟨0x300000000⟩ = 0 ∧ r.perms.allows .read = true := ⟨_, rfl, rfl, rfl, rfl⟩
  have nop : r.backing.bytes.read (r.offset ⟨0x300000000⟩) 4 = [0x1f, 0x20, 0x03, 0xd5] := by
    rw [bytes, offset]
    simp [ByteStore.read, List.range', ByteStore.get_write]
  have read := (settled_after threeWords).memory.read_eq found allowed (by decide)
    (Nat.zero_lt_succ 3) (by decide)
  rw [nop] at read
  have placed : (place {} (after threeWords).memory 0x300000004).1 =
    some ⟨0x300000004, ⟨0x300000004⟩⟩ := by decide
  have armed : StepPatch.arm {} (after threeWords).memory
      { Registers.zero with pc := 0x300000000 } =
        (.patched ⟨(place {} (after threeWords).memory 0x300000004).1.toList⟩,
          (place {} (after threeWords).memory 0x300000004).2) := Native.arm_nop {} read
  rw [placed] at armed
  exact ⟨_, _, armed⟩

/-- So that step ends when the guest gets there. -/
theorem landing_stepped {a : Activation} (memory : a.cpu.mmu.memory = (after threeWords).memory)
    (regs : a.cpu.regs = { Registers.zero with pc := 0x300000000 }) :
    ((loaded a true).deliver ⟨true, owner⟩ .trap 0 (.ofFrame (amidst 0x300000004))).1 =
      .host .stepThread := by
  obtain ⟨sites, m, armed⟩ := arm_threeWords
  rw [← memory, ← regs] at armed
  have enters := Session.onEnter_of_arm (v := .ofFrame (.blank false))
    (s := startSession quiet (a.drain.2.takeInterrupt.2.waitUnlocked owner) {}) rfl rfl armed
  have inside : (loaded a true).inGuest = true := by
    rw [loaded, Session.deliver, enters]
  have hit : (loaded a true).patch.any (·.hits 0x300000004) = true := by
    rw [loaded, Session.deliver, enters]
    rfl
  exact Session.landing_of_hit inside hit

/-- The guest leaves when it gets to the supervisor call. -/
theorem landing_called {a : Activation} (memory : a.cpu.mmu.memory = (after threeWords).memory) :
    ((loaded a false).deliver ⟨false, owner⟩ .trap 0 (.ofFrame (amidst 0x300000008))).1 =
      .host .supervisorCall := by
  have here : ((loaded a false).save (.ofFrame (amidst 0x300000008))).regs.pc = 0x300000008 :=
    FrameView.pc_saveTo _ _
  have word : codeWord (loaded a false).memory ⟨0x300000008⟩ = svcTrap 5 :=
    (congrArg (codeWord · _) memory).trans codeWord_threeWords
  have calls : ((loaded a false).save (.ofFrame (amidst 0x300000008))).Unpatched (svcTrap 5) :=
    { found := (congrArg (fun pc => codeWord _ ⟨pc⟩) here).trans word
      ahead := nofun
      unheld := rfl }
  rw [Session.landing_deliver_trap rfl, Session.onTrap_of_svcTrap calls (by decide) rfl]
  rfl

/-- A session whose guest is about to run into a guarded page. -/
def beforeGuarded : Session :=
  { activation :=
      { cpu :=
          { regs := .zero, stats := {}, record := none
            mmu := ⟨.empty,
              (after [.map ⟨0x10000⟩ 0x1000 .readWrite, .guard ⟨0x10000⟩ 0x1000]).memory⟩ }
        params := {}, state := .running, queue := {} }
    sites := {}, threadPointer := 5, hostThreadPointer := 6, inGuest := true, patch := none }

/-- A thread is interrupted, steps or calls its supervisor on one core and goes on at the same
place, or behind the call, on another; after the guard is gone the access is made again. -/
theorem carries_of_loads_amidst :
    (∃ m₁ v', (after threeWords).Exits 0 0 false .interrupt (.ofFrame (amidst 0x300000004))
        .breakLoop m₁ ∧
      (m₁.apply (.observe 3)).Loads 1 0 false (.ofFrame (.blank false)) v' ∧
      v'.frame.pc = 0x300000004 ∧ v'.frame.pstate = 0x60000000) ∧
    (∃ m₁ v', (after threeWords).Exits 0 0 true .trap (.ofFrame (amidst 0x300000004))
        .stepThread m₁ ∧
      (m₁.apply (.observe 3)).Loads 1 0 false (.ofFrame (.blank false)) v' ∧
      v'.frame.pc = 0x300000004) ∧
    (∃ m₁ v', (after threeWords).Exits 0 0 false .trap (.ofFrame (amidst 0x300000008))
        .supervisorCall m₁ ∧
      (m₁.apply (.observe 3)).Loads 1 0 false (.ofFrame (.blank false)) v' ∧
      v'.frame.pc = 0x30000000c) ∧
    ∃ s', beforeGuarded.deliver ⟨true, owner⟩ .segv 0 (.ofFrame (amidst 0x4000)) =
      (.guest, .ofFrame { amidst 0x4000 with pstate := 0x60000000 }, s') := by
  obtain ⟨carries, retried⟩ := carries_of_loads threeWords
  obtain ⟨c, t, e, core_eq, thread_eq, entered, memory, regs⟩ := exists_entered
  have there : ((after threeWords).nativeCores.get? 1).isSome = true := by decide +kernel
  have fp (pc : UInt64) : (FrameView.ofFrame (amidst pc)).records.fp.isSome = true := by
    rw [show (FrameView.ofFrame (amidst pc)).records = (FrameView.ofFrame (amidst 0)).records
      from rfl]
    decide +kernel
  have fp' : (FrameView.ofFrame (.blank false)).records.fp.isSome = true := by decide +kernel
  refine ⟨?_, ?_, ?_, ?_⟩
  · -- The request to stop comes while the guest runs.
    have reached := (reaches_loaded e.activation false).action 1 .interrupt
    obtain ⟨m₁, v', exits, loads⟩ := exists_exits_and_loads .interrupt
      (amidst 0x300000004) core_eq thread_eq entered reached rfl (by decide) there 3 (.blank false)
    have carried := @carries 0 0 1 false false _ _ _ _ _ _ [.observe 3] (by decide) exits
      (.interrupted .breakLoop) (fp _) rfl loads fp'
    exact ⟨m₁, v', exits, loads, carried.pc, carried.pstate⟩
  · have stepped := landing_stepped memory regs
    obtain ⟨m₁, v', exits, loads⟩ := exists_exits_and_loads .trap (amidst 0x300000004)
      core_eq thread_eq entered (reaches_loaded e.activation true) stepped (by decide) there 3
      (.blank false)
    have carried := @carries 0 0 1 true false _ _ _ _ _ _ [.observe 3] (by decide) exits .stepHit
      (fp _) rfl loads fp'
    exact ⟨m₁, v', exits, loads, carried.pc⟩
  · have called := landing_called memory
    obtain ⟨m₁, v', exits, loads⟩ := exists_exits_and_loads .trap (amidst 0x300000008)
      core_eq thread_eq entered (reaches_loaded e.activation false) called (by decide) there 3
      (.blank false)
    have carried := @carries 0 0 1 false false _ _ _ _ _ _ [.observe 3] (by decide) exits
      (.supervisorCall (by decide)) (fp _) rfl loads fp'
    exact ⟨m₁, v', exits, loads, carried.pc⟩
  · have retries : beforeGuarded.Retries ⟨true, owner⟩ .segv 0 (.ofFrame (amidst 0x4000)) :=
      .mended rfl rfl (by decide) (by decide +kernel)
    obtain ⟨s', delivered, -⟩ := retried retries
    exact ⟨s', delivered⟩

/-! ## When the stamp comes around -/

/-- The thread was run on the second core and stopped there before its first instruction. -/
def leftOnSecond : List Call := threeWords ++ [.interrupt 0, .runNative 1 0 false quiet]

/-- Its registers were written 2^64 - 1 times over since. -/
def leftBehind : List Call :=
  leftOnSecond ++ List.replicate 0xffff_ffff_ffff_ffff (.storeRegisters 0 .zero)

/-- The thread that was stopped, with other registers. -/
def stoppedThread (stamp : UInt64) (regs : Registers) : GuestThread :=
  { id := 7, stored := regs, stamp, params := { hostTid := 1 } }

theorem after_leftBehind : after leftBehind = { after leftOnSecond with
    threads := (after leftOnSecond).threads.set 0 (stoppedThread 0 .zero) } := by
  have there : (after leftOnSecond).threads.get? 0 =
      some (stoppedThread 1 { Registers.zero with pc := 0x300000000 }) := by decide +kernel
  rw [leftBehind, after_append, foldl_storeRegisters there]
  rfl

theorem Exits.exists_stamp {t : GuestThread} (h : m.Exits core thread step signal v reason m')
    (there : m.threads.get? thread = some t) :
    ∃ t', m'.threads.get? thread = some t' ∧ t'.id = t.id ∧ t'.stamp = t.stamp + 1 ∧
      t'.params.running = false := by
  cases h with
  | @mk c _ _ e s core_eq thread_eq entered ended host =>
    cases there.symm.trans thread_eq
    have left := Core.thread_leave c thread e s.activation c.backend reason
    rw [Core.thread_enter entered] at left
    refine ⟨_, Roster.get?_set_self thread_eq _, ?_⟩
    rw [left]
    exact ⟨rfl, rfl, rfl⟩

/-- The second core loads what it knew of the thread, once the first core's run is the 2^64-th write
since. -/
theorem not_carries_leftBehind :
    ∃ m₁ v', (after leftBehind).Exits 0 0 false .interrupt (.ofFrame (amidst 0x300000004))
        .breakLoop m₁ ∧
      m₁.Loads 1 0 false (.ofFrame (.blank false)) v' ∧
      ¬(FrameView.ofFrame (amidst 0x300000004)).Carries (.ofFrame v'.frame)
        (skipped .breakLoop) := by
  obtain ⟨c, core_eq⟩ : ∃ c, (after leftBehind).nativeCores.get? 0 = some c := by
    rw [after_leftBehind]
    exact Option.isSome_iff_exists.1 (by decide +kernel)
  have thread_eq : (after leftBehind).threads.get? 0 = some (stoppedThread 0 .zero) := by
    rw [after_leftBehind]
    decide +kernel
  obtain ⟨c', core_eq', held⟩ : ∃ c, (after leftBehind).nativeCores.get? 1 = some c ∧
      c.contexts.slot = some
        { thread := 0, threadId := 7, stamp := 1
          regs := { Registers.zero with pc := 0x300000000 } } := by
    rw [after_leftBehind]
    exact Option.map_eq_some_iff.1 (by decide +kernel)
  generalize after leftBehind = m at core_eq thread_eq core_eq'
  obtain ⟨e, entered, -⟩ := Core.exists_enter c m.memory 0 owner Native.ownTid
    (rfl : (stoppedThread 0 .zero).params.running = false)
  have reached := (reaches_loaded e.activation false).action 1 .interrupt
  have exits : m.Exits 0 0 false .interrupt (.ofFrame (amidst 0x300000004)) .breakLoop _ :=
    .mk core_eq thread_eq entered (reached.ends .interrupt 0 rfl { breakpoints := [] }).1 {}
  obtain ⟨t, there, id, stamp, idle⟩ := exits.exists_stamp thread_eq
  have second := (exits.rests.2 1 (by decide)).trans core_eq'
  obtain ⟨v', loads⟩ := exists_loads second there idle quiet (.ofFrame (.blank false))
  refine ⟨_, v', exits, loads, fun carried => ?_⟩
  obtain ⟨_, _, core_eq'', thread_eq'', rfl⟩ := loads.exists_seen
  cases second.symm.trans core_eq''
  cases there.symm.trans thread_eq''
  have fresh : c'.contexts.fresh? 0 t = some
      { thread := 0, threadId := 7, stamp := 1
        regs := { Registers.zero with pc := 0x300000000 } } :=
    ContextCache.fresh?_eq_some.2 ⟨held, id.symm, rfl, stamp.symm⟩
  have known : (c'.getRegisters 0 t).1 = { Registers.zero with pc := 0x300000000 } := by
    rw [Core.getRegisters, ContextCache.get, fresh]
  have pc := carried.pc
  rw [show FrameView.ofFrame _ = _ from (FrameView.walked_ofFrame _).loadFrom _,
    FrameView.pc_loadFrom, known] at pc
  exact absurd pc (by decide)

end GuestExec.Machine
