import GuestExec.Proofs.Machine.States
import GuestExec.Proofs.Trace.Completed
import GuestExec.Proofs.Trace.Fetch

/-!
# Accesses of a machine's cores

What becomes of misaligned accesses, of accesses and fetches that fault and of
loads, in every state that a core can be in after any sequence of calls.
-/

namespace GuestExec.Machine

open MemoryMap (Mended SameGuards)
open Trace (Program Tracer Retries Stuck Attempts Completes Cut Refetches bounds_of_sized
  executeOne fetchable run)
open Vcpu (Mendable Refused Blocked Aborted emulable byteAt accessOf)

/-! ## Misaligned accesses -/

/-- What comes of a misaligned access with a valid syndrome. At most one of its pages loses its
guard. If that is all the access needs it is emulated; where memory does not allow it, it is refused
and no page is mended; and if two pages stand in its way, the first is mended and the run ends. -/
theorem handle_misaligned (calls : List Call) {c : Vcpu} {info : FaultInfo} {s : Syndrome}
    (uses : (after calls).Uses c.mmu) (described : emulable info = some s) :
    (SameGuards c.mmu.memory (c.handle .alignment info).2.mmu.memory ∨
        ∃ i < s.accessSize,
          Mended c.mmu.memory (byteAt info i) (c.handle .alignment info).2.mmu.memory) ∧
      (Mendable c info s → (c.handle .alignment info).1 = .emulated ∧ ∀ i < s.accessSize,
        (c.handle .alignment info).2.mmu.memory.isGuarded (byteAt info i) = false) ∧
      (∀ k, Refused c info s k →
        Aborted c (byteAt info k) (accessOf s) (c.handle .alignment info) ∧
          SameGuards c.mmu.memory (c.handle .alignment info).2.mmu.memory) ∧
      ∀ i j, Blocked c info s i j → (c.handle .alignment info).1 = .halt .fatalError ∧
        Mended c.mmu.memory (byteAt info i) (c.handle .alignment info).2.mmu.memory := by
  have sound := sound_of_uses calls uses
  exact ⟨Vcpu.guards_handle sound described, fun h => h.handle sound described,
    fun k h => h.handle sound described, fun i j h => h.handle sound described⟩

/-- The first trace core of `m` at rest, about to run with `regs`. -/
def idle (m : Machine) (regs : Registers) : Vcpu :=
  { regs, mmu := ⟨(m.tlbOf? (.traceCore 0)).getD .empty, m.memory⟩, stats := {}, record := none }

theorem uses_idle {m : Machine} (regs : Registers) (there : (m.traceCores.get? 0).isSome = true) :
    m.Uses (idle m regs).mmu := by
  obtain ⟨c, there⟩ := Option.isSome_iff_exists.1 there
  have uses := Uses.traceRest there
  rw [idle, tlbOf?_trace there]
  exact uses

/-- Two pages, of which the first `guarded` bytes are guarded, and a core that never ran. -/
def twoPages (guarded : UInt64) : List Call :=
  [.map ⟨0x10000⟩ 0x2000 .all, .addTraceCore 0 0 {}, .guard ⟨0x10000⟩ guarded]

/-- A read of eight bytes at `addr` that faults for its alignment. -/
def misalignedRead (addr : GuestAddr) : FaultInfo :=
  { address := addr, access := .read, syndrome := some (Syndrome.alignment 8 false 3 false).word }

theorem handle_misaligned_twoPages :
    ((idle (after (twoPages 0x1000)) .zero).handle .alignment (misalignedRead ⟨0x10ffd⟩)).1 =
        .emulated ∧
      Aborted (idle (after (twoPages 0)) .zero) ⟨0x12000⟩ .read
        ((idle (after (twoPages 0)) .zero).handle .alignment (misalignedRead ⟨0x11ffd⟩)) ∧
      ((idle (after (twoPages 0x2000)) .zero).handle .alignment (misalignedRead ⟨0x10ffd⟩)).1 =
        .halt .fatalError ∧
      Mended (after (twoPages 0x2000)).memory ⟨0x10fff⟩
        ((idle (after (twoPages 0x2000)) .zero).handle .alignment
          (misalignedRead ⟨0x10ffd⟩)).2.mmu.memory := by
  have described : ∀ addr, emulable (misalignedRead addr) =
      some (Syndrome.alignment 8 false 3 false) := fun addr => by rfl
  refine ⟨?_, ?_, ?_⟩
  · have mendable : Mendable (idle (after (twoPages 0x1000)) .zero) (misalignedRead ⟨0x10ffd⟩)
        (Syndrome.alignment 8 false 3 false) := by constructor <;> decide +kernel
    exact ((handle_misaligned (twoPages 0x1000) (uses_idle .zero rfl) (described _)).2.1
      mendable).1
  · have refused : Refused (idle (after (twoPages 0)) .zero) (misalignedRead ⟨0x11ffd⟩)
        (Syndrome.alignment 8 false 3 false) 3 := by constructor <;> decide +kernel
    exact ((handle_misaligned (twoPages 0) (uses_idle .zero rfl) (described _)).2.2.1 3
      refused).1
  · have blocked : Blocked (idle (after (twoPages 0x2000)) .zero) (misalignedRead ⟨0x10ffd⟩)
        (Syndrome.alignment 8 false 3 false) 2 3 := by constructor <;> decide +kernel
    exact (handle_misaligned (twoPages 0x2000) (uses_idle .zero rfl) (described _)).2.2.2 2 3
      blocked

/-- Memory may allow a misaligned access at every byte, and the run end all the same. -/
theorem not_emulated_of_two_guards : ¬∀ (calls : List Call) (c : Vcpu) (info : FaultInfo)
    (s : Syndrome), (after calls).Uses c.mmu → emulable info = some s →
    (∀ i < s.accessSize, c.mmu.memory.allows (byteAt info i) (accessOf s) = true) →
    (c.handle .alignment info).1 = .emulated := by
  intro claim
  have emulated := claim (twoPages 0x2000) (idle (after (twoPages 0x2000)) .zero)
    (misalignedRead ⟨0x10ffd⟩) (Syndrome.alignment 8 false 3 false) (uses_idle .zero rfl) rfl
    (by decide +kernel)
  have fatal : ((idle (after (twoPages 0x2000)) .zero).handle .alignment
      (misalignedRead ⟨0x10ffd⟩)).1 = .halt .fatalError := by decide +kernel
  rw [fatal] at emulated
  cases emulated

/-- A guarded page is mended when its code is fetched, and enters the TLB. -/
def fetched (perms : Perms) : List Call :=
  [.map ⟨0x10000⟩ 0x1000 perms, .guard ⟨0x10000⟩ 0x1000, .addProgram (.ofOps ⟨0x10000⟩ []),
    .addThread 1 { Registers.zero with pc := 0x10000 }, .addTraceCore 0 0 {}, .runTrace 0 0 true 2]

/-- The guard of a page that the TLB serves escapes the search for the page in the way. -/
example : ((idle (after (fetched .all ++ [.guard ⟨0x10000⟩ 0x1000])) .zero).handle .alignment
    (misalignedRead ⟨0x10001⟩)).1 = .halt .fatalError := by decide +kernel

/-- A read that the TLB serves is made whatever the region's permissions are. -/
example : ((idle (after (fetched { execute := true })) .zero).handle .alignment
    (misalignedRead ⟨0x10001⟩)).1 = .emulated := by decide +kernel

/-! ## Retries -/

/-- A load or store of a fetchable instruction is retried at most twice, unless it is stuck. Then
it is retried for ever, and nothing ends the run of a thread that is left alone. -/
theorem retries_iff_stuck (calls : List Call) {program : Program} {owner : UInt64} {t : Tracer}
    {a : Activation} {addr : GuestAddr} {size : UInt8} {access : Access}
    (uses : (after calls).Uses a.cpu.mmu)
    (fetch : fetchable a.cpu.mmu.memory ⟨a.cpu.regs.pc⟩ = true)
    (made : (t.fetch program ⟨a.cpu.regs.pc⟩).1.dataAccess a.cpu.regs = some (addr, size, access))
    (sized : size ∈ [1, 2, 4, 8]) :
    (¬Stuck t a.cpu.mmu addr size access → ¬Retries program owner 3 t a) ∧
      (Stuck t a.cpu.mmu addr size access → (∀ n, Retries program owner n t a) ∧
        (a.params.interrupt = false → a.queue.requests = [] →
          ∀ mode rounds, run program mode rounds t a = none)) := by
  have bounds := bounds_of_sized sized
  have attempts : Attempts program t a.cpu addr size access :=
    ⟨sound_of_uses calls uses, fetch, made, bounds.1, bounds.2⟩
  exact ⟨fun free => attempts.not_retries free, fun stuck => ⟨fun n => attempts.retries stuck n,
    fun free empty mode rounds => attempts.run_eq_none stuck free empty mode rounds⟩⟩

/-- One load of eight bytes, three of them on the first page. -/
def straddlingLoad : Program := .ofOps ⟨0x12000⟩ [.load 0 31 0x10ffd 8 false]

/-- The load is made once, which fills the TLB, and then its first page is guarded. -/
def guardedAfterLoad : List Call :=
  [.map ⟨0x10000⟩ 0x3000 .all, .addProgram straddlingLoad,
    .addThread 1 { Registers.zero with pc := 0x12000 }, .addTraceCore 0 0 {},
    .runTrace 0 0 true 3, .guard ⟨0x10000⟩ 0x1000]

/-- The thread is about to make the load again. -/
def beforeLoad : Activation :=
  { cpu := idle (after guardedAfterLoad) { Registers.zero with pc := 0x12000 }
    params := {}, state := .running, queue := {} }

theorem retries_straddlingLoad :
    (∀ n, Retries straddlingLoad owner n (.new 0 false) beforeLoad) ∧
      ∀ mode rounds, run straddlingLoad mode rounds (.new 0 false) beforeLoad = none := by
  have stuck : Stuck (.new 0 false) beforeLoad.cpu.mmu ⟨0x10ffd⟩ 8 .read := by
    constructor <;> decide +kernel
  have uses : (after guardedAfterLoad).Uses beforeLoad.cpu.mmu := uses_idle _ (by decide +kernel)
  have made : ((Tracer.new 0 false).fetch straddlingLoad ⟨beforeLoad.cpu.regs.pc⟩).1.dataAccess
      beforeLoad.cpu.regs = some (⟨0x10ffd⟩, 8, .read) := by decide +kernel
  have spins : (∀ n, Retries straddlingLoad owner n (.new 0 false) beforeLoad) ∧ _ :=
    (retries_iff_stuck guardedAfterLoad uses (by decide +kernel) made (by decide)).2 stuck
  exact ⟨spins.1, spins.2 rfl rfl⟩

/-! ## Fetches -/

/-- A fetch that is retried finds its instruction the next time, unless the instruction is cut off
by the end of its region or by a guard on another page. Then it is retried for ever, and nothing
ends the run of a thread that is left alone. -/
theorem refetches_iff_cut (calls : List Call) {program : Program} {owner : UInt64} {t : Tracer}
    {a : Activation} (uses : (after calls).Uses a.cpu.mmu) :
    (¬Cut a.cpu.mmu.memory ⟨a.cpu.regs.pc⟩ → ∀ t' a',
        fetchable a.cpu.mmu.memory ⟨a.cpu.regs.pc⟩ = false →
        executeOne program owner t a = (.retry, t', a') →
        a'.cpu.regs = a.cpu.regs ∧ fetchable a'.cpu.mmu.memory ⟨a.cpu.regs.pc⟩ = true) ∧
      (Cut a.cpu.mmu.memory ⟨a.cpu.regs.pc⟩ → (∀ n, Refetches program owner n t a) ∧
        (a.params.interrupt = false → a.queue.requests = [] →
          ∀ mode rounds, run program mode rounds t a = none)) := by
  have sound := sound_of_uses calls uses
  refine ⟨fun whole t' a' failed retry => ?_, fun cut => ⟨fun n => ?_, ?_⟩⟩
  · exact Trace.fetchable_of_retry sound whole failed retry
  · exact Trace.refetches_of_cut sound cut n
  · exact fun free empty mode rounds => Trace.run_eq_none_of_cut sound cut free empty mode rounds

/-- Two pages of code, of which the second is guarded, and a core. -/
def guardedCode : List Call :=
  [.map ⟨0x10000⟩ 0x2000 .readExecute, .addTraceCore 0 0 {}, .guard ⟨0x11000⟩ 0x1000]

/-- A thread is about to run the last two bytes of the first page. -/
def atPageEnd : Activation :=
  { cpu := idle (after guardedCode) { Registers.zero with pc := 0x10ffe }
    params := {}, state := .running, queue := {} }

theorem refetches_iff_cut_atPageEnd :
    (∀ program owner n, Refetches program owner n (.new 0 false) atPageEnd) ∧
      ∀ program mode rounds, run program mode rounds (.new 0 false) atPageEnd = none := by
  have uses : (after guardedCode).Uses atPageEnd.cpu.mmu := uses_idle _ (by decide +kernel)
  have cut : Cut atPageEnd.cpu.mmu.memory ⟨0x10ffe⟩ :=
    (Trace.cut_iff (sound_of_uses guardedCode uses).memory).2 (by decide +kernel)
  have spins : ∀ program owner, (∀ n, Refetches program owner n (.new 0 false) atPageEnd) ∧
      (atPageEnd.params.interrupt = false → atPageEnd.queue.requests = [] →
        ∀ mode rounds, run program mode rounds (.new 0 false) atPageEnd = none) :=
    fun program owner => (refetches_iff_cut guardedCode uses).2 cut
  exact ⟨fun program owner => (spins program owner).1,
    fun program => (spins program 0).2 rfl rfl⟩

/-! ## Loads -/

/-- A load that completes has read bytes whose region allows reading, or bytes that the TLB had
for the sake of a write or a fetch; and one that the TLB serves completes whatever its region
allows. -/
theorem load_completes (calls : List Call) {program : Program} {owner : UInt64} {t : Tracer}
    {a : Activation} {addr : GuestAddr} {size : UInt8} (uses : (after calls).Uses a.cpu.mmu)
    (fetch : fetchable a.cpu.mmu.memory ⟨a.cpu.regs.pc⟩ = true)
    (made : (t.fetch program ⟨a.cpu.regs.pc⟩).1.dataAccess a.cpu.regs = some (addr, size, .read))
    (sized : size ∈ [1, 2, 4, 8]) :
    (Completes program owner t a → ∀ i < size.toNat,
      a.cpu.mmu.memory.allows (addr + UInt64.ofNat i) .read = true ∨
        (a.cpu.mmu.served (addr + UInt64.ofNat i) .read = true ∧
          a.cpu.mmu.memory.isGuarded (addr + UInt64.ofNat i) = false ∧
          (a.cpu.mmu.memory.allows (addr + UInt64.ofNat i) .write = true ∨
            a.cpu.mmu.memory.allows (addr + UInt64.ofNat i) .execute = true))) ∧
      ((∀ i < size.toNat, a.cpu.mmu.served (addr + UInt64.ofNat i) .read = true ∧
          a.cpu.mmu.memory.isGuarded (addr + UInt64.ofNat i) = false) →
        Completes program owner t a) := by
  have bounds := bounds_of_sized sized
  have attempts : Attempts program t a.cpu addr size .read :=
    ⟨sound_of_uses calls uses, fetch, made, bounds.1, bounds.2⟩
  refine ⟨fun done i inside => ?_, fun ready => ?_⟩
  · exact (attempts.granted sized done i inside).read attempts.sound
  · exact attempts.completes sized owner (fun i inside => (ready i inside).1)
      fun i inside => (ready i inside).2

/-- A store of eight bytes and a load of the same bytes. -/
def storeThenLoad : Program :=
  .ofOps ⟨0x12000⟩ [.store 0 31 0x10000 8, .load 1 31 0x10000 8 false]

/-- The store is made, to a page that allows writing and nothing else. -/
def afterStore : List Call :=
  [.map ⟨0x12000⟩ 0x1000 .all, .map ⟨0x10000⟩ 0x1000 { write := true },
    .addProgram storeThenLoad, .addThread 1 { Registers.zero with pc := 0x12000 },
    .addTraceCore 0 0 {}, .runTrace 0 0 true 2]

/-- The thread is about to make the load. -/
def atLoad (calls : List Call) : Activation :=
  { cpu := idle (after calls) { Registers.zero with pc := 0x12004 }
    params := {}, state := .running, queue := {} }

theorem load_completes_afterStore :
    (∀ i < 8, (atLoad afterStore).cpu.mmu.memory.allows ⟨0x10000 + UInt64.ofNat i⟩ .read = false) ∧
      Completes storeThenLoad owner (.new 0 false) (atLoad afterStore) ∧
      (executeOne storeThenLoad owner (.new 0 false)
        (atLoad (afterStore ++ [.invalidateTlb 0]))).1 = .halt .dataAbort false := by
  have ready : ∀ i < 8,
      (atLoad afterStore).cpu.mmu.served ⟨0x10000 + UInt64.ofNat i⟩ .read = true ∧
        (atLoad afterStore).cpu.mmu.memory.isGuarded ⟨0x10000 + UInt64.ofNat i⟩ = false := by
    decide +kernel
  have made : ((Tracer.new 0 false).fetch storeThenLoad
      ⟨(atLoad afterStore).cpu.regs.pc⟩).1.dataAccess (atLoad afterStore).cpu.regs =
        some (⟨0x10000⟩, 8, .read) := by decide +kernel
  refine ⟨by decide +kernel, ?_, by decide +kernel⟩
  exact (load_completes afterStore (uses_idle _ (by decide +kernel)) (by decide +kernel) made
    (by decide)).2 ready

end GuestExec.Machine
