import GuestExec.Proofs.Machine.Unmarked

/-!
# Native runs leave no trace

A run on a native core finds the machine's map and table, or what other runs made of
them that are under way: their steps place breakpoints and let them go, their guests
store and run into guards. Whatever the run's script says, it gives the table back as
it found it, and the code and its protection too.
-/

namespace GuestExec.Machine

open Native

/-- What a run of `m` may find while other runs hold the breakpoints `live`. -/
inductive Finds (m : Machine) : List Breakpoint → SiteTable → MemoryMap → Prop where
  | start : Finds m [] m.nativeHost.sites m.memory
  /-- Another run prepares a step. -/
  | arm {live : List Breakpoint} {t : SiteTable} {memory : MemoryMap} (regs : Registers) :
    Finds m live t memory → Finds m ((StepPatch.arm t memory regs).1.breakpoints ++ live)
      (StepPatch.arm t memory regs).2.1 (StepPatch.arm t memory regs).2.2
  /-- A step of another run is over. -/
  | disarm {live live' : List Breakpoint} {t : SiteTable} {memory : MemoryMap} (p : StepPatch) :
    live.Perm (p.breakpoints ++ live') → Finds m live t memory →
    Finds m live' (p.disarm t memory).1 (p.disarm t memory).2
  /-- The guest of another run stores bytes. -/
  | store {live : List Breakpoint} {t : SiteTable} {memory memory' : MemoryMap} {host : HostAddr}
    {data : List UInt8} : memory.writeHost host data = .ok memory' →
    Finds m live t memory → Finds m live t memory'
  /-- It runs into a guard. -/
  | fault {live : List Breakpoint} {t : SiteTable} {memory : MemoryMap} (a : GuestAddr)
    (access : Access) : Finds m live t memory → Finds m live t (memory.resolveFault a access).2

variable {m : Machine} {core : Nat} {c : NativeCore} {live : List Breakpoint} {t : SiteTable}
  {memory : MemoryMap} {h : NativeHost}

/-- Sites that a run finds belong to breakpoints that are held. -/
theorem Finds.undoable (found : m.Finds live t memory) (w : m.memory.WellFormed)
    (unmarked : m.Unmarked) : Undoable {} m.memory (fun _ => True) live t memory := by
  induction found with
  | start =>
    rw [unmarked.sites]
    exact undoable_refl _ _ _
  | arm regs _ ih => exact ih.arm w.toRegular regs
  | disarm p same _ ih => exact (ih.perm same).disarm w (List.forall_mem_nil _)
  | store written _ ih => exact ih.forget ((ih.eases.regular w.toRegular).eases_writeHost written)
  | fault a access _ ih =>
    exact ih.forget ((ih.eases.regular w.toRegular).eases_resolveFault a access)

/-- A run of `script` that found the host `h` and the map `memory` left `h'` and `memory'`. -/
structure NoTrace (script : Script) (h : NativeHost) (memory : MemoryMap) (h' : NativeHost)
    (memory' : MemoryMap) : Prop where
  sites : h'.sites = h.sites
  /-- Instructions are in their place, unless a handler stored there for the guest. -/
  words : ∀ a r, memory.find a = some r → a.word % 4 = 0 →
    (∀ i < 4, ¬script.StoresAt (a.toNat + i)) →
    codeWord memory' (r.mapping.hostAddr a) = codeWord memory (r.mapping.hostAddr a)
  /-- Pages of identity blocks that can be accessed are protected as they were. -/
  pages : ∀ a r, memory.find a = some r → r.backing.isIdentity = true →
    memory.isGuarded a = false →
    pageProtection memory' (r.mapping.hostAddr a) = pageProtection memory (r.mapping.hostAddr a)

/-- However a native run or step ends, it leaves the table of sites, the code and its protection as
it found them, on a host that keeps its pages. -/
theorem noTrace_of_finds {calls : List Call} (kept : ∀ a, .losePage a ∉ calls)
    (there : (after calls).nativeCores.get? core = some c)
    (found : (after calls).Finds live h.sites memory) (ref : ThreadRef) (thread : GuestThread)
    (mode : RunMode) (script : Script) :
    NoTrace script h memory (c.execute h memory ref thread mode script).2.2.1
      (c.execute h memory ref thread mode script).2.2.2.memory := by
  have unmarked := unmarked_after kept
  have whole := wellFormed_after kept
  have sound := (settled_after calls).sound_native there
  have undoable := found.undoable whole unmarked
  have eases := undoable.eases
  have w := eases.wellFormed whole
  have traceless := NativeCore.traceless_execute (sound.setMemory eases.toSameFrames).sound w
    (undoable.held (List.forall_mem_nil _)) ref thread mode script
  constructor
  · exact traceless.sites
  · intro a r there aligned unstored
    exact traceless.words _ (w.spared there aligned unstored)
  · intro a r there identity free
    exact traceless.pageProtection w (eases.shielded unmarked.shielded) there identity free

/-- A page of code that starts with two `nop`s. -/
def steppedCode : List Call :=
  [.mapIdentity ⟨0x300000000⟩ 0x1000 .all,
    .writeHost ⟨0x300000000⟩ [0x1f, 0x20, 0x03, 0xd5, 0x1f, 0x20, 0x03, 0xd5],
    .addNativeCore 0 {}]

/-- Registers of a thread before the `nop` at `pc`. -/
def before (pc : UInt64) : Registers := { Registers.zero with pc }

/-- Another run is about to step the second `nop`. -/
def besides : Armed × SiteTable × MemoryMap :=
  StepPatch.arm (after steppedCode).nativeHost.sites (after steppedCode).memory (before 0x300000004)

/-- The run whose trace is looked for steps the first one, and gets to the second. -/
def nextNop : Script :=
  { enter := [], lost := false, withoutFp := true, peek := none
    traps :=
      [{ actions := [], edit := { pc := some 0x300000004 }, threadPointer := none, faultAddress := 0
         syndrome := none, signal := .trap, code := 0, otherStep := none }] }

theorem besides_eq : besides =
    (.patched ⟨(place {} (after steppedCode).memory 0x300000008).1.toList⟩,
      (place {} (after steppedCode).memory 0x300000008).2) := by
  obtain ⟨r, found, bytes, offset, allowed⟩ : ∃ r,
      (after steppedCode).memory.find ⟨0x300000004⟩ = some r ∧
      r.backing.bytes = .write .zeros 0 [0x1f, 0x20, 0x03, 0xd5, 0x1f, 0x20, 0x03, 0xd5] ∧
      r.offset ⟨0x300000004⟩ = 4 ∧ r.perms.allows .read = true := ⟨_, rfl, rfl, rfl, rfl⟩
  have nop : r.backing.bytes.read (r.offset ⟨0x300000004⟩) 4 = [0x1f, 0x20, 0x03, 0xd5] := by
    rw [bytes, offset]
    simp [ByteStore.read, List.range', ByteStore.get_write]
  have w := (settled_after steppedCode).memory
  have read := w.read_eq found allowed (by decide +kernel) (Nat.zero_lt_succ 3) (by decide)
  rw [nop] at read
  exact arm_nop _ read

/-- The step of the first `nop` patches the second one. -/
theorem patched_besides :
    (StepPatch.arm besides.2.1 besides.2.2 (before 0x300000000)).1 =
      .patched ⟨[⟨0x300000004, ⟨0x300000004⟩⟩]⟩ := by
  have settled := (settled_after steppedCode).memory
  have w : besides.2.2.Regular := (sameFrames_arm settled _ _).regular settled
  rw [besides_eq] at w ⊢
  obtain ⟨r, word, found, bytes, offset, allowed⟩ : ∃ r word,
      (place {} (after steppedCode).memory 0x300000008).2.2.find ⟨0x300000000⟩ = some r ∧
      r.backing.bytes =
        .write (.write .zeros 0 [0x1f, 0x20, 0x03, 0xd5, 0x1f, 0x20, 0x03, 0xd5]) 8 word ∧
      r.offset ⟨0x300000000⟩ = 0 ∧ r.perms.allows .read = true := ⟨_, _, rfl, rfl, rfl, rfl⟩
  have nop : r.backing.bytes.read (r.offset ⟨0x300000000⟩) 4 = [0x1f, 0x20, 0x03, 0xd5] := by
    rw [bytes, offset]
    simp [ByteStore.read, List.range', ByteStore.get_write]
  have read := w.read_eq found allowed (by decide) (Nat.zero_lt_succ 3) (by decide)
  rw [nop] at read
  rw [arm_nop _ read]
  decide

/-- A run steps while another one steps the same page, whose breakpoint it finds and leaves. -/
theorem noTrace_of_finds_steppedCode :
    besides.1 = .patched ⟨[⟨0x300000008, ⟨0x300000008⟩⟩]⟩ ∧
      (StepPatch.arm besides.2.1 besides.2.2 (before 0x300000000)).1 =
        .patched ⟨[⟨0x300000004, ⟨0x300000004⟩⟩]⟩ ∧
      ∃ c, (after steppedCode).nativeCores.get? 0 = some c ∧
        NoTrace nextNop { sites := besides.2.1 } besides.2.2
          (c.execute { sites := besides.2.1 } besides.2.2 0 (.new 1 (before 0x300000000))
            ⟨true, owner⟩ nextNop).2.2.1
          (c.execute { sites := besides.2.1 } besides.2.2 0 (.new 1 (before 0x300000000))
            ⟨true, owner⟩ nextNop).2.2.2.memory := by
  obtain ⟨c, there⟩ : ∃ c, (after steppedCode).nativeCores.get? 0 = some c :=
    Option.isSome_iff_exists.1 (by decide +kernel)
  refine ⟨?_, patched_besides, c, there, ?_⟩
  · rw [besides_eq]
    decide
  · have kept : ∀ a, .losePage a ∉ steppedCode := fun a => by simp [steppedCode]
    exact noTrace_of_finds kept there (.arm _ .start) 0 _ ⟨true, owner⟩ nextNop

end GuestExec.Machine
