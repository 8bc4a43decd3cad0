import GuestExec.Proofs.Machine.Coherence
import GuestExec.Proofs.Memory.Calls
import GuestExec.Proofs.Native.Traceless

/-!
# What a call makes of the map

A call on a machine asks the map for the same, or it is a run, or it leaves the map
and the sites that steps hold in it as they are (`reshapes_apply`). An invariant of
the map needs one case for each of these, not one for every call.
-/

namespace GuestExec

open Native (NativeCore)

/-- A call on the map, made through a machine. -/
def Call.ofMap : MemoryMap.Call → Call
  | .map addr size perms => .map addr size perms
  | .mapIdentity addr size perms => .mapIdentity addr size perms
  | .unmap addr => .unmap addr
  | .protect addr perms => .protect addr perms
  | .remap addr => .remap addr
  | .guard addr size => .guard addr size
  | .resolveFault addr access => .resolveFault addr access
  | .write addr data => .write addr data
  | .writeHost host data => .writeHost host data
  | .placeNext next => .placeNext next
  | .losePage addr => .losePage addr

namespace Machine

variable {m m' : Machine} {call : Call} {calls : List Call}

inductive Reshapes (m : Machine) : Call → Machine → Prop where
  | asked {m' : Machine} (call : MemoryMap.Call) : m'.memory = m.memory.apply call →
    m'.nativeHost = m.nativeHost → Reshapes m (.ofMap call) m'
  | ranTrace {m' : Machine} {core thread rounds : Nat} {step : Bool} {reason : HaltReason}
    {notices : List Notice} :
    m.runTrace core thread step rounds = some (reason, notices, m') →
    Reshapes m (.runTrace core thread step rounds) m'
  | ranNative {m' : Machine} {core thread : Nat} {step : Bool} {script : Native.Script}
    {reason : HaltReason} {trail : List Native.TrailItem} {notices : List Notice} :
    m.runNative core thread step script = some (reason, trail, notices, m') →
    Reshapes m (.runNative core thread step script) m'
  | kept {call : Call} {m' : Machine} : m'.memory = m.memory →
    m'.nativeHost.sites = m.nativeHost.sites → Reshapes m call m'

/-! ## Calls on the map -/

/-- Telling of a change is no matter of the map. -/
theorem memory_announce (m : Machine) (change : MappingChange) :
    (m.announce change).2.memory = m.memory ∧
      (m.announce change).2.nativeHost = m.nativeHost := by
  rw [(told_announce m change).rest]
  exact ⟨rfl, rfl⟩

theorem memory_apply_ofMap (m : Machine) (call : MemoryMap.Call) :
    (m.apply (.ofMap call)).memory = m.memory.apply call ∧
      (m.apply (.ofMap call)).nativeHost = m.nativeHost := by
  cases call with
  | map addr size perms =>
    simp only [Call.ofMap, apply, Machine.map, MemoryMap.apply]
    cases m.memory.map addr size perms <;> exact ⟨rfl, rfl⟩
  | mapIdentity addr size perms =>
    simp only [Call.ofMap, apply, Machine.mapIdentity, MemoryMap.apply]
    cases m.memory.mapIdentity addr size perms <;> exact ⟨rfl, rfl⟩
  | unmap addr =>
    simp only [Call.ofMap, apply, Machine.unmap, MemoryMap.apply]
    cases m.memory.unmap addr with
    | error e => exact ⟨rfl, rfl⟩
    | ok done => exact memory_announce (m.withMemory done.2) done.1
  | protect addr perms =>
    simp only [Call.ofMap, apply, Machine.protect, MemoryMap.apply]
    cases m.memory.protect addr perms with
    | error e => exact ⟨rfl, rfl⟩
    | ok done => exact memory_announce (m.withMemory done.2) done.1
  | remap addr =>
    simp only [Call.ofMap, apply, Machine.remap, MemoryMap.apply]
    cases m.memory.remap addr with
    | error e => exact ⟨rfl, rfl⟩
    | ok done => exact memory_announce (m.withMemory done.2.2) done.2.1
  | _ => exact ⟨rfl, rfl⟩

theorem reshapes_ofMap (m : Machine) (call : MemoryMap.Call) :
    Reshapes m (.ofMap call) (m.apply (.ofMap call)) :=
  .asked call (memory_apply_ofMap m call).1 (memory_apply_ofMap m call).2

/-! ## Every call -/

theorem reshapes_apply (m : Machine) (call : Call) : Reshapes m call (m.apply call) := by
  have refused : Reshapes m call m := .kept rfl rfl
  cases call with
  | map addr size perms => exact reshapes_ofMap m (.map addr size perms)
  | mapIdentity addr size perms => exact reshapes_ofMap m (.mapIdentity addr size perms)
  | unmap addr => exact reshapes_ofMap m (.unmap addr)
  | protect addr perms => exact reshapes_ofMap m (.protect addr perms)
  | remap addr => exact reshapes_ofMap m (.remap addr)
  | guard addr size => exact reshapes_ofMap m (.guard addr size)
  | resolveFault addr access => exact reshapes_ofMap m (.resolveFault addr access)
  | write addr data => exact reshapes_ofMap m (.write addr data)
  | writeHost host data => exact reshapes_ofMap m (.writeHost host data)
  | placeNext next => exact reshapes_ofMap m (.placeNext next)
  | losePage addr => exact reshapes_ofMap m (.losePage addr)
  | runTrace core thread step rounds => exact getD_map refused fun _ done => .ranTrace done
  | runNative core thread step script => exact getD_map refused fun _ done => .ranNative done
  | storeRegisters | claim | setRunning | setHostTid | interrupt | lock | invalidateCode |
      invalidateTlb | queueBusy | lookupTlb | invalidateNative | invalidateNativeTlb =>
    exact getD_map refused fun _ done => by
      obtain ⟨c, -, done⟩ := Option.bind_eq_some_iff.1 done
      cases done
      exact .kept rfl rfl
  | unlock | updateRegisters | getRegisters | interruptNative =>
    exact getD_map refused fun _ done => by
      obtain ⟨c, -, done⟩ := Option.bind_eq_some_iff.1 done
      obtain ⟨t, -, done⟩ := Option.bind_eq_some_iff.1 done
      cases done
      exact .kept rfl rfl
  | prepareNative core =>
    exact getD_map refused fun _ done => by
      obtain ⟨c, -, done⟩ := Option.bind_eq_some_iff.1 done
      cases done
      exact .kept rfl (NativeCore.sites_prepare c m.nativeHost)
  | addTraceCore | addNativeCore =>
    exact getD_toOption refused fun _ done => by
      obtain ⟨c, -, done⟩ := map_eq_ok done
      cases done
      exact .kept rfl rfl
  | _ => exact .kept rfl rfl

/-! ## While the host keeps its pages -/

/-- Only the host can take a page away. -/
theorem Settled.wellFormed_apply (h : m.Settled) (w : m.memory.WellFormed)
    (kept : ∀ a, call ≠ .losePage a) : (m.apply call).memory.WellFormed := by
  have shape := reshapes_apply m call
  generalize m.apply call = m' at shape ⊢
  cases shape with
  | asked asked memory host =>
    rw [memory]
    refine w.apply fun a same => kept a ?_
    rw [same]
    rfl
  | ranTrace ran =>
    obtain ⟨c, t, program, left, there, -, -, executed, -, rfl⟩ := exists_of_runTrace ran
    exact (Trace.follows_execute (h.sound_trace there) executed).frames.wellFormed w
  | @ranNative _ core thread step script _ _ _ ran =>
    obtain ⟨c, t, host, left, there, -, executed, -, rfl⟩ := exists_of_runNative ran
    have follows := Native.follows_execute (h.sound_native there) m.nativeHost thread t
      ⟨step, owner⟩ script
    rw [executed] at follows
    exact follows.frames.wellFormed w
  | kept memory sites => rwa [memory]

theorem wellFormed_after (kept : ∀ a, .losePage a ∉ calls) : (after calls).memory.WellFormed := by
  have both : ∀ m : Machine, m.Settled ∧ m.memory.WellFormed → ∀ call ∈ calls,
      (m.apply call).Settled ∧ (m.apply call).memory.WellFormed := by
    rintro m ⟨settled, w⟩ call mem
    exact ⟨settled.apply call, settled.wellFormed_apply w fun a same => kept a (same ▸ mem)⟩
  exact (List.foldlRecOn calls apply ⟨settled_initial, MemoryMap.wellFormed_empty⟩ both).2

end Machine

end GuestExec
