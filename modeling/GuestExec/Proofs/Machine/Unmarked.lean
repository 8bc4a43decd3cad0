import GuestExec.Proofs.Machine.Reshaped
import GuestExec.Proofs.Trace.Eased

/-!
# Between runs nothing is patched

Between calls no step holds a breakpoint: the table of sites is empty, and the pages
of identity blocks are protected as their regions say. A change of the map renews
single regions, a traced run eases the map, and a native run undoes what it did if
the host lets it.
-/

namespace GuestExec.Machine

open Native (NativeCore)

variable {m m' : Machine} {core thread : Nat} {step : Bool} {reason : HaltReason}
  {notices : List Notice}

/-- Nothing in the machine is patched. -/
structure Unmarked (m : Machine) : Prop where
  shielded : m.memory.Shielded
  sites : m.nativeHost.sites = {}

theorem unmarked_initial : ({} : Machine).Unmarked := ⟨MemoryMap.shielded_empty, rfl⟩

namespace Unmarked

/-! ## Runs -/

theorem runTrace {rounds : Nat} (h : m.Unmarked) (settled : m.Settled)
    (ran : m.runTrace core thread step rounds = some (reason, notices, m')) : m'.Unmarked := by
  obtain ⟨c, t, program, left, -, -, -, executed, -, rfl⟩ := exists_of_runTrace ran
  exact ⟨(Trace.eases_execute settled.memory executed).shielded h.shielded, h.sites⟩

theorem runNative {script : Native.Script} {trail : List Native.TrailItem} (h : m.Unmarked)
    (settled : m.Settled) (w : m.memory.WellFormed)
    (ran : m.runNative core thread step script = some (reason, trail, notices, m')) :
    m'.Unmarked := by
  obtain ⟨c, t, host, left, there, -, executed, -, rfl⟩ := exists_of_runNative ran
  have held : ∀ s ∈ m.nativeHost.sites.sites, s.holders ≠ 0 := by
    rw [h.sites]
    exact List.forall_mem_nil _
  have traceless := NativeCore.traceless_execute (settled.sound_native there) w held thread t
    ⟨step, owner⟩ script
  rw [executed] at traceless
  exact ⟨traceless.eases.shielded h.shielded, traceless.sites.trans h.sites⟩

/-! ## Every call -/

theorem apply (h : m.Unmarked) (settled : m.Settled) (whole : m.memory.WellFormed) (call : Call) :
    (m.apply call).Unmarked := by
  have shape := reshapes_apply m call
  generalize m.apply call = m' at shape ⊢
  cases shape with
  | asked asked memory host =>
    refine ⟨?_, host ▸ h.sites⟩
    rw [memory]
    exact (MemoryMap.renewed_apply settled.memory asked).shielded h.shielded
  | ranTrace ran => exact h.runTrace settled ran
  | ranNative ran => exact h.runNative settled whole ran
  | kept memory sites => exact ⟨memory ▸ h.shielded, sites.trans h.sites⟩

end Unmarked

theorem unmarked_after {calls : List Call} (kept : ∀ a, .losePage a ∉ calls) :
    (after calls).Unmarked := by
  have all : ∀ m : Machine, m.Settled ∧ m.memory.WellFormed ∧ m.Unmarked → ∀ call ∈ calls,
      (m.apply call).Settled ∧ (m.apply call).memory.WellFormed ∧ (m.apply call).Unmarked := by
    rintro m ⟨settled, whole, unmarked⟩ call mem
    exact ⟨settled.apply call, settled.wellFormed_apply whole fun a same => kept a (same ▸ mem),
      unmarked.apply settled whole call⟩
  exact (List.foldlRecOn calls apply
    ⟨settled_initial, MemoryMap.wellFormed_empty, unmarked_initial⟩ all).2.2

end GuestExec.Machine
