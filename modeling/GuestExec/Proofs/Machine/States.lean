import GuestExec.Proofs.Machine.Coherence

/-!
# The access units of a machine's cores

A core works with its own TLB and the machine's map, at rest and at every point
of a run. `Uses` collects these access units. After any sequence of calls all
of them are sound (`sound_of_uses`).
-/

namespace GuestExec

namespace Trace

/-- The states between two rounds of a run that began with `t₀` and `a₀`. -/
inductive Reaches (program : Program) (mode : RunMode) (t₀ : Tracer) (a₀ : Activation) :
    Tracer → Activation → Prop where
  | start : Reaches program mode t₀ a₀ t₀ a₀
  | round {t t' : Tracer} {a a' : Activation} : Reaches program mode t₀ a₀ t a →
    round program mode t a = (.continues, t', a') → Reaches program mode t₀ a₀ t' a'

theorem Reaches.follows {program : Program} {mode : RunMode} {t₀ t : Tracer} {a₀ a : Activation}
    (h : Reaches program mode t₀ a₀ t a) (s : a₀.cpu.mmu.Sound) : a₀.cpu.mmu.Follows a.cpu.mmu := by
  induction h with
  | start => exact s.follows
  | @round t t' a a' _ eq ih =>
    have next := follows_round ih.sound program mode t
    rw [eq] at next
    exact ih.trans next

end Trace

namespace Machine

/-- `u` is the access unit of a core of `m`, at rest or at some point of a run. -/
inductive Uses (m : Machine) : Mmu → Prop where
  | traceRest {core : Nat} {c : Trace.TraceCore} (there : m.traceCores.get? core = some c) :
    Uses m ⟨c.tlb, m.memory⟩
  | traceRun {core thread : Nat} {c : Trace.TraceCore} {th : GuestThread}
    {program : Trace.Program} {mode : RunMode} {hostTid : Int32} {e : Core.Entered}
    {t : Trace.Tracer} {a : Activation} (there : m.traceCores.get? core = some c)
    (entered : c.enter m.memory thread th mode.owner hostTid = some e)
    (reached : Trace.Reaches program mode c.backend e.activation t a) : Uses m a.cpu.mmu
  | nativeRest {core : Nat} {c : Native.NativeCore} (there : m.nativeCores.get? core = some c) :
    Uses m ⟨c.tlb, m.memory⟩
  | nativeRun {core thread : Nat} {c : Native.NativeCore} {th : GuestThread} {mode : RunMode}
    {hostTid : Int32} {e : Core.Entered} {s : Native.Session}
    (there : m.nativeCores.get? core = some c)
    (entered : c.enter m.memory thread th mode.owner hostTid = some e)
    (reached : Native.Reaches mode e.activation s) : Uses m s.mmu

theorem Settled.sound {m : Machine} (h : m.Settled) {u : Mmu} (uses : m.Uses u) : u.Sound := by
  cases uses with
  | traceRest there => exact h.sound_trace there
  | traceRun there entered reached =>
    have sound := h.sound_trace there
    rw [← Core.mmu_enter entered] at sound
    exact (reached.follows sound).sound
  | nativeRest there => exact h.sound_native there
  | nativeRun there entered reached =>
    have sound := h.sound_native there
    rw [← Core.mmu_enter entered] at sound
    exact (reached.follows sound).sound

/-- After any sequence of calls, the cores' access units are sound. -/
theorem sound_of_uses (calls : List Call) {u : Mmu} (uses : (after calls).Uses u) : u.Sound :=
  (settled_after calls).sound uses

end Machine

end GuestExec
