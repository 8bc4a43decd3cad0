import GuestExec.Proofs.Machine.Evolution

/-!
# The threads that cores remember

Whatever was called before, in fewer than 2^64 calls, a core that is asked for a
thread's registers, or runs it, goes by the registers that are stored with the
thread. `Faithful` is the invariant: no core's slot is ahead of the thread that it
names, and where it is level with it they agree. It is kept while stamps have
room, and a call writes a thread at most once (`Recounted`). A trace core is as
strict about alignment as its configuration says after any number of calls.
-/

namespace GuestExec.Machine

open Native (NativeCore)
open Trace (TraceCore)

variable {m m' : Machine} {β : Type} {n : Nat}

/-- The cache is not ahead of a thread and knows of no threads to come. -/
structure Knows (threads : Roster GuestThread) (contexts : ContextCache) : Prop where
  truthful : ∀ {thread t}, threads.get? thread = some t → contexts.Truthful thread t
  known : ∀ {slot}, contexts.slot = some slot → slot.thread < threads.members.size

theorem knows_empty {threads : Roster GuestThread} {contexts : ContextCache}
    (empty : contexts.slot = none) : Knows threads contexts := by
  refine ⟨fun _ s filled => ?_, fun filled => ?_⟩ <;>
  · rw [empty] at filled
    cases filled

/-- No thread was written more than `n` times. -/
def Stamped (n : Nat) (threads : Roster GuestThread) : Prop :=
  ∀ thread t, threads.get? thread = some t → t.generation ≤ n

/-- A call writes each thread at most once. -/
theorem Stamped.evolves (h : Stamped n m.threads) (evolves : Evolves m m') :
    Stamped (n + 1) m'.threads := by
  intro thread t' member
  rcases evolves.threads thread t' member with ⟨t, before, continues⟩ | ⟨-, id, regs, rfl⟩
  · exact Nat.le_trans continues.next.generation_le (Nat.succ_le_succ (h thread t before))
  · exact Nat.zero_le _

/-- A cache that knew the threads knows what has become of them. -/
theorem Knows.evolves {c c' : Core β} (h : Knows m.threads c.contexts) (evolves : Evolves m m')
    (stamped : Stamped n m.threads) (room : n + 1 < 0x1_0000_0000_0000_0000)
    (becomes : Becomes m'.threads c c') : Knows m'.threads c'.contexts := by
  refine ⟨fun {thread t'} member => ?_, fun {slot} filled => ?_⟩
  · rcases becomes.slot with same | ⟨s, i, t, filled, now, current⟩
    · rcases evolves.threads thread t' member with ⟨t, before, continues⟩ | ⟨here, -⟩
      · have later := continues.next.later
          (Nat.lt_of_le_of_lt (Nat.succ_le_succ (stamped thread t before)) room)
        have truthful := (h.truthful before).later later
        exact fun s filled => truthful s (same ▸ filled)
      · -- No slot is of the new thread.
        intro s filled whose
        have lt := h.known (same ▸ filled)
        rw [whose, here] at lt
        exact absurd lt (Nat.lt_irrefl _)
    · intro s' filled' whose
      cases filled.symm.trans filled'
      obtain rfl : i = thread := current.thread.symm.trans whose
      cases now.symm.trans member
      exact ⟨Nat.le_of_eq (congrArg UInt64.toNat current.stamp), fun _ => current.regs⟩
  · rcases becomes.slot with same | ⟨s, i, t, filled', now, current⟩
    · exact Nat.lt_of_lt_of_le (h.known (same ▸ filled)) evolves.size
    · cases filled'.symm.trans filled
      rw [current.thread]
      exact Roster.lt_of_get? now

/-! ## Trace cores as they are made -/

theorem new_traceCore {index program : Nat} {config : CoreConfig} {c : TraceCore}
    (new : TraceCore.new index config program = .ok c) :
    c.contexts.slot = none ∧ c.record = none ∧
      c.backend.strictAlignment = c.config.strictAlignment := by
  rw [TraceCore.new, Core.new] at new
  split at new
  · cases new
  · cases new
    exact ⟨rfl, rfl, rfl⟩

/-- Trace cores are as strict as they were made. -/
theorem strict_after (calls : List Call) {core : Nat} {c : TraceCore}
    (there : (after calls).traceCores.get? core = some c) :
    c.backend.strictAlignment = c.config.strictAlignment := by
  have kept := after_induction (P := fun m => ∀ core c, m.traceCores.get? core = some c →
    c.backend.strictAlignment = c.config.strictAlignment) (fun _ _ => nofun) ?_ calls
  · exact kept core c there
  intro m m' h evolves core c' there
  rcases evolves.traces core c' there with ⟨c, before, becomes⟩ | ⟨index, config, program, new⟩
  · rw [becomes.strict, becomes.config]
    exact h core c before
  · exact (new_traceCore new).2.2

/-! ## All cores -/

/-- No core is ahead of a thread or knows of threads to come. -/
structure Faithful (m : Machine) : Prop where
  traces : ∀ {core c}, m.traceCores.get? core = some c → Knows m.threads c.contexts
  natives : ∀ {core c}, m.nativeCores.get? core = some c → Knows m.threads c.contexts

theorem Faithful.evolves (h : m.Faithful) (evolves : Evolves m m') (stamped : Stamped n m.threads)
    (room : n + 1 < 0x1_0000_0000_0000_0000) : m'.Faithful := by
  refine ⟨fun {core c'} there => ?_, fun {core c'} there => ?_⟩
  · rcases evolves.traces core c' there with ⟨c, before, becomes⟩ | ⟨index, config, program, new⟩
    · exact (h.traces before).evolves evolves stamped room becomes.toBecomes
    · exact knows_empty (new_traceCore new).1
  · rcases evolves.natives core c' there with ⟨c, before, becomes⟩ | ⟨index, config, new⟩
    · exact (h.natives before).evolves evolves stamped room becomes
    · refine knows_empty ?_
      rw [NativeCore.new, Core.new] at new
      split at new
      · cases new
      · cases new
        rfl

/-- After `n` calls no thread was written more often, and no core is ahead of one. -/
structure Recounted (n : Nat) (m : Machine) : Prop where
  stamped : Stamped n m.threads
  faithful : m.Faithful

theorem Recounted.evolves (h : Recounted n m) (evolves : Evolves m m')
    (room : n + 1 < 0x1_0000_0000_0000_0000) : Recounted (n + 1) m' :=
  ⟨h.stamped.evolves evolves, h.faithful.evolves evolves h.stamped room⟩

theorem Recounted.foldl (h : Recounted n m) (calls : List Call)
    (few : n + calls.length < 0x1_0000_0000_0000_0000) :
    Recounted (n + calls.length) (calls.foldl Machine.apply m) :=
  foldl_counted (fun _ _ _ room h evolves => h.evolves evolves room) h calls few

theorem recounted_after (calls : List Call) (few : calls.length < 0x1_0000_0000_0000_0000) :
    Recounted calls.length (after calls) := by
  have initial : Recounted 0 {} := ⟨fun _ _ => nofun, nofun, nofun⟩
  have all := initial.foldl calls ((Nat.zero_add _).symm ▸ few)
  rw [Nat.zero_add] at all
  exact all

theorem faithful_after (calls : List Call) (few : calls.length < 0x1_0000_0000_0000_0000) :
    (after calls).Faithful :=
  (recounted_after calls few).faithful

end GuestExec.Machine
