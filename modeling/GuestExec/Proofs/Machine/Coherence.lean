import GuestExec.Proofs.Machine.Hearing
import GuestExec.Proofs.Native.Sound
import GuestExec.Proofs.Trace.Sound

/-!
# All TLBs of a machine are coherent

Between calls a machine is `Settled`: its map is regular, every core hears of its
changes, and every core's TLB is coherent with it. A change of the map
first makes TLBs stale and then reaches all of them (`settled_announce`); a run
fills the TLB of its own core with what the map says and changes no region's
frame, so the other TLBs stay coherent.
-/

namespace GuestExec

namespace Machine

open MemoryMap (SameFrames)

variable {m m' : Machine} {s s' : Subscriber} {t : Tlb}

structure Settled (m : Machine) : Prop where
  memory : m.memory.Regular
  /-- Every core hears of the changes of the map. -/
  hears : ∀ {s t}, m.tlbOf? s = some t → s ∈ m.subscribers
  coherent : ∀ {s t}, m.tlbOf? s = some t → t.Coherent m.memory

theorem settled_initial : ({} : Machine).Settled := by
  refine ⟨MemoryMap.regular_empty, fun {s t} h => ?_, fun {s t} h => ?_⟩ <;>
    cases s <;> cases h

/-! ## Changes that no TLB notices -/

/-- Calls that touch neither the map nor a TLB nor the subscribers among the cores. -/
theorem Settled.of_eq (h : m.Settled) (memory : m'.memory = m.memory)
    (tlbs : ∀ s, m'.tlbOf? s = m.tlbOf? s)
    (subscribers : ∀ {s t}, m.tlbOf? s = some t → s ∈ m.subscribers → s ∈ m'.subscribers) :
    m'.Settled := by
  refine ⟨memory ▸ h.memory, fun {s t} core => ?_, fun {s t} core => ?_⟩
  · rw [tlbs] at core
    exact subscribers core (h.hears core)
  · rw [tlbs] at core
    exact memory ▸ h.coherent core

/-- Contents and guards may change: translations are a matter of frames. -/
theorem Settled.withMemory (h : m.Settled) {memory : MemoryMap}
    (same : SameFrames m.memory memory) : (m.withMemory memory).Settled :=
  ⟨same.regular h.memory, h.hears,
    fun core => (h.coherent core).congr (same.translate h.memory)⟩

/-- One core goes on with another coherent TLB, on memory with the same frames. -/
theorem Settled.setTlb (h : m.Settled) (same : SameFrames m.memory m'.memory)
    (subscribers : m'.subscribers = m.subscribers) (core : (m.tlbOf? s).isSome)
    (tlbs : ∀ s', m'.tlbOf? s' = if s' = s then some t else m.tlbOf? s')
    (coherent : t.Coherent m'.memory) : m'.Settled := by
  obtain ⟨old, core⟩ := Option.isSome_iff_exists.1 core
  refine ⟨same.regular h.memory, fun {s' t'} core' => ?_, fun {s' t'} core' => ?_⟩
  · rw [subscribers]
    rw [tlbs] at core'
    split at core'
    · rename_i here
      exact here ▸ h.hears core
    · exact h.hears core'
  · rw [tlbs] at core'
    split at core'
    · cases core'
      exact coherent
    · exact (h.coherent core').congr (same.translate h.memory)

theorem tlbOf?_setTrace {i : Nat} {c c' : Trace.TraceCore} (core : m.traceCores.get? i = some c)
    (cores : m'.traceCores = m.traceCores.set i c') (natives : m'.nativeCores = m.nativeCores)
    (s : Subscriber) :
    m'.tlbOf? s = if s = .traceCore i then some c'.tlb else m.tlbOf? s := by
  cases s with
  | observer id => rfl
  | traceCore j =>
    rw [tlbOf?, cores, Roster.get?_set_of_get? core]
    simp only [Subscriber.traceCore.injEq]
    split <;> rfl
  | nativeCore j =>
    rw [tlbOf?, natives]
    rfl

theorem tlbOf?_setNative {i : Nat} {c c' : Native.NativeCore}
    (core : m.nativeCores.get? i = some c) (cores : m'.nativeCores = m.nativeCores.set i c')
    (traces : m'.traceCores = m.traceCores) (s : Subscriber) :
    m'.tlbOf? s = if s = .nativeCore i then some c'.tlb else m.tlbOf? s := by
  cases s with
  | observer id => rfl
  | nativeCore j =>
    rw [tlbOf?, cores, Roster.get?_set_of_get? core]
    simp only [Subscriber.nativeCore.injEq]
    split <;> rfl
  | traceCore j =>
    rw [tlbOf?, traces]
    rfl

theorem tlbOf?_trace {i : Nat} {c : Trace.TraceCore} (core : m.traceCores.get? i = some c) :
    m.tlbOf? (.traceCore i) = some c.tlb := by
  rw [tlbOf?, core, Option.map_some]

theorem tlbOf?_native {i : Nat} {c : Native.NativeCore} (core : m.nativeCores.get? i = some c) :
    m.tlbOf? (.nativeCore i) = some c.tlb := by
  rw [tlbOf?, core, Option.map_some]

theorem tlbOf?_dropNative (m : Machine) (i : Nat) (s : Subscriber) :
    (m.dropNativeCore i).tlbOf? s = if s = .nativeCore i then none else m.tlbOf? s := by
  cases s with
  | nativeCore j =>
    rw [tlbOf?, dropNativeCore, Roster.get?_drop]
    simp only [Subscriber.nativeCore.injEq]
    split <;> rfl
  | _ => rfl

/-- A trace core changes, but for its TLB. -/
theorem Settled.setTraceCore (h : m.Settled) {i : Nat} {c : Trace.TraceCore}
    (core : m.traceCores.get? i = some c) (c' : Trace.TraceCore)
    (coherent : c'.tlb.Coherent m.memory) :
    { m with traceCores := m.traceCores.set i c' }.Settled :=
  h.setTlb (.refl _) rfl (s := .traceCore i) (by rw [tlbOf?_trace core]; rfl)
    (tlbOf?_setTrace core rfl rfl) coherent

/-! ## Changes of the map -/

theorem tlbOf?_hear (change : MappingChange) (m : Machine) (s s' : Subscriber) :
    (m.hear change s).2.tlbOf? s' =
      if s' = s then (m.tlbOf? s).map fun t => (t.invalidateRange change.addr change.size).2
      else m.tlbOf? s' := by
  cases s with
  | observer id =>
    split
    · rename_i here
      rw [here]
      rfl
    · rfl
  | traceCore i =>
    cases s' with
    | traceCore j =>
      simp only [hear, tlbOf?, Roster.get?_modify, Subscriber.traceCore.injEq]
      split
      · cases m.traceCores.get? i <;> rfl
      · rfl
    | _ => simp [hear, tlbOf?]
  | nativeCore i =>
    cases s' with
    | nativeCore j =>
      simp only [hear, tlbOf?, Roster.get?_modify, Subscriber.nativeCore.injEq]
      split
      · cases m.nativeCores.get? i <;> rfl
      · rfl
    | _ => simp [hear, tlbOf?]

/-- While a change is announced, a TLB is coherent with the new map or is still to hear of the
change; in the end all have heard. -/
theorem settled_foldl_hear {change : MappingChange} {old : MemoryMap}
    (kept : old.Extends m.memory fun a => ¬change.Touches a) (memory : m.memory.Regular)
    (hears : ∀ {s t}, m.tlbOf? s = some t → s ∈ m.subscribers) (list : List Subscriber)
    (coherent : ∀ {s t}, m.tlbOf? s = some t →
      t.Coherent m.memory ∨ (s ∈ list ∧ t.Coherent old)) (events : List Event) :
    (list.foldl
      (fun (events, m) subscriber =>
        let (more, m) := m.hear change subscriber
        (events ++ more, m))
      (events, m)).2.Settled := by
  induction list generalizing m events with
  | nil =>
    refine ⟨memory, hears, fun core => ?_⟩
    exact (coherent core).elim id fun h => nomatch h.1
  | cons s rest ih =>
    obtain ⟨sameMemory, sameSubscribers⟩ := memory_hear change m s
    refine ih (m := (m.hear change s).2) (sameMemory ▸ kept) (sameMemory ▸ memory)
      (fun {s' t} core => ?_) (fun {s' t} core => ?_) _
    · rw [sameSubscribers]
      rw [tlbOf?_hear] at core
      split at core
      · rename_i here
        obtain ⟨t', before, -⟩ := Option.map_eq_some_iff.1 core
        exact here ▸ hears before
      · exact hears core
    · rw [sameMemory]
      rw [tlbOf?_hear] at core
      split at core
      · obtain ⟨t', before, rfl⟩ := Option.map_eq_some_iff.1 core
        left
        rcases coherent before with fresh | ⟨-, stale⟩
        · exact fresh.invalidateRange fun a mapping _ h => h
        · exact stale.invalidateRange kept
      · rename_i other
        refine (coherent core).imp id fun h => ⟨?_, h.2⟩
        exact (List.mem_cons.1 h.1).resolve_left other

/-- After a change all subscribers hear of, the machine is settled again. -/
theorem Settled.announce (h : m.Settled) {change : MappingChange} {memory : MemoryMap}
    (changed : memory.Regular ∧ m.memory.Extends memory fun a => ¬change.Touches a) :
    ((m.withMemory memory).announce change).2.Settled :=
  settled_foldl_hear (m := m.withMemory memory) changed.2 changed.1 h.hears _
    (fun core => .inr ⟨h.hears core, h.coherent core⟩) []

/-- A new region makes no translation stale. -/
theorem Settled.extend (h : m.Settled) {memory : MemoryMap}
    (added : memory.Regular ∧ m.memory.Extends memory fun _ => True) :
    (m.withMemory memory).Settled := by
  refine ⟨added.1, h.hears, fun core => (h.coherent core).mono fun has _ => ⟨has, ?_⟩⟩
  exact fun a mapping _ translated => added.2 a mapping trivial translated

/-! ## Runs -/

theorem Settled.settleTrace (h : m.Settled) {core thread : Nat} {c : Trace.TraceCore}
    {left : Core.Left Trace.Tracer} (there : m.traceCores.get? core = some c)
    (run : Mmu.Follows ⟨c.tlb, m.memory⟩ ⟨left.core.tlb, left.memory⟩) :
    (m.settleTrace core thread left).Settled :=
  h.setTlb run.frames rfl (s := .traceCore core) (by rw [tlbOf?_trace there]; rfl)
    (tlbOf?_setTrace there rfl rfl) run.sound.tlb

theorem Settled.settleNative (h : m.Settled) {core thread : Nat} {c : Native.NativeCore}
    {host : Native.NativeHost} {left : Core.Left Native.NativeBackend}
    (there : m.nativeCores.get? core = some c)
    (run : Mmu.Follows ⟨c.tlb, m.memory⟩ ⟨left.core.tlb, left.memory⟩) :
    (m.settleNative core thread host left).Settled :=
  h.setTlb run.frames rfl (s := .nativeCore core) (by rw [tlbOf?_native there]; rfl)
    (tlbOf?_setNative there rfl rfl) run.sound.tlb

theorem Settled.sound_trace (h : m.Settled) {i : Nat} {c : Trace.TraceCore}
    (core : m.traceCores.get? i = some c) : Mmu.Sound ⟨c.tlb, m.memory⟩ :=
  ⟨h.memory, h.coherent (tlbOf?_trace core)⟩

theorem Settled.sound_native (h : m.Settled) {i : Nat} {c : Native.NativeCore}
    (core : m.nativeCores.get? i = some c) : Mmu.Sound ⟨c.tlb, m.memory⟩ :=
  ⟨h.memory, h.coherent (tlbOf?_native core)⟩

theorem Settled.runTrace (h : m.Settled) {core thread rounds : Nat} {step : Bool}
    {reason : HaltReason} {notices : List Notice}
    (run : m.runTrace core thread step rounds = some (reason, notices, m')) : m'.Settled := by
  obtain ⟨c, t, program, left, there, -, -, executed, -, rfl⟩ := exists_of_runTrace run
  exact h.settleTrace there (Trace.follows_execute (h.sound_trace there) executed)

theorem Settled.runNative (h : m.Settled) {core thread : Nat} {step : Bool}
    {script : Native.Script} {reason : HaltReason} {trail : List Native.TrailItem}
    {notices : List Notice}
    (run : m.runNative core thread step script = some (reason, trail, notices, m')) :
    m'.Settled := by
  obtain ⟨c, t, host, left, there, -, executed, -, rfl⟩ := exists_of_runNative run
  have follows := Native.follows_execute (h.sound_native there) m.nativeHost thread t
    ⟨step, owner⟩ script
  rw [executed] at follows
  exact h.settleNative there follows

/-! ## Cores come and go -/

theorem tlb_new {β : Type} {index : Nat} {config : CoreConfig} {backend : β} {c : Core β}
    (h : Core.new index config backend = .ok c) : c.tlb = .empty := by
  rw [Core.new] at h
  split at h
  · cases h
  · cases h
    rfl

theorem tlbOf?_addTrace {c : Trace.TraceCore} (cores : m'.traceCores = (m.traceCores.add c).2)
    (natives : m'.nativeCores = m.nativeCores) (s : Subscriber) :
    m'.tlbOf? s = if s = .traceCore (m.traceCores.add c).1 then some c.tlb else m.tlbOf? s := by
  cases s with
  | observer id => rfl
  | traceCore j =>
    rw [tlbOf?, cores, Roster.get?_add]
    simp only [Subscriber.traceCore.injEq]
    split <;> rfl
  | nativeCore j =>
    rw [tlbOf?, natives]
    rfl

theorem tlbOf?_addNative {c : Native.NativeCore}
    (cores : m'.nativeCores = (m.nativeCores.add c).2) (traces : m'.traceCores = m.traceCores)
    (s : Subscriber) :
    m'.tlbOf? s = if s = .nativeCore (m.nativeCores.add c).1 then some c.tlb else m.tlbOf? s := by
  cases s with
  | observer id => rfl
  | nativeCore j =>
    rw [tlbOf?, cores, Roster.get?_add]
    simp only [Subscriber.nativeCore.injEq]
    split <;> rfl
  | traceCore j =>
    rw [tlbOf?, traces]
    rfl

theorem tlbOf?_dropTrace (m : Machine) (i : Nat) (s : Subscriber) :
    (m.dropTraceCore i).tlbOf? s = if s = .traceCore i then none else m.tlbOf? s := by
  cases s with
  | traceCore j =>
    rw [tlbOf?, dropTraceCore, Roster.get?_drop]
    simp only [Subscriber.traceCore.injEq]
    split <;> rfl
  | _ => rfl

/-- A new core starts with an empty TLB and hears of all changes to come. -/
theorem Settled.subscribe_new (h : m.Settled) (memory : m'.memory = m.memory)
    (subscribers : m'.subscribers = m.subscribers ++ [s])
    (tlbs : ∀ s', m'.tlbOf? s' = if s' = s then some .empty else m.tlbOf? s') : m'.Settled := by
  refine ⟨memory ▸ h.memory, fun {s' t} core => ?_, fun {s' t} core => ?_⟩
  · rw [subscribers, List.mem_append, List.mem_singleton]
    rw [tlbs] at core
    split at core
    · rename_i here
      exact .inr here
    · exact .inl (h.hears core)
  · rw [tlbs] at core
    split at core
    · cases core
      exact Tlb.coherent_empty _
    · exact memory ▸ h.coherent core

theorem Settled.addTraceCore (h : m.Settled) {index program i : Nat} {config : CoreConfig}
    (added : m.addTraceCore index program config false = .ok (i, m')) : m'.Settled := by
  obtain ⟨c, new, added⟩ := map_eq_ok added
  cases added
  refine h.subscribe_new (s := .traceCore (m.traceCores.add c).1) rfl rfl fun s' => ?_
  rw [← tlb_new new]
  refine tlbOf?_addTrace ?_ ?_ s' <;> rfl

theorem Settled.addNativeCore (h : m.Settled) {index i : Nat} {config : CoreConfig}
    (added : m.addNativeCore index config false = .ok (i, m')) : m'.Settled := by
  obtain ⟨c, new, added⟩ := map_eq_ok added
  cases added
  refine h.subscribe_new (s := .nativeCore (m.nativeCores.add c).1) rfl rfl fun s' => ?_
  rw [← tlb_new new]
  refine tlbOf?_addNative ?_ ?_ s' <;> rfl

/-- A core that goes leaves the list of those who hear of changes. -/
theorem Settled.drop (h : m.Settled) (memory : m'.memory = m.memory)
    (subscribers : m'.subscribers = m.subscribers.filter (· != s))
    (tlbs : ∀ s', m'.tlbOf? s' = if s' = s then none else m.tlbOf? s') : m'.Settled := by
  have left : ∀ {s' t}, m'.tlbOf? s' = some t → m.tlbOf? s' = some t ∧ s' ≠ s := by
    intro s' t core
    rw [tlbs] at core
    split at core
    · cases core
    · rename_i other
      exact ⟨core, other⟩
  refine ⟨memory ▸ h.memory, fun core => ?_, fun core => memory ▸ h.coherent (left core).1⟩
  rw [subscribers]
  exact List.mem_filter.2 ⟨h.hears (left core).1, by simpa using (left core).2⟩

theorem Settled.unobserve (h : m.Settled) (id : Nat) : (m.unobserve id).Settled := by
  refine h.of_eq rfl (fun _ => rfl) fun {s t} core heard => List.mem_filter.2 ⟨heard, ?_⟩
  cases s with
  | observer j => cases core
  | _ => rfl

/-! ## Every call -/

theorem Settled.onThread (h : m.Settled) {α : Type} {i : Nat} {f : GuestThread → α × GuestThread}
    {a : α} (done : m.onThread i f = some (a, m')) : m'.Settled := by
  obtain ⟨t, -, done⟩ := Option.bind_eq_some_iff.1 done
  cases done
  exact h.of_eq rfl (fun _ => rfl) fun _ heard => heard

theorem Settled.onTraceCore (h : m.Settled) {α : Type} {i : Nat}
    {f : Trace.TraceCore → α × Trace.TraceCore} {a : α}
    (done : m.onTraceCore i f = some (a, m'))
    (coherent : ∀ c, c.tlb.Coherent m.memory → (f c).2.tlb.Coherent m.memory) : m'.Settled := by
  obtain ⟨c, core, done⟩ := Option.bind_eq_some_iff.1 done
  cases done
  exact h.setTraceCore core (f c).2 (coherent c (h.coherent (tlbOf?_trace core)))

theorem Settled.onNativeCore (h : m.Settled) {i : Nat} {f : Native.NativeCore → Native.NativeCore}
    {x : Unit} (done : m.onNativeCore i f = some (x, m'))
    (coherent : ∀ c, c.tlb.Coherent m.memory → (f c).tlb.Coherent m.memory) : m'.Settled := by
  obtain ⟨c, there, done⟩ := Option.bind_eq_some_iff.1 done
  cases done
  exact h.setTlb (.refl _) rfl (s := .nativeCore i) (by rw [tlbOf?_native there]; rfl)
    (tlbOf?_setNative there rfl rfl) (coherent c (h.coherent (tlbOf?_native there)))

theorem tlb_foldl_queueBusy {β : Type} (requests : List Invalidation) (c : Core β) :
    (requests.foldl Core.queueBusy c).tlb = c.tlb := by
  induction requests generalizing c with
  | nil => rfl
  | cons request rest ih => exact ih _

theorem Settled.apply (h : m.Settled) (call : Call) : (m.apply call).Settled := by
  have w := h.memory
  cases call with
  | map addr size perms =>
    exact getD_ok h fun m' done => by
      obtain ⟨memory, mapped, rfl⟩ := map_eq_ok done
      exact h.extend (w.map mapped)
  | mapIdentity addr size perms =>
    exact getD_ok h fun m' done => by
      obtain ⟨memory, mapped, rfl⟩ := map_eq_ok done
      exact h.extend (w.mapIdentity mapped)
  | unmap addr =>
    exact getD_toOption h fun _ done => by
      obtain ⟨⟨change, memory⟩, unmapped, rfl⟩ := map_eq_ok done
      exact h.announce (w.unmap unmapped)
  | protect addr perms =>
    exact getD_toOption h fun _ done => by
      obtain ⟨⟨change, memory⟩, changed, rfl⟩ := map_eq_ok done
      exact h.announce (w.protect changed)
  | remap addr =>
    exact getD_toOption h fun _ done => by
      obtain ⟨⟨host, change, memory⟩, moved, rfl⟩ := map_eq_ok done
      exact h.announce (w.remap moved)
  | guard addr size => exact h.withMemory (w.sameFrames_guardRange addr size)
  | resolveFault addr access => exact h.withMemory w.loosens_resolveFault.toSameFrames
  | write addr data => exact h.withMemory (w.sameGuards_write addr data).toSameFrames
  | writeHost host data =>
    refine h.withMemory ?_
    cases written : m.memory.writeHost host data with
    | error e => exact .refl _
    | ok memory => exact (w.sameGuards_writeHost written).toSameFrames
  | placeNext next => exact h.withMemory ⟨fun _ => rfl, rfl⟩
  | losePage addr => exact h.extend (w.loseHostPage addr)
  | observe id =>
    exact h.of_eq rfl (fun _ => rfl) fun _ heard => List.mem_append_left _ heard
  | unobserve id => exact h.unobserve id
  | addProgram | patch | addThread | dropThread =>
    exact h.of_eq rfl (fun _ => rfl) fun _ heard => heard
  | storeRegisters | claim | setRunning | setHostTid | interrupt | lock =>
    exact getD_map h fun _ done => h.onThread done
  | unlock | interruptNative =>
    exact getD_map h fun _ done => by
      obtain ⟨c, -, done⟩ := Option.bind_eq_some_iff.1 done
      obtain ⟨t, -, done⟩ := Option.bind_eq_some_iff.1 done
      cases done
      exact h.of_eq rfl (fun _ => rfl) fun _ heard => heard
  | updateRegisters core thread f =>
    exact getD_map h fun _ done => by
      obtain ⟨c, there, done⟩ := Option.bind_eq_some_iff.1 done
      obtain ⟨t, -, done⟩ := Option.bind_eq_some_iff.1 done
      cases done
      have coherent := h.coherent (tlbOf?_trace there)
      have changed := h.setTraceCore there (c.updateRegisters thread t f).1 coherent
      exact changed.of_eq rfl (fun _ => rfl) fun _ heard => heard
  | getRegisters core thread =>
    exact getD_map h fun _ done => by
      obtain ⟨c, there, done⟩ := Option.bind_eq_some_iff.1 done
      obtain ⟨t, -, done⟩ := Option.bind_eq_some_iff.1 done
      cases done
      have coherent := h.coherent (tlbOf?_trace there)
      exact h.setTraceCore there (c.getRegisters thread t).2 coherent
  | addTraceCore index program config => exact getD_toOption h fun _ done => h.addTraceCore done
  | dropTraceCore core => exact h.drop rfl rfl (tlbOf?_dropTrace m core)
  | runTrace core thread step rounds => exact getD_map h fun _ done => h.runTrace done
  | invalidateCode core request =>
    exact getD_map h fun _ done => h.onTraceCore done fun _ coherent => coherent
  | invalidateTlb core =>
    exact getD_map h fun _ done => h.onTraceCore done fun c _ =>
      Tlb.coherent_invalidateAll c.tlb m.memory
  | queueBusy core requests =>
    exact getD_map h fun _ done => h.onTraceCore done fun c coherent => by
      rw [tlb_foldl_queueBusy]
      exact coherent
  | lookupTlb core addr =>
    exact getD_map h fun _ done => h.onTraceCore done fun c coherent => coherent.lookup addr
  | addNativeCore index config => exact getD_toOption h fun _ done => h.addNativeCore done
  | dropNativeCore core => exact h.drop rfl rfl (tlbOf?_dropNative m core)
  | prepareNative core =>
    exact getD_map h fun _ done => by
      obtain ⟨c, -, done⟩ := Option.bind_eq_some_iff.1 done
      cases done
      exact h.of_eq rfl (fun _ => rfl) fun _ heard => heard
  | runNative core thread step script => exact getD_map h fun _ done => h.runNative done
  | invalidateNative core request =>
    exact getD_map h fun _ done => h.onNativeCore done fun _ coherent => coherent
  | invalidateNativeTlb core =>
    exact getD_map h fun _ done => h.onNativeCore done fun c _ =>
      Tlb.coherent_invalidateAll c.tlb m.memory

theorem settled_foldl (h : m.Settled) (calls : List Call) :
    (calls.foldl Machine.apply m).Settled := by
  induction calls generalizing m with
  | nil => exact h
  | cons call rest ih => exact ih (h.apply call)

theorem settled_after (calls : List Call) : (after calls).Settled :=
  settled_foldl settled_initial calls

/-- After any sequence of calls, every valid entry of every core's TLB translates what it covers
as the map does now. -/
theorem tlb_entry_agrees (calls : List Call) {s : Subscriber} {t : Tlb} {e : Tlb.Entry}
    {a : GuestAddr} (core : (after calls).tlbOf? s = some t) (valid : e ∈ t.validEntries)
    (covers : e.covers a = true) :
    ∃ mapping, (after calls).memory.translate a = some mapping ∧
      e.hostAddr a = mapping.hostAddr a ∧ e.writable = mapping.writable := by
  obtain ⟨slot, valid⟩ := List.mem_filter.1 valid
  obtain ⟨i, has⟩ := Tlb.mem_slots.1 slot
  exact ((settled_after calls).coherent core).agrees has valid a covers

/-- A load at address 0x10000 of its own page, run on a trace core. -/
def loadCalls : List Call :=
  [.map ⟨0x10000⟩ 0x1000 .all,
    .addProgram (.ofOps ⟨0x10000⟩ [.load 0 31 0x10000 8 false]),
    .addThread 1 { Registers.zero with pc := 0x10000 },
    .addTraceCore 0 0 {},
    .runTrace 0 0 true 2]

theorem tlb_entry_agrees_loadCalls : ∃ t e, (after loadCalls).tlbOf? (.traceCore 0) = some t ∧
    e ∈ t.validEntries ∧ e.covers ⟨0x10008⟩ = true ∧
    ∃ mapping, (after loadCalls).memory.translate ⟨0x10008⟩ = some mapping ∧
      e.hostAddr ⟨0x10008⟩ = mapping.hostAddr ⟨0x10008⟩ ∧ e.writable = mapping.writable := by
  have entries : ((after loadCalls).tlbOf? (.traceCore 0)).map (·.validEntries) =
      some [{ guest := ⟨0x10000⟩, host := ⟨0x200000000000⟩, size := 4096, valid := true,
              writable := true, last := 3, count := 2 }] := by decide +kernel
  obtain ⟨t, core, entries⟩ := Option.map_eq_some_iff.1 entries
  have valid := entries.symm ▸ List.mem_singleton_self _
  exact ⟨t, _, core, valid, by decide, tlb_entry_agrees loadCalls core valid (by decide)⟩

end Machine

end GuestExec
