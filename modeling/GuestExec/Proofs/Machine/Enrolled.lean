import GuestExec.Proofs.Machine.Coherence

/-!
# Who hears of a change

Between calls a machine is `Enrolled`: every core stands in the list of subscribers once, and none
that is gone does. So a change that is announced reaches each core once and each observer once, in
the order of subscription, and nobody else (`heard_announce`).
-/

namespace GuestExec

open Native (NativeCore)
open Trace (TraceCore)

def Subscriber.isCore : Subscriber → Bool
  | .observer _ => false
  | _ => true

namespace Machine

variable {m m' : Machine} {s : Subscriber} {t : Tlb}

/-! ## Every core is told once -/

/-- Each core stands in the list of subscribers once, and none that is gone does. -/
def Enrolled (m : Machine) : Prop :=
  ∀ s, s.isCore = true → m.subscribers.count s = if (m.tlbOf? s).isSome then 1 else 0

theorem enrolled_initial : ({} : Machine).Enrolled := by
  intro s _
  cases s <;> rfl

namespace Enrolled

/-- The list stays, and so do the cores. -/
theorem of_eq (h : m.Enrolled) (subscribers : m'.subscribers = m.subscribers)
    (tlbs : ∀ s, (m'.tlbOf? s).isSome = (m.tlbOf? s).isSome) : m'.Enrolled := by
  intro s core
  rw [subscribers, tlbs, h s core]

/-- A core is replaced. -/
theorem setTlb (h : m.Enrolled) (subscribers : m'.subscribers = m.subscribers)
    (there : (m.tlbOf? s).isSome)
    (tlbs : ∀ s', m'.tlbOf? s' = if s' = s then some t else m.tlbOf? s') : m'.Enrolled := by
  refine h.of_eq subscribers fun s' => ?_
  rw [tlbs]
  split
  · rename_i here
    rw [here, there, Option.isSome_some]
  · rfl

/-- A core comes in, and is added to the list. -/
theorem subscribe (h : m.Enrolled) (subscribers : m'.subscribers = m.subscribers ++ [s])
    (free : m.tlbOf? s = none)
    (tlbs : ∀ s', m'.tlbOf? s' = if s' = s then some t else m.tlbOf? s') : m'.Enrolled := by
  intro s' core
  rw [subscribers, tlbs, List.count_append, h s' core, List.count_singleton]
  by_cases here : s' = s
  · simp [here, free]
  · simp [here, Ne.symm here]

theorem addTraceCore (h : m.Enrolled) {index program i : Nat} {config : CoreConfig}
    (added : m.addTraceCore index program config false = .ok (i, m')) : m'.Enrolled := by
  obtain ⟨c, -, added⟩ := map_eq_ok added
  cases added
  refine h.subscribe (s := .traceCore (m.traceCores.add c).1) (t := c.tlb) rfl ?_ fun s' => ?_
  · rw [tlbOf?, Roster.add, Roster.get?_size]
    rfl
  · refine tlbOf?_addTrace ?_ ?_ s' <;> rfl

theorem addNativeCore (h : m.Enrolled) {index i : Nat} {config : CoreConfig}
    (added : m.addNativeCore index config false = .ok (i, m')) : m'.Enrolled := by
  obtain ⟨c, -, added⟩ := map_eq_ok added
  cases added
  refine h.subscribe (s := .nativeCore (m.nativeCores.add c).1) (t := c.tlb) rfl ?_ fun s' => ?_
  · rw [tlbOf?, Roster.add, Roster.get?_size]
    rfl
  · refine tlbOf?_addNative ?_ ?_ s' <;> rfl

/-- A core goes, and is on the list no more. -/
theorem drop (h : m.Enrolled) (subscribers : m'.subscribers = m.subscribers.filter (· != s))
    (tlbs : ∀ s', m'.tlbOf? s' = if s' = s then none else m.tlbOf? s') : m'.Enrolled := by
  intro s' core
  rw [tlbs, subscribers]
  by_cases here : s' = s
  · rw [if_pos here, here]
    exact List.count_eq_zero.2 fun still => by simpa using (List.mem_filter.1 still).2
  · rw [if_neg here, ← h s' core]
    exact List.count_filter (by simpa using here)

theorem observe (h : m.Enrolled) (id : Nat) : (m.subscribe (.observer id)).Enrolled := by
  intro s core
  have other : Subscriber.observer id ≠ s := fun same => by
    rw [← same] at core
    cases core
  have same : (m.subscribe (.observer id)).tlbOf? s = m.tlbOf? s := rfl
  rw [same, ← h s core, Machine.subscribe, List.count_append, List.count_singleton]
  simp [other]

theorem unobserve (h : m.Enrolled) (id : Nat) : (m.unobserve id).Enrolled := by
  intro s core
  have same : (m.unobserve id).tlbOf? s = m.tlbOf? s := rfl
  rw [same, ← h s core]
  refine List.count_filter ?_
  cases s with
  | observer id => cases core
  | _ => rfl

theorem announce (h : m.Enrolled) (change : MappingChange) : (m.announce change).2.Enrolled := by
  have told := told_announce m change
  refine h.of_eq ?_ told.tlb_isSome
  rw [told.rest]

theorem onThread {α : Type} {i : Nat} {f : GuestThread → α × GuestThread} {a : α} (h : m.Enrolled)
    (done : m.onThread i f = some (a, m')) : m'.Enrolled := by
  obtain ⟨t, -, done⟩ := Option.bind_eq_some_iff.1 done
  cases done
  exact h.of_eq rfl fun _ => rfl

theorem setTrace (h : m.Enrolled) {i : Nat} {c : TraceCore} (core : m.traceCores.get? i = some c)
    (c' : TraceCore) (cores : m'.traceCores = m.traceCores.set i c')
    (natives : m'.nativeCores = m.nativeCores) (subscribers : m'.subscribers = m.subscribers) :
    m'.Enrolled :=
  h.setTlb subscribers (s := .traceCore i) (by rw [tlbOf?_trace core]; rfl)
    (tlbOf?_setTrace core cores natives)

theorem setNative (h : m.Enrolled) {i : Nat} {c : NativeCore} (core : m.nativeCores.get? i = some c)
    (c' : NativeCore) (cores : m'.nativeCores = m.nativeCores.set i c')
    (traces : m'.traceCores = m.traceCores) (subscribers : m'.subscribers = m.subscribers) :
    m'.Enrolled :=
  h.setTlb subscribers (s := .nativeCore i) (by rw [tlbOf?_native core]; rfl)
    (tlbOf?_setNative core cores traces)

theorem onTraceCore {α : Type} {i : Nat} {f : TraceCore → α × TraceCore} {a : α} (h : m.Enrolled)
    (done : m.onTraceCore i f = some (a, m')) : m'.Enrolled := by
  obtain ⟨c, core, done⟩ := Option.bind_eq_some_iff.1 done
  cases done
  exact h.setTrace core (f c).2 rfl rfl rfl

theorem onNativeCore {i : Nat} {f : NativeCore → NativeCore} {x : Unit} (h : m.Enrolled)
    (done : m.onNativeCore i f = some (x, m')) : m'.Enrolled := by
  obtain ⟨c, core, done⟩ := Option.bind_eq_some_iff.1 done
  cases done
  exact h.setNative core (f c) rfl rfl rfl

theorem apply (h : m.Enrolled) (call : Call) : (m.apply call).Enrolled := by
  cases call with
  | map | mapIdentity =>
    exact getD_ok h fun _ done => by
      obtain ⟨memory, -, rfl⟩ := map_eq_ok done
      exact h.of_eq rfl fun _ => rfl
  | unmap | protect =>
    exact getD_toOption h fun _ done => by
      obtain ⟨⟨change, memory⟩, -, rfl⟩ := map_eq_ok done
      exact announce (m := m.withMemory memory) (h.of_eq rfl fun _ => rfl) change
  | remap =>
    exact getD_toOption h fun _ done => by
      obtain ⟨⟨host, change, memory⟩, -, rfl⟩ := map_eq_ok done
      exact announce (m := m.withMemory memory) (h.of_eq rfl fun _ => rfl) change
  | observe id => exact h.observe id
  | unobserve id => exact h.unobserve id
  | addTraceCore => exact getD_toOption h fun _ done => h.addTraceCore done
  | addNativeCore => exact getD_toOption h fun _ done => h.addNativeCore done
  | dropTraceCore core => exact h.drop rfl (tlbOf?_dropTrace m core)
  | dropNativeCore core => exact h.drop rfl (tlbOf?_dropNative m core)
  | storeRegisters | claim | setRunning | setHostTid | interrupt | lock =>
    exact getD_map h fun _ done => h.onThread done
  | invalidateCode | invalidateTlb | queueBusy | lookupTlb =>
    exact getD_map h fun _ done => h.onTraceCore done
  | unlock | interruptNative =>
    exact getD_map h fun _ done => by
      obtain ⟨c, -, done⟩ := Option.bind_eq_some_iff.1 done
      obtain ⟨t, -, done⟩ := Option.bind_eq_some_iff.1 done
      cases done
      exact h.of_eq rfl fun _ => rfl
  | updateRegisters | getRegisters =>
    exact getD_map h fun _ done => by
      obtain ⟨c, core, done⟩ := Option.bind_eq_some_iff.1 done
      obtain ⟨t, -, done⟩ := Option.bind_eq_some_iff.1 done
      cases done
      exact h.setTrace core _ rfl rfl rfl
  | runTrace core thread step rounds =>
    exact getD_map h fun _ done => by
      obtain ⟨c, t, program, left, core, -, -, -, -, eq⟩ := exists_of_runTrace done
      rw [eq]
      exact h.setTrace core left.core rfl rfl rfl
  | prepareNative core =>
    exact getD_map h fun _ done => by
      obtain ⟨c, -, done⟩ := Option.bind_eq_some_iff.1 done
      cases done
      exact h.of_eq rfl fun _ => rfl
  | runNative core thread step script =>
    exact getD_map h fun _ done => by
      obtain ⟨c, t, host, left, core, -, -, -, eq⟩ := exists_of_runNative done
      rw [eq]
      exact h.setNative core left.core rfl rfl rfl
  | invalidateNative | invalidateNativeTlb => exact getD_map h fun _ done => h.onNativeCore done
  | _ => exact h.of_eq rfl fun _ => rfl

end Enrolled

theorem enrolled_after (calls : List Call) : (after calls).Enrolled :=
  List.foldlRecOn calls apply enrolled_initial fun _ h call _ => h.apply call

/-- Whoever is there hears once. -/
theorem map_iterate_of_once {α : Type} {o : Option α} {f : α → α} {n : Nat}
    (once : n = if o.isSome then 1 else 0) : o.map f^[n] = o.map f := by
  cases o with
  | none => rfl
  | some a =>
    rw [once]
    rfl

/-- Everyone who is to hear of a change has heard of it once, when the map was the one that it is
now: the observers in the order of subscription, each of which noted what the address of the change
is mapped to, and every core. Nothing else has changed but the map. -/
structure Heard (m : Machine) (change : MappingChange) (events : List Event) (m' : Machine) :
    Prop where
  events : events = m.subscribers.filterMap
    (·.event? change (m'.memory.translate change.addr))
  traces : ∀ i, m'.traceCores.get? i =
    (m.traceCores.get? i).map (·.mappingChanged change.addr change.size)
  natives : ∀ i, m'.nativeCores.get? i =
    (m.nativeCores.get? i).map (·.mappingChanged change.addr change.size)
  rest : m' = { m with
    memory := m'.memory, traceCores := m'.traceCores, nativeCores := m'.nativeCores }

theorem heard_announce (h : m.Enrolled) (memory : MemoryMap) (change : MappingChange) :
    m.Heard change ((m.withMemory memory).announce change).1
      ((m.withMemory memory).announce change).2 := by
  have told := told_announce (m.withMemory memory) change
  refine ⟨?_, fun i => ?_, fun i => ?_, ?_⟩
  · rw [congrArg Machine.memory told.rest]
    exact events_announce _ change
  · have once := h (.traceCore i) rfl
    rw [tlbOf?, Option.isSome_map] at once
    exact (told.traces i).trans (map_iterate_of_once once)
  · have once := h (.nativeCore i) rfl
    rw [tlbOf?, Option.isSome_map] at once
    exact (told.natives i).trans (map_iterate_of_once once)
  · rw [told.rest]
    rfl

end Machine

end GuestExec
