import GuestExec.Proofs.Machine.Calls
import Mathlib.Logic.Function.Iterate

/-!
# One subscriber after the other

What it comes to when all subscribers are told of a change: observers have noted it in the order
of subscription, a core has heard of it as often as it subscribed, and the rest of the machine is
as it was.
-/

namespace GuestExec

/-- What a subscriber notes of a change, if it is an observer. -/
def Subscriber.event? (change : MappingChange) (seen : Option Mapping) : Subscriber → Option Event
  | .observer id => some { observer := id, change, seen }
  | _ => none

namespace Machine

variable {m m' : Machine} {s : Subscriber} {change : MappingChange} {list : List Subscriber}

theorem memory_hear (change : MappingChange) (m : Machine) (s : Subscriber) :
    (m.hear change s).2.memory = m.memory ∧ (m.hear change s).2.subscribers = m.subscribers := by
  cases s <;> exact ⟨rfl, rfl⟩

/-- What stays when one subscriber hears of a change stays when several do. -/
theorem foldl_hear_induction {P : Machine → Prop} (h : P m)
    (step : ∀ m s, P m → P (m.hear change s).2) (list : List Subscriber) (events : List Event) :
    P (list.foldl
      (fun (events, m) subscriber =>
        let (more, m) := m.hear change subscriber
        (events ++ more, m))
      (events, m)).2 := by
  induction list generalizing m events with
  | nil => exact h
  | cons s rest ih => exact ih (step m s h) _

/-- The subscribers of `list` were told of a change, one after the other. A core hears of it as
often as it stands in the list. -/
structure Told (change : MappingChange) (list : List Subscriber) (m m' : Machine) : Prop where
  rest : m' = { m with traceCores := m'.traceCores, nativeCores := m'.nativeCores }
  traces : ∀ i, m'.traceCores.get? i = (m.traceCores.get? i).map
    (·.mappingChanged change.addr change.size)^[list.count (.traceCore i)]
  natives : ∀ i, m'.nativeCores.get? i = (m.nativeCores.get? i).map
    (·.mappingChanged change.addr change.size)^[list.count (.nativeCore i)]

theorem Told.nil (change : MappingChange) (m : Machine) : Told change [] m m :=
  ⟨rfl, fun _ => Option.map_id'.symm, fun _ => Option.map_id'.symm⟩

/-- Hearing once more, after hearing `n` times. -/
theorem map_iterate_of_modify {α : Type} {r r' : Roster α} {f : α → α} {i j n : Nat}
    (now : r'.get? j = ((r.modify i f).get? j).map f^[n]) :
    r'.get? j = (r.get? j).map f^[n + if i = j then 1 else 0] := by
  rw [now, Roster.get?_modify]
  split
  · rename_i here
    rw [if_pos here.symm, Option.map_map, here]
    rfl
  · rename_i other
    rw [if_neg (Ne.symm other)]
    rfl

theorem Told.cons (h : Told change list (m.hear change s).2 m') :
    Told change (s :: list) m m' := by
  obtain ⟨rest, traces, natives⟩ := h
  -- The head hears first, so its turn is the innermost of the iterates.
  cases s with
  | observer id =>
    refine ⟨rest, fun i => ?_, fun i => ?_⟩
    · rw [List.count_cons_of_ne (by simp)]
      exact traces i
    · rw [List.count_cons_of_ne (by simp)]
      exact natives i
  | traceCore j =>
    refine ⟨rest, fun i => ?_, fun i => ?_⟩
    · have heard := map_iterate_of_modify (traces i)
      simpa only [List.count_cons, beq_iff_eq, Subscriber.traceCore.injEq] using heard
    · rw [List.count_cons_of_ne (by simp)]
      exact natives i
  | nativeCore j =>
    refine ⟨rest, fun i => ?_, fun i => ?_⟩
    · rw [List.count_cons_of_ne (by simp)]
      exact traces i
    · have heard := map_iterate_of_modify (natives i)
      simpa only [List.count_cons, beq_iff_eq, Subscriber.nativeCore.injEq] using heard

theorem events_hear (change : MappingChange) (m : Machine) (s : Subscriber) :
    (m.hear change s).1 = (s.event? change (m.memory.translate change.addr)).toList := by
  cases s <;> rfl

theorem told_foldl_hear (m : Machine) (change : MappingChange) (list : List Subscriber)
    (events : List Event) :
    (list.foldl
      (fun (events, m) subscriber =>
        let (more, m) := m.hear change subscriber
        (events ++ more, m))
      (events, m)).1 =
        events ++ list.filterMap (·.event? change (m.memory.translate change.addr)) ∧
    Told change list m (list.foldl
      (fun (events, m) subscriber =>
        let (more, m) := m.hear change subscriber
        (events ++ more, m))
      (events, m)).2 := by
  induction list generalizing m events with
  | nil => exact ⟨(List.append_nil events).symm, .nil change m⟩
  | cons s rest ih =>
    obtain ⟨noted, told⟩ := ih (m.hear change s).2 (events ++ (m.hear change s).1)
    refine ⟨?_, told.cons⟩
    rw [List.foldl_cons]
    refine noted.trans ?_
    rw [(memory_hear change m s).1, events_hear, List.append_assoc]
    cases note : s.event? change (m.memory.translate change.addr) with
    | none => rw [List.filterMap_cons_none note, Option.toList_none, List.nil_append]
    | some event => rw [List.filterMap_cons_some note, Option.toList_some, List.singleton_append]

theorem events_announce (m : Machine) (change : MappingChange) :
    (m.announce change).1 =
      m.subscribers.filterMap (·.event? change (m.memory.translate change.addr)) :=
  (told_foldl_hear m change m.subscribers []).1

theorem told_announce (m : Machine) (change : MappingChange) :
    Told change m.subscribers m (m.announce change).2 :=
  (told_foldl_hear m change m.subscribers []).2

/-- Telling of a change takes no core away and adds none. -/
theorem Told.tlb_isSome (h : Told change list m m') (s : Subscriber) :
    (m'.tlbOf? s).isSome = (m.tlbOf? s).isSome := by
  cases s with
  | observer id => rfl
  | traceCore i => simp only [tlbOf?, h.traces, Option.isSome_map]
  | nativeCore i => simp only [tlbOf?, h.natives, Option.isSome_map]

end Machine

end GuestExec
