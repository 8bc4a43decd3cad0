import GuestExec.Proofs.Machine.Enrolled
import GuestExec.Proofs.Machine.Reshaped
import GuestExec.Proofs.Memory.Protection

/-!
# Changes of the map and who hears of them

On a host that keeps its pages, a call on the map either fails and leaves the machine as it was, or
takes effect as a whole. What makes older translations stale, and nothing else, is announced: with
the whole region that was changed, and once it has changed (`announced_answer`).
-/

namespace GuestExec

/-! ## What a change does to translations -/

/-- What an address of the region `r` translates to after the change. -/
def ChangeKind.Shows (r : Region) : ChangeKind → Option Mapping → Prop
  | .unmapped, now => now = none
  | .reprotected perms, now => now = some { r.mapping with perms }
  | .remapped, now => ∃ host ≠ r.backing.base, now = some { r.mapping with hostBase := host }

namespace MemoryMap

variable {m m' : MemoryMap} {addr : GuestAddr} {size : UInt64} {perms : Perms}
  {change : MappingChange} {r : Region}

/-- The change tells of the whole region `r` of `m`. In `m'` it has taken effect, and outside `r`
there is nothing new. -/
structure Applied (m : MemoryMap) (r : Region) (change : MappingChange) (m' : MemoryMap) :
    Prop where
  region : m.regions.get? change.addr.toNat = some r
  base : r.base = change.addr
  size : change.size.toNat = r.size
  inside : ∀ a, r.holds a = true → change.kind.Shows r (m'.translate a)
  outside : ∀ a, r.holds a = false → m'.translate a = m.translate a

/-- A region goes, or is replaced by one that shows as it should. -/
theorem applied_of_replaced (w : m.Regular) (w' : m'.Regular)
    (found : m.regions.get? r.base.toNat = some r) {now : Option Region}
    (place : ∀ x, now = some x → x.base = r.base ∧ x.size = r.size)
    (regions : ∀ k, m'.regions.get? k = if k = r.base.toNat then now else m.regions.get? k)
    (kind : ChangeKind) (shows : kind.Shows r (now.map Region.mapping)) :
    m.Applied r ⟨kind, r.base, UInt64.ofNat r.size⟩ m' := by
  refine ⟨found, rfl, ?_, fun a held => ?_, fun a free => ?_⟩
  · rw [UInt64.toNat_ofNat', Nat.mod_eq_of_lt (w.regular found).fits]
  · rw [translate, w.find_replaced w' found place regions, if_pos held]
    exact shows
  · rw [translate, w.find_replaced w' found place regions, free]
    rfl

theorem Regular.applied_unmap (w : m.Regular) (h : m.unmap addr = .ok (change, m')) :
    ∃ r, change = ⟨.unmapped, addr, UInt64.ofNat r.size⟩ ∧ m.Applied r change m' := by
  obtain ⟨r, found, rfl, rfl, rfl⟩ := exists_of_unmap w h
  refine ⟨r, rfl, applied_of_replaced w (w.remove found) found ?_ (get?_remove m r) .unmapped rfl⟩
  exact fun x none => nomatch none

theorem Regular.applied_protect (w : m.Regular) (h : m.protect addr perms = .ok (change, m')) :
    ∃ r, change = ⟨.reprotected perms, addr, UInt64.ofNat r.size⟩ ∧ m.Applied r change m' := by
  have w' := w.protect h
  obtain ⟨r, b, found, rfl, changed, rfl, rfl⟩ := exists_of_protect w h
  obtain ⟨host, size, -⟩ := frame_of_reprotect changed
  refine ⟨r, rfl, applied_of_replaced w w'.1 found ?_ (get?_setRegion m _) (.reprotected perms) ?_⟩
  · intro x here
    cases here
    exact ⟨rfl, size⟩
  · simp only [ChangeKind.Shows, Option.map_some, Region.mapping, Region.size, host, size]

theorem Regular.applied_remap (w : m.Regular) {host : HostAddr}
    (h : m.remap addr = .ok (host, change, m')) :
    ∃ r, change = ⟨.remapped, addr, UInt64.ofNat r.size⟩ ∧ m.Applied r change m' := by
  have w' := w.remap h
  obtain ⟨r, b, heap, found, rfl, -, placed, rfl, rfl⟩ := exists_of_remap w h
  have fresh := Backing.fresh_of_allocate placed
  have old := w.regular found
  have size : b.size = r.size := by
    rw [fresh.size, UInt64.toNat_ofNat', Nat.mod_eq_of_lt old.fits]
  refine ⟨r, rfl, applied_of_replaced w w'.1 found ?_ (get?_insertRegion _ _) .remapped ?_⟩
  · intro x here
    cases here
    exact ⟨rfl, size⟩
  · -- The new block does not start where the old one does, which is still in use.
    refine ⟨b.base, fun same => ?_, ?_⟩
    · have unused := hostInUse_eq_false fresh.unused found
      have room := Backing.le_roundUpToPage b.size
      have pos := old.pos
      rw [same] at unused
      omega
    · simp only [Option.map_some, Region.mapping, Region.size, size]

/-- A new region is admitted exactly when it is whole pages that no region meets. -/
theorem checkNew_eq_ok_iff : m.checkNew addr size = .ok () ↔ m.Admissible addr size := by
  refine ⟨admissible_of_checkNew, fun adm => ?_⟩
  have aligned : ¬(size = 0 ∨ addr.toNat % pageSize ≠ 0 ∨ size.toNat % pageSize ≠ 0) := by
    rintro (rfl | unaligned | ragged)
    · exact absurd adm.pos (by decide)
    · exact unaligned adm.base
    · exact ragged adm.whole
  have free : m.overlaps addr.toNat (addr.toNat + size.toNat) = false := by
    rw [← Bool.not_eq_true, overlaps, List.any_eq_true]
    rintro ⟨x, mem, meets⟩
    obtain ⟨k, found⟩ := AddressTable.mem_values.1 mem
    rw [Bool.and_eq_true, decide_eq_true_eq, decide_eq_true_eq] at meets
    rcases adm.free found with before | behind <;> omega
  rw [checkNew, if_neg aligned, free]
  rfl

/-- Memory can be mapped exactly where it is admitted, if the host has a block to give. -/
theorem map_isOk_iff (placed : ∃ x, Backing.allocate m.hostInUse m.heap size = .ok x) :
    (∃ m', m.map addr size perms = .ok m') ↔ m.Admissible addr size := by
  rw [← checkNew_eq_ok_iff]
  constructor
  · rintro ⟨m', mapped⟩
    exact (exists_of_map mapped).1
  · intro checked
    obtain ⟨⟨b, heap⟩, placed⟩ := placed
    rw [map, checked]
    simp only [bind, Except.bind, placed]
    exact ⟨_, rfl⟩

end MemoryMap

namespace Machine

/-! ## Calls on the map -/

/-- A call that changes what is mapped, or guards it. -/
inductive MapCall where
  | map (addr : GuestAddr) (size : UInt64) (perms : Perms)
  | mapIdentity (addr : GuestAddr) (size : UInt64) (perms : Perms)
  | unmap (addr : GuestAddr)
  | protect (addr : GuestAddr) (perms : Perms)
  | remap (addr : GuestAddr)
  | guard (addr : GuestAddr) (size : UInt64)

namespace MapCall

def call : MapCall → Call
  | .map addr size perms => .map addr size perms
  | .mapIdentity addr size perms => .mapIdentity addr size perms
  | .unmap addr => .unmap addr
  | .protect addr perms => .protect addr perms
  | .remap addr => .remap addr
  | .guard addr size => .guard addr size

/-- The base of the region whose translations the call makes stale, and how. -/
def stales : MapCall → Option (ChangeKind × GuestAddr)
  | .unmap addr => some (.unmapped, addr)
  | .protect addr perms => some (.reprotected perms, addr)
  | .remap addr => some (.remapped, addr)
  | _ => none

end MapCall

/-- What a call on the map gives: what observers noted, unless it fails. -/
def answer (m : Machine) : MapCall → Except MemoryError (List Event)
  | .map addr size perms => (m.map addr size perms).map fun _ => []
  | .mapIdentity addr size perms => (m.mapIdentity addr size perms).map fun _ => []
  | .unmap addr => (m.unmap addr).map (·.1)
  | .protect addr perms => (m.protect addr perms).map (·.1)
  | .remap addr => (m.remap addr).map (·.2.1)
  | .guard addr size => (m.memory.guardRange addr size).1.map fun _ => []

variable {m : Machine} {q : MapCall} {events : List Event}

/-- A call on the map that fails changes nothing. -/
theorem apply_of_answer_error (w : m.memory.WellFormed) {e : MemoryError}
    (failed : m.answer q = .error e) : m.apply q.call = m := by
  cases q with
  | guard addr size =>
    have same := w.eq_of_guardRange_error (map_eq_error failed)
    rw [MapCall.call, apply, same]
    rfl
  | _ =>
    have failed := map_eq_error failed
    rw [MapCall.call, apply, failed]
    rfl

/-- One that makes no translation stale tells nobody. -/
theorem silent_of_answer_ok (done : m.answer q = .ok events) (silent : q.stales = none) :
    events = [] ∧ ∃ memory, m.apply q.call = m.withMemory memory := by
  cases q with
  | map addr size perms =>
    obtain ⟨m', mapped, rfl⟩ := map_eq_ok done
    obtain ⟨memory, -, new⟩ := map_eq_ok mapped
    refine ⟨rfl, memory, ?_⟩
    rw [MapCall.call, apply, mapped]
    exact new.symm
  | mapIdentity addr size perms =>
    obtain ⟨m', mapped, rfl⟩ := map_eq_ok done
    obtain ⟨memory, -, new⟩ := map_eq_ok mapped
    refine ⟨rfl, memory, ?_⟩
    rw [MapCall.call, apply, mapped]
    exact new.symm
  | guard addr size =>
    obtain ⟨-, -, rfl⟩ := map_eq_ok done
    exact ⟨rfl, _, rfl⟩
  | _ => cases silent

/-- What was made of the map is in it when it is announced, and stays in it. -/
theorem heard_of_applied (w : m.memory.Regular) (enrolled : m.Enrolled) {change : MappingChange}
    {memory : MemoryMap} {r : Region} (applied : m.memory.Applied r change memory) :
    m.memory.Applied r change ((m.withMemory memory).announce change).2.memory ∧
      m.Heard change ((m.withMemory memory).announce change).1
        ((m.withMemory memory).announce change).2 ∧
      ∀ e ∈ ((m.withMemory memory).announce change).1, change.kind.Shows r e.seen := by
  have now : ((m.withMemory memory).announce change).2.memory = memory := by
    rw [(told_announce _ _).rest]
    rfl
  -- The address of the change is one that its region holds.
  have held : r.holds change.addr = true := by
    have pos := (w.regular applied.region).pos
    rw [Region.holds_iff, ← applied.base, Region.stop]
    omega
  refine ⟨now.symm ▸ applied, heard_announce enrolled memory change, fun e mem => ?_⟩
  rw [events_announce] at mem
  obtain ⟨s, -, note⟩ := List.mem_filterMap.1 mem
  cases s with
  | observer id =>
    cases note
    exact applied.inside change.addr held
  | _ => cases note

/-- One that does tells everybody of the whole region, once it has changed. -/
theorem heard_of_answer_ok (w : m.memory.Regular) (enrolled : m.Enrolled)
    (done : m.answer q = .ok events) {kind : ChangeKind} {addr : GuestAddr}
    (stale : q.stales = some (kind, addr)) :
    ∃ size r, m.memory.Applied r ⟨kind, addr, size⟩ (m.apply q.call).memory ∧
      m.Heard ⟨kind, addr, size⟩ events (m.apply q.call) ∧
      ∀ e ∈ events, kind.Shows r e.seen := by
  cases q with
  | unmap addr =>
    cases stale
    obtain ⟨x, unmapped, rfl⟩ := map_eq_ok done
    obtain ⟨⟨change, memory⟩, taken, rfl⟩ := map_eq_ok unmapped
    obtain ⟨r, rfl, applied⟩ := w.applied_unmap taken
    rw [MapCall.call, apply, unmapped]
    exact ⟨_, r, heard_of_applied w enrolled applied⟩
  | protect addr perms =>
    cases stale
    obtain ⟨x, changed, rfl⟩ := map_eq_ok done
    obtain ⟨⟨change, memory⟩, taken, rfl⟩ := map_eq_ok changed
    obtain ⟨r, rfl, applied⟩ := w.applied_protect taken
    rw [MapCall.call, apply, changed]
    exact ⟨_, r, heard_of_applied w enrolled applied⟩
  | remap addr =>
    cases stale
    obtain ⟨x, moved, rfl⟩ := map_eq_ok done
    obtain ⟨⟨host, change, memory⟩, taken, rfl⟩ := map_eq_ok moved
    obtain ⟨r, rfl, applied⟩ := w.applied_remap taken
    rw [MapCall.call, apply, moved]
    exact ⟨_, r, heard_of_applied w enrolled applied⟩
  | _ => cases stale

/-- After any sequence of calls on a host that keeps its pages, a call on the map that fails changes
nothing. One that succeeds tells nobody, or it makes the translations of a region stale: then every
observer and every core hears of the whole region once, and observers see that it has changed.
Memory can be mapped exactly where whole pages are free, if the host has a block to give. -/
theorem announced_answer {calls : List Call} (kept : ∀ a, .losePage a ∉ calls) (q : MapCall) :
    (∀ e, (after calls).answer q = .error e → (after calls).apply q.call = after calls) ∧
      (∀ events, (after calls).answer q = .ok events →
        (q.stales = none →
          events = [] ∧ ∃ memory, (after calls).apply q.call = (after calls).withMemory memory) ∧
        ∀ kind addr, q.stales = some (kind, addr) → ∃ size r,
          (after calls).memory.Applied r ⟨kind, addr, size⟩
              ((after calls).apply q.call).memory ∧
            (after calls).Heard ⟨kind, addr, size⟩ events ((after calls).apply q.call) ∧
            ∀ e ∈ events, kind.Shows r e.seen) ∧
      ∀ addr size perms,
        (∃ block, Backing.allocate (after calls).memory.hostInUse (after calls).memory.heap size =
          .ok block) →
        ((∃ events, (after calls).answer (.map addr size perms) = .ok events) ↔
          (after calls).memory.Admissible addr size) := by
  have w := wellFormed_after kept
  refine ⟨fun e => apply_of_answer_error w, fun events done => ⟨?_, fun kind addr => ?_⟩,
    fun addr size perms placed => ?_⟩
  · exact silent_of_answer_ok done
  · exact heard_of_answer_ok w.toRegular (enrolled_after calls) done
  · rw [← MemoryMap.map_isOk_iff placed]
    constructor
    · rintro ⟨events, done⟩
      obtain ⟨m', mapped, -⟩ := map_eq_ok done
      obtain ⟨memory, mapped, -⟩ := map_eq_ok mapped
      exact ⟨memory, mapped⟩
    · rintro ⟨memory, mapped⟩
      refine ⟨[], ?_⟩
      rw [answer, map, mapped]
      rfl

/-- Two pages, two observers that are left of three, and a core. -/
def watched : List Call :=
  [.map ⟨0x10000⟩ 0x2000 .all, .observe 1, .observe 2, .addNativeCore 0 {}, .observe 3,
    .unobserve 2]

/-- What an observer notes when the pages may no longer be written. -/
def noted (observer : Nat) : Event where
  observer
  change := ⟨.reprotected .readExecute, ⟨0x10000⟩, 0x2000⟩
  seen := some ⟨⟨0x10000⟩, ⟨0x200000000000⟩, 0x2000, .readExecute⟩

theorem announced_answer_watched :
    (after watched).answer (.protect ⟨0x10000⟩ .readExecute) = .ok [noted 1, noted 3] ∧
      ∃ size r, (after watched).memory.Applied r ⟨.reprotected .readExecute, ⟨0x10000⟩, size⟩
          ((after watched).apply (.protect ⟨0x10000⟩ .readExecute)).memory ∧
        ∀ e ∈ [noted 1, noted 3], ChangeKind.Shows r (.reprotected .readExecute) e.seen := by
  have kept : ∀ a, .losePage a ∉ watched := fun a => by simp [watched]
  have done : (after watched).answer (.protect ⟨0x10000⟩ .readExecute) =
      .ok [noted 1, noted 3] := by rfl
  obtain ⟨size, r, applied, -, shown⟩ :=
    ((announced_answer kept (.protect ⟨0x10000⟩ .readExecute)).2.1 _ done).2 _ _ rfl
  exact ⟨done, size, r, applied, shown⟩

end Machine

end GuestExec
