import GuestExec.Proofs.Memory.Guards

/-!
# Open maps

A map is `Open` when nothing but permissions keeps the guest from its memory: no
page is guarded, and what may be written or executed may be read. Accesses keep
a map open, and so does every change of the map that asks for permissions of
that kind.
-/

namespace GuestExec

/-- What may be written or executed may be read. -/
def Perms.readable (p : Perms) : Bool := p.read || !(p.write || p.execute)

theorem Perms.read_of_allows {p : Perms} {access : Access} (h : p.readable = true)
    (allowed : p.allows access = true) : p.read = true := by
  rcases p with ⟨read, write, execute⟩
  cases access <;> simp_all [readable, allows]

/-- No page is guarded, and what may be written or executed may be read. -/
structure Region.Open (r : Region) : Prop where
  unguarded : ∀ page, r.backing.guarded.contains page = false
  readable : r.perms.readable = true

theorem Region.open_of_empty {r : Region} (free : r.backing.guarded = .empty)
    (readable : r.perms.readable = true) : r.Open :=
  ⟨fun page => by rw [free]; rfl, readable⟩

/-! ## New blocks -/

theorem Backing.guarded_of_allocate {inUse : Nat → Nat → Bool} {heap heap' : HostHeap}
    {size : UInt64} {b : Backing} (h : allocate inUse heap size = .ok (b, heap')) :
    b.guarded = .empty := by
  rw [eq_of_allocate h]

theorem Backing.guarded_of_identity {inUse : Nat → Nat → Bool} {addr : GuestAddr} {size : UInt64}
    {perms : Perms} {b : Backing} (h : identity inUse addr size perms = .ok b) :
    b.guarded = .empty := by
  rw [eq_of_identity h]

namespace MemoryMap

/-- All regions are open. -/
def Open (m : MemoryMap) : Prop := ∀ k r, m.regions.get? k = some r → r.Open

/-- What may be written or executed may be read. -/
def Readable (m : MemoryMap) : Prop := ∀ k r, m.regions.get? k = some r → r.perms.readable = true

variable {m m' : MemoryMap} {a : GuestAddr} {r : Region} {access : Access}

theorem Open.readable (h : m.Open) : m.Readable := fun k r found => (h k r found).readable

/-- A map whose regions were seen to be readable. -/
theorem readable_of_values (h : m.regions.values.all (·.perms.readable) = true) : m.Readable :=
  fun k r found => List.all_eq_true.1 h r (AddressTable.mem_values.2 ⟨k, found⟩)

/-- Memory that allows any access at all can be read. -/
theorem Readable.allows_read (h : m.Readable) (w : m.Regular)
    (allowed : m.allows a access = true) : m.allows a .read = true := by
  obtain ⟨r, found, legal⟩ := exists_find_of_allows allowed
  rw [allows_of_find found]
  exact Perms.read_of_allows (h _ r (w.find_iff.1 found).1) legal

/-- A map whose regions were seen to have no guards. -/
theorem open_of_values
    (h : m.regions.values.all (fun r => r.backing.guarded.runs.isEmpty && r.perms.readable) =
      true) : m.Open := by
  intro k r found
  have here := List.all_eq_true.1 h r (AddressTable.mem_values.2 ⟨k, found⟩)
  rw [Bool.and_eq_true, List.isEmpty_iff] at here
  refine ⟨fun page => ?_, here.2⟩
  rw [PageSet.contains, here.1]
  rfl

namespace Open

/-! ## Accesses -/

theorem isGuarded (h : m.Open) (w : m.Regular) (a : GuestAddr) : m.isGuarded a = false := by
  cases found : m.find a with
  | none =>
    rw [MemoryMap.isGuarded, found]
    rfl
  | some r =>
    rw [isGuarded_of_find found]
    exact (h _ r (w.find_iff.1 found).1).unguarded _

theorem usable (h : m.Open) (w : m.Regular) (a : GuestAddr) (access : Access) :
    m.usable a access = m.allows a access := by
  rw [MemoryMap.usable, h.isGuarded w, Bool.not_false, Bool.and_true]

/-- Writing and mending keep a map open. -/
theorem of_loosens (h : m.Open) (looser : Loosens m m') : m'.Open := by
  intro k r' found'
  obtain ⟨r, found, frame⟩ := looser.toSameFrames.exists_frame found'
  have old := h k r found
  refine ⟨fun page => ?_, ?_⟩
  · rw [← Bool.not_eq_true]
    intro guarded
    have before := looser.looser found found' page guarded
    rw [old.unguarded] at before
    cases before
  · injection frame with _ perms
    rw [perms]
    exact old.readable

/-! ## Changes of the map -/

theorem of_regionAt {addr : GuestAddr} (h : m.Open) (atAddr : m.regionAt addr = .ok r) :
    r.Open := by
  rw [regionAt] at atAddr
  split at atAddr
  · rename_i found
    cases atAddr
    exact h _ r found
  · cases atAddr

theorem insertRegion (h : m.Open) (new : r.Open) : (m.insertRegion r).Open := by
  intro k x found
  rcases get?_insertRegion_eq_some found with ⟨-, rfl⟩ | old
  · exact new
  · exact h k x old

theorem setRegion (h : m.Open) (new : r.Open) : (m.setRegion r).Open := by
  intro k x found
  rw [get?_setRegion] at found
  split at found
  · cases found
    exact new
  · exact h k x found

theorem map {addr : GuestAddr} {size : UInt64} {perms : Perms} (h : m.Open)
    (readable : perms.readable = true) (mapped : m.map addr size perms = .ok m') : m'.Open := by
  obtain ⟨-, b, heap, placed, rfl⟩ := exists_of_map mapped
  exact insertRegion (m := { m with heap }) h
    (Region.open_of_empty (Backing.guarded_of_allocate placed) readable)

theorem mapIdentity {addr : GuestAddr} {size : UInt64} {perms : Perms} (h : m.Open)
    (readable : perms.readable = true) (mapped : m.mapIdentity addr size perms = .ok m') :
    m'.Open := by
  obtain ⟨-, b, placed, rfl⟩ := exists_of_mapIdentity mapped
  exact h.insertRegion (Region.open_of_empty (Backing.guarded_of_identity placed) readable)

theorem unmap {addr : GuestAddr} {change : MappingChange} (h : m.Open)
    (unmapped : m.unmap addr = .ok (change, m')) : m'.Open := by
  obtain ⟨r, atAddr, unmapped⟩ := bind_eq_ok unmapped
  cases unmapped
  intro k x found
  rw [AddressTable.get?_erase] at found
  split at found
  · cases found
  · exact h k x found

theorem protect {addr : GuestAddr} {perms : Perms} {change : MappingChange} (h : m.Open)
    (readable : perms.readable = true) (changed : m.protect addr perms = .ok (change, m')) :
    m'.Open := by
  obtain ⟨r, atAddr, changed⟩ := bind_eq_ok changed
  obtain ⟨b, renewed, changed⟩ := bind_eq_ok changed
  cases changed
  have old := h.of_regionAt atAddr
  refine h.setRegion ⟨fun page => ?_, readable⟩
  simp only [Backing.reprotect] at renewed
  split at renewed
  · obtain ⟨b₁, -, renewed⟩ := bind_eq_ok renewed
    cases renewed
    rfl
  · cases renewed
    exact old.unguarded page

/-- A block in another place has no guards. -/
theorem remap {addr : GuestAddr} {host : HostAddr} {change : MappingChange} (h : m.Open)
    (moved : m.remap addr = .ok (host, change, m')) : m'.Open := by
  obtain ⟨r, atAddr, moved⟩ := bind_eq_ok moved
  dsimp only at moved
  split at moved
  · cases moved
  obtain ⟨⟨b, heap⟩, placed, moved⟩ := bind_eq_ok moved
  cases moved
  have old := h.of_regionAt atAddr
  exact insertRegion (m := { m with heap, byHost := m.byHost.erase r.backing.base.toNat }) h
    (Region.open_of_empty (Backing.guarded_of_allocate placed) old.readable)

end Open

end MemoryMap

end GuestExec
