import GuestExec.Proofs.Memory.Calls

/-!
# Tables against ranges

What a map promises can be said without its tables: its regions are half-open
ranges of numbers, apart from each other, and every search finds the range that
a number lies in. Each search looks only at the nearest base below, so it is
right because the ranges are apart, and the table by host address is right
because it forgets a block when its region goes or moves.
-/

namespace GuestExec

namespace Region

/-- The guest address `a` lies in the region. -/
def Contains (r : Region) (a : GuestAddr) : Prop :=
  r.base.toNat ≤ a.toNat ∧ a.toNat < r.base.toNat + r.size

/-- The host address `h` lies in the region's memory. -/
def Hosts (r : Region) (h : HostAddr) : Prop :=
  r.backing.base.toNat ≤ h.toNat ∧ h.toNat < r.backing.base.toNat + r.size

end Region

namespace MemoryMap

/-- No access at the host address `h` gets through. -/
structure Rejects (m : MemoryMap) (h : HostAddr) : Prop where
  findHost : m.findHost h = none
  readHost : ∀ len, m.readHost h len = .error (.invalidHostAddress h)
  writeHost : ∀ data, m.writeHost h data = .error (.invalidHostAddress h)

/-- The tables of a map and the searches in them say what the regions are. -/
structure Faithful (m : MemoryMap) : Prop where
  pos : ∀ r ∈ m.regions.values, 0 < r.size
  aligned : ∀ r ∈ m.regions.values, r.base.toNat % pageSize = 0 ∧ r.size % pageSize = 0
  /-- In the order of the table every region ends before the next ones start. -/
  apart : m.regions.values.Pairwise fun r r' => r.base.toNat + r.size ≤ r'.base.toNat
  keyed : ∀ k r, m.regions.get? k = some r ↔ r ∈ m.regions.values ∧ r.base.toNat = k
  inverse : ∀ h g, m.byHost.get? h = some g ↔
    ∃ r ∈ m.regions.values, r.base = g ∧ r.backing.base.toNat = h
  translate : ∀ a mapping, m.translate a = some mapping ↔
    ∃ r ∈ m.regions.values, r.Contains a ∧ r.mapping = mapping
  untranslated : ∀ a, m.translate a = none ↔ ∀ r ∈ m.regions.values, ¬r.Contains a
  findHost : ∀ h r, m.findHost h = some r ↔ r ∈ m.regions.values ∧ r.Hosts h
  unhosted : ∀ h, m.findHost h = none ↔ ∀ r ∈ m.regions.values, ¬r.Hosts h
  /-- The memory of a region that was removed is out of reach. -/
  removed : ∀ r ∈ m.regions.values, ∀ c m', m.unmap r.base = .ok (c, m') →
    ∀ h, r.Hosts h → m'.Rejects h
  /-- So is the memory that a region has left. -/
  moved : ∀ r ∈ m.regions.values, ∀ host c m', m.remap r.base = .ok (host, c, m') →
    ∀ h, r.Hosts h → m'.Rejects h

variable {m m' : MemoryMap} {r : Region} {a : GuestAddr} {h : HostAddr}

theorem rejects_of_findHost (none : m.findHost h = .none) : m.Rejects h := by
  constructor
  · exact none
  · intro len
    rw [MemoryMap.readHost, none]
  · intro data
    rw [MemoryMap.writeHost, none]

namespace Regular

theorem mem_values (w : m.Regular) :
    r ∈ m.regions.values ↔ m.regions.get? r.base.toNat = some r := by
  rw [AddressTable.mem_values]
  constructor
  · rintro ⟨k, found⟩
    exact (w.keyed found).symm ▸ found
  · exact fun found => ⟨_, found⟩

theorem pairwise_values (w : m.Regular) :
    m.regions.values.Pairwise fun r r' => r.base.toNat + r.size ≤ r'.base.toNat := by
  rw [AddressTable.values, List.pairwise_map]
  refine m.regions.sorted.imp_of_mem fun {p q} hp hq lt => ?_
  have first := AddressTable.get?_eq_some_iff.2 hp
  have second := AddressTable.get?_eq_some_iff.2 hq
  rw [w.keyed second]
  exact w.apart first second lt

theorem find_iff_contains (w : m.Regular) :
    m.find a = some r ↔ r ∈ m.regions.values ∧ r.Contains a := by
  rw [w.find_iff, w.mem_values, Region.holds_iff]
  rfl

theorem findHost_iff_hosts (w : m.Regular) :
    m.findHost h = some r ↔ r ∈ m.regions.values ∧ r.Hosts h := by
  rw [w.findHost_iff, w.mem_values]
  rfl

/-- No two regions have memory in common. -/
theorem base_eq_of_hosts (w : m.Regular) {r' : Region}
    (found : m.regions.get? r.base.toNat = some r)
    (found' : m.regions.get? r'.base.toNat = some r') (here : r.Hosts h) (there : r'.Hosts h) :
    r'.base.toNat = r.base.toNat := by
  rcases Decidable.em (r'.base.toNat = r.base.toNat) with eq | ne
  · exact eq
  · have := w.hostApart found' found ne
    simp only [Region.Hosts] at here there
    omega

/-- Memory that no region of the new map has is out of reach there. -/
theorem rejects (w : m.Regular) (free : ∀ r, m.regions.get? r.base.toNat = some r → ¬r.Hosts h) :
    m.Rejects h := by
  refine rejects_of_findHost (Option.eq_none_iff_forall_ne_some.2 fun r found => ?_)
  obtain ⟨there, inside⟩ := w.findHost_iff.1 found
  exact free r there inside

theorem rejects_unmap (w : m.Regular) (here : m.regions.get? r.base.toNat = some r)
    {c : MappingChange} (done : m.unmap r.base = .ok (c, m')) (inside : r.Hosts h) :
    m'.Rejects h := by
  have w' := w.unmap done
  obtain ⟨x, found, base, -, rfl⟩ := exists_of_unmap w done
  rw [base, here] at found
  cases found
  refine w'.1.rejects fun r' there inside' => ?_
  obtain ⟨ne, old⟩ := get?_remove_eq_some.1 there
  exact ne (w.base_eq_of_hosts here old inside inside')

theorem rejects_remap (w : m.Regular) (here : m.regions.get? r.base.toNat = some r)
    {host : HostAddr} {c : MappingChange} (done : m.remap r.base = .ok (host, c, m'))
    (inside : r.Hosts h) : m'.Rejects h := by
  have w' := w.remap done
  obtain ⟨x, b, heap, found, base, -, placed, -, rfl⟩ := exists_of_remap w done
  rw [base, here] at found
  cases found
  have fresh := Backing.fresh_of_allocate placed
  have vacant := hostInUse_eq_false fresh.unused here
  have less := Backing.le_roundUpToPage b.size
  refine w'.1.rejects fun r' there inside' => ?_
  rw [get?_relocated, get?_insertRegion] at there
  split at there
  · -- The region in its new place: its block was free while the old one was in use.
    cases there
    simp only [Region.Hosts, Region.size] at inside inside' vacant
    omega
  · obtain ⟨ne, old⟩ := get?_remove_eq_some.1 there
    exact ne (w.base_eq_of_hosts here old inside inside')

theorem faithful (w : m.Regular) : m.Faithful where
  pos r mem := (w.regular (w.mem_values.1 mem)).pos
  aligned r mem := ⟨(w.regular (w.mem_values.1 mem)).base, (w.regular (w.mem_values.1 mem)).size⟩
  apart := w.pairwise_values
  keyed k r := by
    rw [w.mem_values]
    constructor
    · intro found
      have key := w.keyed found
      exact ⟨key.symm ▸ found, key⟩
    · rintro ⟨found, rfl⟩
      exact found
  inverse h g := by
    rw [w.hosted]
    constructor
    · rintro ⟨r, found, rfl⟩
      have key := w.keyed found
      exact ⟨r, w.mem_values.2 (key.symm ▸ found), GuestAddr.ext_toNat key, rfl⟩
    · rintro ⟨r, mem, rfl, rfl⟩
      exact ⟨r, w.mem_values.1 mem, rfl⟩
  translate a mapping := by
    simp only [translate_eq_some_iff, w.find_iff_contains, and_assoc]
  untranslated a := by
    rw [MemoryMap.translate, Option.map_eq_none_iff, Option.eq_none_iff_forall_ne_some]
    simp only [ne_eq, w.find_iff_contains, not_and]
  findHost h r := w.findHost_iff_hosts
  unhosted h := by
    rw [Option.eq_none_iff_forall_ne_some]
    simp only [ne_eq, w.findHost_iff_hosts, not_and]
  removed r mem c m' done h inside := w.rejects_unmap (w.mem_values.1 mem) done inside
  moved r mem host c m' done h inside := w.rejects_remap (w.mem_values.1 mem) done inside

end Regular

/-- Whatever a map is asked and whatever the host does meanwhile, its tables are faithful. -/
theorem tables_faithful (calls : List Call) : (after calls).Faithful :=
  (regular_after calls).faithful

/-- A region that overlaps another is refused, and one that moves leaves its memory behind. -/
example :
    let m := after [.map ⟨0x10000⟩ 0x2000 .readWrite, .map ⟨0x11000⟩ 0x1000 .readWrite,
      .remap ⟨0x10000⟩]
    (m.regionCount = 1 ∧ (m.findHost ⟨0x200000000000⟩).isNone) ∧
      (m.findHost ⟨0x200000003000⟩).isSome := by
  decide

end MemoryMap

end GuestExec
