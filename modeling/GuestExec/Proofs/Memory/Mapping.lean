import GuestExec.Proofs.Memory.Layout

/-!
# Changes of the map

Mapping, unmapping, reprotecting and moving a region keep a map regular, or well
formed, and leave every translation outside the region as it was. Each of them
takes a region out, puts one in, or does the one after the other, so the work is
done by `Regular.remove` and `Regular.insertRegion`.
-/

namespace GuestExec

/-! ## Results and errors -/

theorem bind_eq_ok {ε α β : Type} {x : Except ε α} {f : α → Except ε β} {b : β}
    (h : (x >>= f) = .ok b) : ∃ a, x = .ok a ∧ f a = .ok b := by
  cases x with
  | error e => cases h
  | ok a => exact ⟨a, rfl, h⟩

theorem map_eq_ok {ε α β : Type} {x : Except ε α} {f : α → β} {b : β}
    (h : x.map f = .ok b) : ∃ a, x = .ok a ∧ f a = b := by
  cases x with
  | error e => cases h
  | ok a => exact ⟨a, rfl, Except.ok.inj h⟩

theorem map_eq_error {ε α β : Type} {x : Except ε α} {f : α → β} {e : ε}
    (h : x.map f = .error e) : x = .error e := by
  cases x with
  | error e' =>
    cases h
    rfl
  | ok a => cases h

section

variable {σ α ε : Type} {P : σ → Prop} {s : σ} {f : α → σ}

/-- What holds of a state, and of whatever a call that succeeds makes of it, holds after the
call. -/
theorem getD_map (h : P s) {o : Option α} (done : ∀ a, o = some a → P (f a)) :
    P ((o.map f).getD s) := by
  cases o with
  | none => exact h
  | some a => exact done a rfl

theorem getD_toOption (h : P s) {x : Except ε α} (done : ∀ a, x = .ok a → P (f a)) :
    P ((x.toOption.map f).getD s) := by
  cases x with
  | error e => exact h
  | ok a => exact done a rfl

theorem getD_ok (h : P s) {x : Except ε σ} (done : ∀ s', x = .ok s' → P s') :
    P (x.toOption.getD s) := by
  cases x with
  | error e => exact h
  | ok s' => exact done s' rfl

end

/-! ## New blocks of host memory -/

namespace Backing

/-- A new block: whole, within the host's addresses, and on pages that were not in use. -/
structure Fresh (inUse : Nat → Nat → Bool) (size : UInt64) (b : Backing) : Prop where
  size : b.size = size.toNat
  missing : b.missing = .empty
  bound : b.base.toNat + roundUpToPage b.size ≤ 0x1_0000_0000_0000_0000
  unused : inUse b.base.toNat (b.base.toNat + roundUpToPage b.size) = false

theorem le_roundUpToPage (n : Nat) : n ≤ roundUpToPage n := by
  simp only [roundUpToPage, pageSize]
  omega

/-- A block from the host's allocator, as it is made. -/
theorem eq_of_allocate {inUse : Nat → Nat → Bool} {heap heap' : HostHeap} {size : UInt64}
    {b : Backing} (h : allocate inUse heap size = .ok (b, heap')) :
    b = { base := b.base, size := size.toNat, kind := .heap, bytes := .zeros, guarded := .empty
          protection := .const .readWrite, missing := .empty } := by
  rw [allocate] at h
  split at h
  · cases h
  · cases h
    rfl

/-- A block at the guest's own address, as it is made: below the end of the host's addresses and
clear of the blocks in use. -/
theorem made_of_identity {inUse : Nat → Nat → Bool} {addr : GuestAddr} {size : UInt64}
    {perms : Perms} {b : Backing} (h : identity inUse addr size perms = .ok b) :
    addr.toNat + roundUpToPage size.toNat ≤ addressSpaceEnd ∧
      inUse addr.toNat (addr.toNat + roundUpToPage size.toNat) = false ∧
      b = { base := ⟨addr.word⟩, size := size.toNat, kind := .identity, bytes := .zeros
            guarded := .empty, protection := .const perms, missing := .empty } := by
  rw [identity] at h
  split at h
  · cases h
  · split at h
    · cases h
    · rename_i low
      split at h
      · cases h
      · split at h
        · cases h
        · rename_i unused
          split at h
          · cases h
          · cases h
            exact ⟨Nat.not_lt.1 low, (Bool.not_eq_true _).mp unused, rfl⟩

theorem eq_of_identity {inUse : Nat → Nat → Bool} {addr : GuestAddr} {size : UInt64}
    {perms : Perms} {b : Backing} (h : identity inUse addr size perms = .ok b) :
    b = { base := ⟨addr.word⟩, size := size.toNat, kind := .identity, bytes := .zeros
          guarded := .empty, protection := .const perms, missing := .empty } :=
  (made_of_identity h).2.2

theorem fresh_of_allocate {inUse : Nat → Nat → Bool} {heap heap' : HostHeap} {size : UInt64}
    {b : Backing} (h : allocate inUse heap size = .ok (b, heap')) : b.Fresh inUse size := by
  rw [allocate] at h
  split at h
  · cases h
  · rename_i base heap'' placed
    cases h
    rw [HostHeap.allocate] at placed
    split at placed
    · cases placed
    · rename_i room
      cases placed
      simp only [not_or, Bool.not_eq_true] at room
      obtain ⟨pos, -, bound, unused⟩ := room
      have less := le_roundUpToPage size.toNat
      have next : (UInt64.ofNat heap.next).toNat = heap.next := by
        rw [UInt64.toNat_ofNat']
        exact Nat.mod_eq_of_lt (by omega)
      constructor
      · rfl
      · rfl
      · simp only [HostAddr.toNat, next]
        omega
      · simpa only [HostAddr.toNat, next] using unused

theorem fresh_of_identity {inUse : Nat → Nat → Bool} {addr : GuestAddr} {size : UInt64}
    {perms : Perms} {b : Backing} (h : identity inUse addr size perms = .ok b) :
    b.Fresh inUse size := by
  obtain ⟨low, unused, rfl⟩ := made_of_identity h
  have small : addressSpaceEnd ≤ 0x1_0000_0000_0000_0000 := by decide
  exact ⟨rfl, rfl, Nat.le_trans low small, unused⟩

end Backing

namespace MemoryMap

variable {m m' : MemoryMap} {a : GuestAddr} {r r' : Region}

/-- Every translation of `m` that satisfies `kept` is one of `m'`. -/
def Extends (m m' : MemoryMap) (kept : GuestAddr → Prop) : Prop :=
  ∀ a mapping, kept a → m.translate a = some mapping → m'.translate a = some mapping

/-- A map that both tables read alike is well formed alike. -/
theorem WellFormed.congr (w : m.WellFormed) (regions : ∀ k, m'.regions.get? k = m.regions.get? k)
    (byHost : ∀ h, m'.byHost.get? h = m.byHost.get? h) : m'.WellFormed := by
  have same : SameExtents m m' := ⟨fun k => by rw [regions], byHost⟩
  exact ⟨same.regular w.toRegular, fun found => w.whole (regions _ ▸ found)⟩

/-- The map without the region `r`. -/
def remove (m : MemoryMap) (r : Region) : MemoryMap :=
  { m with
    regions := m.regions.erase r.base.toNat
    byHost := m.byHost.erase r.backing.base.toNat }

theorem get?_remove (m : MemoryMap) (r : Region) (k : Nat) :
    (m.remove r).regions.get? k = if k = r.base.toNat then none else m.regions.get? k :=
  AddressTable.get?_erase _ _ _

theorem get?_remove_eq_some {k : Nat} :
    (m.remove r).regions.get? k = some r' ↔
      k ≠ r.base.toNat ∧ m.regions.get? k = some r' := by
  rw [get?_remove]
  split <;> simp_all

/-- Regions of a map are told apart by their host bases too. -/
theorem Regular.key_of_hostBase (w : m.Regular) {k k' : Nat}
    (found : m.regions.get? k = some r) (found' : m.regions.get? k' = some r')
    (same : r.backing.base.toNat = r'.backing.base.toNat) : k = k' := by
  rcases Decidable.em (k = k') with eq | ne
  · exact eq
  · have pos := (w.regular found).pos
    have pos' := (w.regular found').pos
    have := w.hostApart found found' ne
    omega

theorem Regular.remove (w : m.Regular) (found : m.regions.get? r.base.toNat = some r) :
    (m.remove r).Regular := by
  constructor
  · intro k x hx
    exact w.keyed (get?_remove_eq_some.1 hx).2
  · intro k x hx
    exact w.regular (get?_remove_eq_some.1 hx).2
  · intro k x k' x' hx hx'
    exact w.apart (get?_remove_eq_some.1 hx).2 (get?_remove_eq_some.1 hx').2
  · intro h g
    rw [show (m.remove r).byHost.get? h = _ from AddressTable.get?_erase _ _ _]
    constructor
    · intro hosted
      split at hosted
      · cases hosted
      · rename_i ne
        obtain ⟨x, hx, rfl⟩ := w.hosted.1 hosted
        refine ⟨x, get?_remove_eq_some.2 ⟨fun same => ne ?_, hx⟩, rfl⟩
        rw [same, found] at hx
        cases hx
        rfl
    · rintro ⟨x, hx, rfl⟩
      obtain ⟨ne, hx⟩ := get?_remove_eq_some.1 hx
      rw [if_neg fun same => ne (w.key_of_hostBase hx found same)]
      exact w.hosted.2 ⟨x, hx, rfl⟩
  · intro k x k' x' hx hx'
    exact w.hostApart (get?_remove_eq_some.1 hx).2 (get?_remove_eq_some.1 hx').2

theorem WellFormed.remove (w : m.WellFormed) (found : m.regions.get? r.base.toNat = some r) :
    (m.remove r).WellFormed :=
  ⟨w.toRegular.remove found, fun there => w.whole (get?_remove_eq_some.1 there).2⟩

theorem extends_remove (w : m.Regular) (found : m.regions.get? r.base.toNat = some r) :
    Extends m (m.remove r) fun a => r.holds a = false := by
  intro a mapping outside h
  obtain ⟨x, hx, rfl⟩ := translate_eq_some_iff.1 h
  obtain ⟨atBase, held⟩ := w.find_iff.1 hx
  refine translate_eq_some_iff.2 ⟨x, (w.remove found).find_iff.2 ⟨?_, held⟩, rfl⟩
  refine get?_remove_eq_some.2 ⟨fun same => ?_, atBase⟩
  rw [same, found] at atBase
  cases atBase
  rw [held] at outside
  cases outside

theorem get?_insertRegion (m : MemoryMap) (r : Region) (k : Nat) :
    (m.insertRegion r).regions.get? k = if k = r.base.toNat then some r else m.regions.get? k :=
  AddressTable.get?_insert _ _ _ _

/-- No region of `m` shares an address with `r`, neither of the guest nor of the host. -/
structure Vacant (m : MemoryMap) (r : Region) : Prop where
  guest : ∀ {k x}, m.regions.get? k = some x → x.stop ≤ r.base.toNat ∨ r.stop ≤ k
  host : ∀ {k x}, m.regions.get? k = some x →
    r.backing.base.toNat + r.size ≤ x.backing.base.toNat ∨
      x.backing.base.toNat + x.size ≤ r.backing.base.toNat

theorem Vacant.key_ne (v : Vacant m r) (w : m.Regular) (regular : r.Regular) {k : Nat}
    {x : Region} (found : m.regions.get? k = some x) : k ≠ r.base.toNat := by
  intro same
  have key := w.keyed found
  have pos := (w.regular found).pos
  have pos' := regular.pos
  have := v.guest found
  simp only [Region.stop] at this
  omega

theorem get?_insertRegion_eq_some {k : Nat} {x : Region}
    (found : (m.insertRegion r).regions.get? k = some x) :
    (k = r.base.toNat ∧ x = r) ∨ m.regions.get? k = some x := by
  rw [get?_insertRegion] at found
  split at found
  · rename_i here
    exact .inl ⟨here, (Option.some.inj found).symm⟩
  · exact .inr found

theorem Vacant.get?_old (v : Vacant m r) (w : m.Regular) (regular : r.Regular) {k : Nat}
    {x : Region} (found : m.regions.get? k = some x) :
    (m.insertRegion r).regions.get? k = some x := by
  rw [get?_insertRegion, if_neg (v.key_ne w regular found), found]

theorem Regular.insertRegion (w : m.Regular) (v : Vacant m r) (regular : r.Regular) :
    (m.insertRegion r).Regular := by
  constructor
  · intro k x hx
    rcases get?_insertRegion_eq_some hx with ⟨rfl, rfl⟩ | old
    · rfl
    · exact w.keyed old
  · intro k x hx
    rcases get?_insertRegion_eq_some hx with ⟨rfl, rfl⟩ | old
    · exact regular
    · exact w.regular old
  · intro k x k' x' hx hx' lt
    rcases get?_insertRegion_eq_some hx with ⟨rfl, rfl⟩ | old <;>
      rcases get?_insertRegion_eq_some hx' with ⟨rfl, rfl⟩ | old'
    · omega
    · have := v.guest old'
      have := w.keyed old'
      simp only [Region.stop] at *
      omega
    · have := v.guest old
      have := w.keyed old
      simp only [Region.stop] at *
      have := regular.pos
      omega
    · exact w.apart old old' lt
  · intro h g
    have byHost : (m.insertRegion r).byHost.get? h =
        if h = r.backing.base.toNat then some r.base else m.byHost.get? h :=
      AddressTable.get?_insert _ _ _ _
    rw [byHost]
    constructor
    · intro hosted
      split at hosted
      · rename_i here
        cases hosted
        exact ⟨r, by rw [get?_insertRegion, if_pos rfl], here.symm⟩
      · obtain ⟨x, hx, rfl⟩ := w.hosted.1 hosted
        exact ⟨x, v.get?_old w regular hx, rfl⟩
    · rintro ⟨x, hx, rfl⟩
      rcases get?_insertRegion_eq_some hx with ⟨here, rfl⟩ | old
      · rw [if_pos rfl, GuestAddr.ext_toNat here]
      · have ne : x.backing.base.toNat ≠ r.backing.base.toNat := by
          have := v.host old
          have := (w.regular old).pos
          have := regular.pos
          omega
        rw [if_neg ne]
        exact w.hosted.2 ⟨x, old, rfl⟩
  · intro k x k' x' hx hx' ne
    rcases get?_insertRegion_eq_some hx with ⟨rfl, rfl⟩ | old <;>
      rcases get?_insertRegion_eq_some hx' with ⟨rfl, rfl⟩ | old'
    · exact absurd rfl ne
    · exact v.host old'
    · exact (v.host old).symm
    · exact w.hostApart old old' ne

theorem WellFormed.insertRegion (w : m.WellFormed) (v : Vacant m r) (paged : r.Paged) :
    (m.insertRegion r).WellFormed := by
  refine ⟨w.toRegular.insertRegion v paged.toRegular, fun there => ?_⟩
  rcases get?_insertRegion_eq_some there with ⟨-, rfl⟩ | old
  · exact paged.whole
  · exact w.whole old

theorem extends_insertRegion (w : m.Regular) (v : Vacant m r) (regular : r.Regular) :
    Extends m (m.insertRegion r) fun _ => True := by
  intro a mapping _ h
  obtain ⟨x, hx, rfl⟩ := translate_eq_some_iff.1 h
  obtain ⟨atBase, held⟩ := w.find_iff.1 hx
  exact translate_eq_some_iff.2
    ⟨x, (w.insertRegion v regular).find_iff.2 ⟨v.get?_old w regular atBase, held⟩, rfl⟩

/-! ## The operations -/

/-- What is asked of a new region before it gets its memory. -/
structure Admissible (m : MemoryMap) (addr : GuestAddr) (size : UInt64) : Prop where
  pos : 0 < size.toNat
  base : addr.toNat % pageSize = 0
  whole : size.toNat % pageSize = 0
  free : ∀ {k x}, m.regions.get? k = some x →
    x.stop ≤ addr.toNat ∨ addr.toNat + size.toNat ≤ x.base.toNat

theorem admissible_of_checkNew {addr : GuestAddr} {size : UInt64}
    (h : m.checkNew addr size = .ok ()) : Admissible m addr size := by
  rw [checkNew] at h
  split at h
  · cases h
  · rename_i aligned
    split at h
    · cases h
    · rename_i free
      simp only [not_or, Decidable.not_not] at aligned
      obtain ⟨pos, addrAligned, sizeAligned⟩ := aligned
      refine ⟨?_, addrAligned, sizeAligned, fun {k x} found => ?_⟩
      · have : size.toNat ≠ 0 := fun zero => pos (UInt64.toNat_inj.1 zero)
        omega
      · simp only [overlaps, Bool.not_eq_true, List.any_eq_false, Bool.and_eq_true,
          decide_eq_true_eq] at free
        have := free x (AddressTable.mem_values.2 ⟨k, found⟩)
        omega

theorem hostInUse_eq_false {lo hi : Nat} (h : m.hostInUse lo hi = false) {k : Nat} {x : Region}
    (found : m.regions.get? k = some x) :
    hi ≤ x.backing.base.toNat ∨ x.backing.base.toNat + x.size ≤ lo := by
  simp only [hostInUse, List.any_eq_false, Backing.occupies, Bool.and_eq_true,
    decide_eq_true_eq] at h
  have := h x (AddressTable.mem_values.2 ⟨k, found⟩)
  have := Backing.le_roundUpToPage x.backing.size
  simp only [Region.size]
  omega

/-- A region with a new block of whole pages. -/
theorem paged_of_fresh {addr : GuestAddr} {size : UInt64} {perms : Perms} {b : Backing}
    {inUse : Nat → Nat → Bool} (fresh : b.Fresh inUse size) (pos : 0 < size.toNat)
    (aligned : addr.toNat % pageSize = 0) (whole : size.toNat % pageSize = 0) :
    Region.Paged { base := addr, perms, backing := b } := by
  have bound := fresh.bound
  have less := Backing.le_roundUpToPage b.size
  refine ⟨⟨aligned, ?_, ?_, ?_, ?_⟩, fresh.missing⟩
  · rw [Region.size, fresh.size]
    exact whole
  · rw [Region.size, fresh.size]
    exact pos
  · rw [Region.size, fresh.size]
    exact size.toNat_lt
  · show b.base.toNat + b.size ≤ 0x1_0000_0000_0000_0000
    omega

theorem vacant_of_fresh {addr : GuestAddr} {size : UInt64} {perms : Perms} {b : Backing}
    (w : m.Regular) (adm : Admissible m addr size) (fresh : b.Fresh m.hostInUse size) :
    Vacant m { base := addr, perms, backing := b } := by
  have unused := fresh.unused
  have less := Backing.le_roundUpToPage b.size
  constructor
  · intro k x found
    have key := w.keyed found
    have free := adm.free found
    rw [key, ← fresh.size] at free
    exact free
  · intro k x found
    have := hostInUse_eq_false unused found
    show b.base.toNat + b.size ≤ _ ∨ _ ≤ b.base.toNat
    omega

/-- A new region with a new block keeps the map regular and all translations. -/
theorem Regular.insert_fresh (w : m.Regular) {addr : GuestAddr} {size : UInt64} (perms : Perms)
    {b : Backing} (checked : m.checkNew addr size = .ok ()) (fresh : b.Fresh m.hostInUse size) :
    (m.insertRegion { base := addr, perms, backing := b }).Regular ∧
      Extends m (m.insertRegion { base := addr, perms, backing := b }) fun _ => True := by
  have adm := admissible_of_checkNew checked
  have paged : Region.Paged { base := addr, perms, backing := b } :=
    paged_of_fresh fresh adm.pos adm.base adm.whole
  have vacant : Vacant m { base := addr, perms, backing := b } := vacant_of_fresh w adm fresh
  exact ⟨w.insertRegion vacant paged.toRegular, extends_insertRegion w vacant paged.toRegular⟩

theorem WellFormed.insert_fresh (w : m.WellFormed) {addr : GuestAddr} {size : UInt64}
    (perms : Perms) {b : Backing} (checked : m.checkNew addr size = .ok ())
    (fresh : b.Fresh m.hostInUse size) :
    (m.insertRegion { base := addr, perms, backing := b }).WellFormed := by
  refine ⟨(w.toRegular.insert_fresh perms checked fresh).1, fun there => ?_⟩
  rcases get?_insertRegion_eq_some there with ⟨-, rfl⟩ | old
  · exact fresh.missing
  · exact w.whole old

theorem exists_of_map {addr : GuestAddr} {size : UInt64} {perms : Perms}
    (h : m.map addr size perms = .ok m') :
    m.checkNew addr size = .ok () ∧ ∃ b heap, Backing.allocate m.hostInUse m.heap size =
      .ok (b, heap) ∧ m' = { m.insertRegion { base := addr, perms, backing := b } with heap } := by
  obtain ⟨⟨⟩, checked, h⟩ := bind_eq_ok h
  obtain ⟨⟨b, heap⟩, placed, h⟩ := bind_eq_ok h
  cases h
  exact ⟨checked, b, heap, placed, rfl⟩

theorem exists_of_mapIdentity {addr : GuestAddr} {size : UInt64} {perms : Perms}
    (h : m.mapIdentity addr size perms = .ok m') :
    m.checkNew addr size = .ok () ∧ ∃ b, Backing.identity m.hostInUse addr size perms = .ok b ∧
      m' = m.insertRegion { base := addr, perms, backing := b } := by
  obtain ⟨⟨⟩, checked, h⟩ := bind_eq_ok h
  obtain ⟨b, placed, h⟩ := bind_eq_ok h
  cases h
  exact ⟨checked, b, placed, rfl⟩

theorem Regular.map (w : m.Regular) {addr : GuestAddr} {size : UInt64} {perms : Perms}
    (h : m.map addr size perms = .ok m') : m'.Regular ∧ Extends m m' fun _ => True := by
  obtain ⟨checked, b, heap, placed, rfl⟩ := exists_of_map h
  obtain ⟨regular, ext⟩ := w.insert_fresh perms checked (Backing.fresh_of_allocate placed)
  have same : SameExtents (m.insertRegion { base := addr, perms, backing := b })
      { m.insertRegion { base := addr, perms, backing := b } with heap } :=
    ⟨fun _ => rfl, fun _ => rfl⟩
  exact ⟨same.regular regular, ext⟩

theorem WellFormed.map (w : m.WellFormed) {addr : GuestAddr} {size : UInt64} {perms : Perms}
    (h : m.map addr size perms = .ok m') : m'.WellFormed := by
  obtain ⟨checked, b, heap, placed, rfl⟩ := exists_of_map h
  have w' := w.insert_fresh perms checked (Backing.fresh_of_allocate placed)
  exact w'.congr (fun _ => rfl) fun _ => rfl

theorem Regular.mapIdentity (w : m.Regular) {addr : GuestAddr} {size : UInt64} {perms : Perms}
    (h : m.mapIdentity addr size perms = .ok m') :
    m'.Regular ∧ Extends m m' fun _ => True := by
  obtain ⟨checked, b, placed, rfl⟩ := exists_of_mapIdentity h
  exact w.insert_fresh perms checked (Backing.fresh_of_identity placed)

theorem WellFormed.mapIdentity (w : m.WellFormed) {addr : GuestAddr} {size : UInt64}
    {perms : Perms} (h : m.mapIdentity addr size perms = .ok m') : m'.WellFormed := by
  obtain ⟨checked, b, placed, rfl⟩ := exists_of_mapIdentity h
  exact w.insert_fresh perms checked (Backing.fresh_of_identity placed)

theorem get?_of_regionAt {addr : GuestAddr} (w : m.Regular) (h : m.regionAt addr = .ok r) :
    r.base = addr ∧ m.regions.get? r.base.toNat = some r := by
  rw [regionAt] at h
  split at h
  · rename_i x found
    cases h
    have key := w.keyed found
    exact ⟨GuestAddr.ext_toNat key, key ▸ found⟩
  · cases h

/-- A region of the same extent fits into the place of `r`, wherever its memory is free. -/
theorem Regular.vacant_remove (w : m.Regular) (found : m.regions.get? r.base.toNat = some r)
    (base : r'.base = r.base) (size : r'.size = r.size)
    (host : ∀ {k x}, k ≠ r.base.toNat → m.regions.get? k = some x →
      r'.backing.base.toNat + r'.size ≤ x.backing.base.toNat ∨
        x.backing.base.toNat + x.size ≤ r'.backing.base.toNat) : Vacant (m.remove r) r' := by
  constructor
  · intro k x hx
    obtain ⟨ne, old⟩ := get?_remove_eq_some.1 hx
    have key := w.keyed old
    rcases Nat.lt_or_gt_of_ne ne with lt | gt
    · exact .inl (base ▸ w.apart old found lt)
    · refine .inr ?_
      rw [Region.stop, base, size]
      exact w.apart found old gt
  · intro k x hx
    obtain ⟨ne, old⟩ := get?_remove_eq_some.1 hx
    exact host ne old

/-- Maps that both tables of regions read alike translate alike. -/
theorem Regular.translate_congr (w : m.Regular) (w' : m'.Regular)
    (regions : ∀ k, m'.regions.get? k = m.regions.get? k) (a : GuestAddr) :
    m'.translate a = m.translate a := by
  have same : m'.find a = m.find a := by
    apply Option.ext
    intro r
    rw [w.find_iff, w'.find_iff, regions]
  rw [translate, translate, same]

theorem frame_of_hostProtect {b b' : Backing} {lo hi : Nat} {perms : Perms}
    (h : b.hostProtect lo hi perms = .ok b') :
    b'.base = b.base ∧ b'.size = b.size ∧ b'.kind = b.kind ∧ b'.missing = b.missing ∧
      b'.guarded = b.guarded ∧ b'.bytes = b.bytes := by
  rw [Backing.hostProtect] at h
  split at h
  · cases h
  · cases h
    exact ⟨rfl, rfl, rfl, rfl, rfl, rfl⟩

theorem frame_of_reprotect {b b' : Backing} {perms : Perms} (h : b.reprotect perms = .ok b') :
    b'.base = b.base ∧ b'.size = b.size ∧ b'.kind = b.kind ∧ b'.missing = b.missing := by
  simp only [Backing.reprotect] at h
  split at h
  · obtain ⟨b₁, renewed, h⟩ := bind_eq_ok h
    obtain ⟨base, size, kind, missing, -⟩ := frame_of_hostProtect renewed
    cases h
    exact ⟨base, size, kind, missing⟩
  · cases h
    exact ⟨rfl, rfl, rfl, rfl⟩

theorem extent_of_reprotect {b : Backing} {perms : Perms} (h : r.backing.reprotect perms = .ok b)
    (perms' : Perms) :
    Region.extent { r with perms := perms', backing := b } = r.extent := by
  obtain ⟨base, size, -⟩ := frame_of_reprotect h
  simp only [Region.extent, base, size]

/-- Replacing a region in its place leaves the addresses outside it alone. -/
theorem extends_setRegion (w : m.Regular) (found : m.regions.get? r.base.toNat = some r)
    (extent : r'.extent = r.extent) : Extends m (m.setRegion r') fun a => r.holds a = false := by
  intro a mapping outside h
  have w' := (sameExtents_setRegion found extent).regular w
  have base : r'.base = r.base := congrArg Region.Extent.base extent
  obtain ⟨x, hx, rfl⟩ := translate_eq_some_iff.1 h
  obtain ⟨atBase, held⟩ := w.find_iff.1 hx
  have ne : x.base.toNat ≠ r'.base.toNat := fun same => by
    rw [same, base, found] at atBase
    cases atBase
    rw [held] at outside
    cases outside
  exact translate_eq_some_iff.2
    ⟨x, w'.find_iff.2 ⟨by rw [get?_setRegion, if_neg ne, atBase], held⟩, rfl⟩

end MemoryMap

/-- The change tells of the address `a`. -/
def MappingChange.Touches (c : MappingChange) (a : GuestAddr) : Prop :=
  c.addr.toNat ≤ a.toNat ∧ a.toNat < c.addr.toNat + c.size.toNat

namespace MemoryMap

variable {m m' : MemoryMap} {r r' : Region}

/-- A change of the whole region `r` tells of the addresses that `r` holds. -/
theorem holds_eq_false {c : MappingChange} {a : GuestAddr} (regular : r.Regular)
    (base : r.base = c.addr) (size : c.size = UInt64.ofNat r.size) (outside : ¬c.Touches a) :
    r.holds a = false := by
  rw [← Bool.not_eq_true, Region.holds_iff, Region.stop, base]
  rw [MappingChange.Touches, size, UInt64.toNat_ofNat', Nat.mod_eq_of_lt regular.fits] at outside
  exact outside

theorem exists_of_unmap (w : m.Regular) {addr : GuestAddr} {c : MappingChange}
    (h : m.unmap addr = .ok (c, m')) :
    ∃ r, m.regions.get? r.base.toNat = some r ∧ r.base = addr ∧
      c = { kind := .unmapped, addr, size := UInt64.ofNat r.size } ∧ m' = m.remove r := by
  obtain ⟨r, atAddr, h⟩ := bind_eq_ok h
  obtain ⟨base, found⟩ := get?_of_regionAt w atAddr
  subst base
  cases h
  exact ⟨r, found, rfl, rfl, rfl⟩

theorem exists_of_protect (w : m.Regular) {addr : GuestAddr} {perms : Perms} {c : MappingChange}
    (h : m.protect addr perms = .ok (c, m')) :
    ∃ r b, m.regions.get? r.base.toNat = some r ∧ r.base = addr ∧
      r.backing.reprotect perms = .ok b ∧
      c = { kind := .reprotected perms, addr, size := UInt64.ofNat r.size } ∧
      m' = m.setRegion { r with perms, backing := b } := by
  obtain ⟨r, atAddr, h⟩ := bind_eq_ok h
  obtain ⟨base, found⟩ := get?_of_regionAt w atAddr
  subst base
  obtain ⟨b, changed, h⟩ := bind_eq_ok h
  cases h
  exact ⟨r, b, found, rfl, changed, rfl, rfl⟩

theorem exists_of_remap (w : m.Regular) {addr : GuestAddr} {host : HostAddr} {c : MappingChange}
    (h : m.remap addr = .ok (host, c, m')) :
    ∃ r b heap, m.regions.get? r.base.toNat = some r ∧ r.base = addr ∧
      r.backing.isIdentity = false ∧
      Backing.allocate m.hostInUse m.heap (UInt64.ofNat r.size) = .ok (b, heap) ∧
      c = { kind := .remapped, addr, size := UInt64.ofNat r.size } ∧
      m' = ({ m with heap, byHost := m.byHost.erase r.backing.base.toNat } :
        MemoryMap).insertRegion { r with backing := b } := by
  obtain ⟨r, atAddr, h⟩ := bind_eq_ok h
  obtain ⟨base, found⟩ := get?_of_regionAt w atAddr
  subst base
  dsimp only at h
  split at h
  · cases h
  · rename_i movable
    obtain ⟨⟨b, heap⟩, placed, h⟩ := bind_eq_ok h
    cases h
    exact ⟨r, b, heap, found, rfl, (Bool.not_eq_true _).mp movable, placed, rfl, rfl⟩

theorem Regular.unmap (w : m.Regular) {addr : GuestAddr} {c : MappingChange}
    (h : m.unmap addr = .ok (c, m')) : m'.Regular ∧ Extends m m' fun a => ¬c.Touches a := by
  obtain ⟨r, found, rfl, rfl, rfl⟩ := exists_of_unmap w h
  refine ⟨w.remove found, fun a mapping outside => ?_⟩
  exact extends_remove w found a mapping (holds_eq_false (w.regular found) rfl rfl outside)

theorem WellFormed.unmap (w : m.WellFormed) {addr : GuestAddr} {c : MappingChange}
    (h : m.unmap addr = .ok (c, m')) : m'.WellFormed := by
  obtain ⟨r, found, -, -, rfl⟩ := exists_of_unmap w.toRegular h
  exact w.remove found

theorem Regular.protect (w : m.Regular) {addr : GuestAddr} {perms : Perms} {c : MappingChange}
    (h : m.protect addr perms = .ok (c, m')) :
    m'.Regular ∧ Extends m m' fun a => ¬c.Touches a := by
  obtain ⟨r, b, found, rfl, changed, rfl, rfl⟩ := exists_of_protect w h
  have extent := extent_of_reprotect changed perms
  refine ⟨(sameExtents_setRegion found extent).regular w, fun a mapping outside => ?_⟩
  exact extends_setRegion w found extent a mapping
    (holds_eq_false (w.regular found) rfl rfl outside)

theorem WellFormed.protect (w : m.WellFormed) {addr : GuestAddr} {perms : Perms}
    {c : MappingChange} (h : m.protect addr perms = .ok (c, m')) : m'.WellFormed := by
  have regular := (w.toRegular.protect h).1
  obtain ⟨r, b, found, -, changed, -, rfl⟩ := exists_of_protect w.toRegular h
  refine ⟨regular, fun {k x} there => ?_⟩
  rw [get?_setRegion] at there
  split at there
  · cases there
    exact (frame_of_reprotect changed).2.2.2.trans (w.whole found)
  · exact w.whole there

/-- A region that moves keeps its extent, and its new memory is free. -/
theorem Regular.vacant_moved (w : m.Regular) (found : m.regions.get? r.base.toNat = some r)
    {b : Backing} (fresh : b.Fresh m.hostInUse (UInt64.ofNat r.size)) :
    Region.Paged { r with backing := b } ∧ Vacant (m.remove r) { r with backing := b } := by
  have old := w.regular found
  have size : b.size = r.size := by
    rw [fresh.size, UInt64.toNat_ofNat', Nat.mod_eq_of_lt old.fits]
  have pos := old.pos
  have whole := old.size
  rw [← size, fresh.size] at pos whole
  refine ⟨paged_of_fresh fresh pos old.base whole, w.vacant_remove found rfl size ?_⟩
  intro k x ne other
  have := hostInUse_eq_false fresh.unused other
  have := Backing.le_roundUpToPage b.size
  simp only [Region.size] at *
  omega

theorem get?_relocated (m : MemoryMap) (r : Region) (b : Backing) (heap : HostHeap) (k : Nat) :
    (({ m with heap, byHost := m.byHost.erase r.backing.base.toNat } :
      MemoryMap).insertRegion { r with backing := b }).regions.get? k =
      ((m.remove r).insertRegion { r with backing := b }).regions.get? k := by
  rw [get?_insertRegion, get?_insertRegion, get?_remove]
  split <;> rfl

theorem Regular.remap (w : m.Regular) {addr : GuestAddr} {host : HostAddr} {c : MappingChange}
    (h : m.remap addr = .ok (host, c, m')) :
    m'.Regular ∧ Extends m m' fun a => ¬c.Touches a := by
  obtain ⟨r, b, heap, found, rfl, -, placed, rfl, rfl⟩ := exists_of_remap w h
  obtain ⟨paged, vacant⟩ := w.vacant_moved found (Backing.fresh_of_allocate placed)
  have same : SameExtents ((m.remove r).insertRegion { r with backing := b })
      (({ m with heap, byHost := m.byHost.erase r.backing.base.toNat } :
        MemoryMap).insertRegion { r with backing := b }) :=
    ⟨fun k => by rw [get?_relocated], fun _ => rfl⟩
  have moved := (w.remove found).insertRegion vacant paged.toRegular
  have regular := same.regular moved
  refine ⟨regular, fun a mapping outside translated => ?_⟩
  rw [moved.translate_congr regular (get?_relocated m r b heap)]
  refine extends_insertRegion (w.remove found) vacant paged.toRegular a mapping trivial ?_
  exact extends_remove w found a mapping
    (holds_eq_false (w.regular found) rfl rfl outside) translated

theorem WellFormed.remap (w : m.WellFormed) {addr : GuestAddr} {host : HostAddr}
    {c : MappingChange} (h : m.remap addr = .ok (host, c, m')) : m'.WellFormed := by
  obtain ⟨r, b, heap, found, -, -, placed, -, rfl⟩ := exists_of_remap w.toRegular h
  obtain ⟨paged, vacant⟩ := w.toRegular.vacant_moved found (Backing.fresh_of_allocate placed)
  exact ((w.remove found).insertRegion vacant paged).congr (get?_relocated m r b heap) fun _ => rfl

/-! ### Pages that the host takes away -/

/-- A region that lies where another did and allows the same translates alike. -/
theorem Regular.extends_setRegion_alike (w : m.Regular)
    (found : m.regions.get? r.base.toNat = some r) (extent : r'.extent = r.extent)
    (perms : r'.perms = r.perms) :
    (m.setRegion r').Regular ∧ Extends m (m.setRegion r') fun _ => True := by
  have w' := (sameExtents_setRegion found extent).regular w
  refine ⟨w', fun a mapping _ translated => ?_⟩
  rw [← translated]
  injection extent with base host size
  have place : ∀ x, some r' = some x → x.base = r.base ∧ x.size = r.size := by
    intro x here
    cases here
    exact ⟨base, size⟩
  have regions : ∀ k, (m.setRegion r').regions.get? k =
      if k = r.base.toNat then some r' else m.regions.get? k := by
    intro k
    rw [get?_setRegion, base]
  rw [translate, translate, w.find_replaced w' found place regions]
  split
  · rename_i held
    rw [w.find_iff.2 ⟨found, held⟩]
    simp only [Option.map_some, Region.mapping, Region.size, base, host, size, perms]
  · rfl

/-- Translations know nothing of lost pages. -/
theorem Regular.loseHostPage (w : m.Regular) (addr : GuestAddr) :
    (m.loseHostPage addr).Regular ∧ Extends m (m.loseHostPage addr) fun _ => True := by
  rw [MemoryMap.loseHostPage]
  split
  · exact ⟨w, fun _ _ _ translated => translated⟩
  · rename_i r found
    split
    · have there := (w.find_iff.1 found).1
      exact w.extends_setRegion_alike there rfl rfl
    · exact ⟨w, fun _ _ _ translated => translated⟩

end MemoryMap

end GuestExec
