import GuestExec.Proofs.Memory.Contents

/-!
# Calls on a map

A `Call` is whatever can happen to a map: what it is asked, and what the host
does behind its back. `after` is the map that a sequence of calls makes of an
empty one. A region that a call leaves in the map has gone through a `Change`, and
one that was not there is `New`; from these two follow the invariants of single
regions. How the regions lie to each other is a matter of `Regular` maps.
-/

namespace GuestExec

namespace MemoryMap

/-- One call. Reads are left out: they change nothing. -/
inductive Call where
  | map (addr : GuestAddr) (size : UInt64) (perms : Perms)
  | mapIdentity (addr : GuestAddr) (size : UInt64) (perms : Perms)
  | unmap (addr : GuestAddr)
  | protect (addr : GuestAddr) (perms : Perms)
  | remap (addr : GuestAddr)
  | guard (addr : GuestAddr) (size : UInt64)
  | resolveFault (addr : GuestAddr) (access : Access)
  | write (addr : GuestAddr) (data : List UInt8)
  | writeHost (host : HostAddr) (data : List UInt8)
  /-- The host's allocator will try `next` for its next block. -/
  | placeNext (next : Nat)
  /-- The host takes the page of `addr` away and refuses to protect it from then on. -/
  | losePage (addr : GuestAddr)
deriving DecidableEq, Repr

/-- The map after one call. One that fails changes nothing, but a write keeps the pieces before
the one that failed, and guards stay even if the host refuses to protect their pages. -/
def apply (m : MemoryMap) : Call → MemoryMap
  | .map addr size perms => (m.map addr size perms).toOption.getD m
  | .mapIdentity addr size perms => (m.mapIdentity addr size perms).toOption.getD m
  | .unmap addr => ((m.unmap addr).toOption.map (·.2)).getD m
  | .protect addr perms => ((m.protect addr perms).toOption.map (·.2)).getD m
  | .remap addr => ((m.remap addr).toOption.map (·.2.2)).getD m
  | .guard addr size => (m.guardRange addr size).2
  | .resolveFault addr access => (m.resolveFault addr access).2
  | .write addr data => (m.write addr data).2
  | .writeHost host data => (m.writeHost host data).toOption.getD m
  | .placeNext next => { m with heap := ⟨next⟩ }
  | .losePage addr => m.loseHostPage addr

/-- The map after `calls`, made one after the other on an empty one. -/
def after (calls : List Call) : MemoryMap := calls.foldl apply empty

end MemoryMap

/-! ## What becomes of a region -/

/-- What one call makes of a region that stays in the map. -/
inductive Region.Change (r : Region) : Region → Prop where
  | write (bytes : ByteStore) : r.Change { r with backing := { r.backing with bytes } }
  | guard (offset len : Nat) : r.Change { r with backing := (r.backing.guard offset len).2 }
  | mend {offset len : Nat} {b : Backing} : r.backing.unguard offset len r.perms = .ok b →
    r.Change { r with backing := b }
  | reprotect {perms : Perms} {b : Backing} : r.backing.reprotect perms = .ok b →
    r.Change { r with perms, backing := b }
  | move {inUse : Nat → Nat → Bool} {heap heap' : HostHeap} {size : UInt64} {b : Backing} :
    r.backing.isIdentity = false → Backing.allocate inUse heap size = .ok (b, heap') →
    r.Change { r with backing := b }
  | lose (page : Nat) : r.backing.isIdentity = true → r.Change
      { r with backing := { r.backing with missing := r.backing.missing.insert page (page + 1) } }

/-- A region as it comes into a map. -/
inductive Region.New : Region → Prop where
  | heap {inUse : Nat → Nat → Bool} {heap heap' : HostHeap} {addr : GuestAddr} {size : UInt64}
    {perms : Perms} {b : Backing} : Backing.allocate inUse heap size = .ok (b, heap') →
    New { base := addr, perms, backing := b }
  | identity {inUse : Nat → Nat → Bool} {addr : GuestAddr} {size : UInt64} {perms : Perms}
    {b : Backing} : Backing.identity inUse addr size perms = .ok b →
    New { base := addr, perms, backing := b }

theorem Region.Change.refl (r : Region) : r.Change r := .write r.backing.bytes

namespace MemoryMap

variable {m m' : MemoryMap} {a : GuestAddr} {r r' : Region} {calls : List Call} {call : Call}
  {k : Nat}

/-- Each region of `m'` is one of `m` that has changed, or a new one. -/
def Renewed (m m' : MemoryMap) : Prop :=
  ∀ k r', m'.regions.get? k = some r' →
    (∃ r, m.regions.get? k = some r ∧ r.Change r') ∨ r'.New

theorem Renewed.refl (m : MemoryMap) : Renewed m m := fun _ r found => .inl ⟨r, found, .refl r⟩

theorem renewed_setRegion (found : m.regions.get? r.base.toNat = some r) (base : r'.base = r.base)
    (change : r.Change r') : Renewed m (m.setRegion r') := by
  intro k x there
  rw [get?_setRegion, base] at there
  split at there
  · rename_i here
    cases there
    exact .inl ⟨r, here ▸ found, change⟩
  · exact .inl ⟨x, there, .refl x⟩

theorem renewed_insertRegion (new : r.New) : Renewed m (m.insertRegion r) := by
  intro k x there
  rcases get?_insertRegion_eq_some there with ⟨-, rfl⟩ | old
  · exact .inr new
  · exact .inl ⟨x, old, .refl x⟩

/-! ### The operations -/

theorem Regular.setRegion (w : m.Regular) (found : m.regions.get? r.base.toNat = some r)
    (extent : r'.extent = r.extent) : (m.setRegion r').Regular :=
  (sameExtents_setRegion found extent).regular w

theorem Regular.writeHost (w : m.Regular) {host : HostAddr} {data : List UInt8}
    (h : m.writeHost host data = .ok m') : m'.Regular := by
  obtain ⟨r, found, -, rfl⟩ := writeHost_eq_ok_iff.1 h
  exact w.setRegion (w.findHost_iff.1 found).1 rfl

/-- A write leaves the regions where they are; it may change the bytes of several. -/
theorem Regular.write (w : m.Regular) (addr : GuestAddr) (data : List UInt8) :
    (m.write addr data).2.Regular ∧ ∀ k r', (m.write addr data).2.regions.get? k = some r' →
      ∃ r bytes, m.regions.get? k = some r ∧
        r' = { r with backing := { r.backing with bytes } } := by
  fun_induction m.write addr data with
  | case1 => exact ⟨w, fun k r found => ⟨r, _, found, rfl⟩⟩
  | case2 => exact ⟨w, fun k r found => ⟨r, _, found, rfl⟩⟩
  | case3 => exact ⟨w, fun k r found => ⟨r, _, found, rfl⟩⟩
  | case4 m addr data _ host avail _ _ n m₁ written ih =>
    obtain ⟨x, found, -, rfl⟩ := writeHost_eq_ok_iff.1 written
    obtain ⟨w', rest⟩ := ih (w.writeHost written)
    refine ⟨w', fun k r' there => ?_⟩
    obtain ⟨r₁, bytes', there₁, rfl⟩ := rest k r' there
    rw [get?_setRegion] at there₁
    split at there₁
    · rename_i here
      cases there₁
      exact ⟨x, bytes', here ▸ (w.findHost_iff.1 found).1, rfl⟩
    · exact ⟨r₁, bytes', there₁, rfl⟩

theorem guardRange_cases (w : m.Regular) (addr : GuestAddr) (size : UInt64) :
    (m.guardRange addr size).2 = m ∨ ∃ r offset len, m.regions.get? r.base.toNat = some r ∧
      (m.guardRange addr size).2 =
        m.setRegion { r with backing := (r.backing.guard offset len).2 } := by
  rw [guardRange]
  split
  · exact .inl rfl
  · rename_i r found
    exact .inr ⟨r, _, _, (w.find_iff.1 found).1, rfl⟩

theorem resolveFault_cases (w : m.Regular) (a : GuestAddr) (access : Access) :
    (m.resolveFault a access).2 = m ∨ ∃ r offset len b, m.regions.get? r.base.toNat = some r ∧
      r.backing.unguard offset len r.perms = .ok b ∧
      (m.resolveFault a access).2 = m.setRegion { r with backing := b } := by
  unfold resolveFault
  split
  · exact .inl rfl
  · rename_i r found
    dsimp only
    split
    · split
      · rename_i b lifted
        exact .inr ⟨r, _, _, b, (w.find_iff.1 found).1, lifted, rfl⟩
      · exact .inl rfl
    · exact .inl rfl

theorem loseHostPage_cases (w : m.Regular) (a : GuestAddr) :
    m.loseHostPage a = m ∨ ∃ r page, m.regions.get? r.base.toNat = some r ∧
      r.backing.isIdentity = true ∧ m.loseHostPage a = m.setRegion { r with backing :=
        { r.backing with missing := r.backing.missing.insert page (page + 1) } } := by
  rw [loseHostPage]
  split
  · exact .inl rfl
  · rename_i r found
    split
    · rename_i identity
      exact .inr ⟨r, _, (w.find_iff.1 found).1, identity, rfl⟩
    · exact .inl rfl

theorem renewed_unmap (w : m.Regular) {addr : GuestAddr} {c : MappingChange}
    (h : m.unmap addr = .ok (c, m')) : Renewed m m' := by
  obtain ⟨r, -, -, -, rfl⟩ := exists_of_unmap w h
  intro k x there
  exact .inl ⟨x, (get?_remove_eq_some.1 there).2, .refl x⟩

theorem renewed_protect (w : m.Regular) {addr : GuestAddr} {perms : Perms} {c : MappingChange}
    (h : m.protect addr perms = .ok (c, m')) : Renewed m m' := by
  obtain ⟨r, b, found, -, changed, -, rfl⟩ := exists_of_protect w h
  exact renewed_setRegion found rfl (.reprotect changed)

theorem renewed_remap (w : m.Regular) {addr : GuestAddr} {host : HostAddr} {c : MappingChange}
    (h : m.remap addr = .ok (host, c, m')) : Renewed m m' := by
  obtain ⟨r, b, heap, found, -, movable, placed, -, rfl⟩ := exists_of_remap w h
  intro k x there
  rw [get?_relocated, get?_insertRegion] at there
  split at there
  · rename_i here
    cases there
    exact .inl ⟨r, here ▸ found, .move movable placed⟩
  · exact .inl ⟨x, (get?_remove_eq_some.1 there).2, .refl x⟩

/-! ### Sequences of calls -/

/-- Whatever happens, the regions lie apart and both tables know where. -/
theorem Regular.apply (w : m.Regular) (call : Call) : (m.apply call).Regular := by
  cases call with
  | map addr size perms => exact getD_ok w fun _ done => (w.map done).1
  | mapIdentity addr size perms => exact getD_ok w fun _ done => (w.mapIdentity done).1
  | unmap addr => exact getD_toOption w fun _ done => (w.unmap done).1
  | protect addr perms => exact getD_toOption w fun _ done => (w.protect done).1
  | remap addr => exact getD_toOption w fun _ done => (w.remap done).1
  | guard addr size =>
    show (m.guardRange addr size).2.Regular
    rcases guardRange_cases w addr size with same | ⟨r, offset, len, found, eq⟩
    · rw [same]
      exact w
    · obtain ⟨base, size, -⟩ := r.backing.frame_of_guard offset len
      rw [eq]
      exact w.setRegion found (by simp only [Region.extent, base, size])
  | resolveFault a access =>
    show (m.resolveFault a access).2.Regular
    rcases resolveFault_cases w a access with same | ⟨r, offset, len, b, found, lifted, eq⟩
    · rw [same]
      exact w
    · rw [eq, eq_of_unguard lifted]
      exact w.setRegion found rfl
  | write addr data => exact (w.write addr data).1
  | writeHost host data => exact getD_ok w fun _ done => w.writeHost done
  | placeNext next =>
    have same : SameExtents m { m with heap := ⟨next⟩ } := ⟨fun _ => rfl, fun _ => rfl⟩
    exact same.regular w
  | losePage a => exact (w.loseHostPage a).1

theorem renewed_apply (w : m.Regular) (call : Call) : Renewed m (m.apply call) := by
  have refl := Renewed.refl m
  cases call with
  | map addr size perms =>
    refine getD_ok (P := Renewed m) refl fun m' done => ?_
    obtain ⟨-, b, heap, placed, rfl⟩ := exists_of_map done
    exact renewed_insertRegion (.heap placed)
  | mapIdentity addr size perms =>
    refine getD_ok (P := Renewed m) refl fun m' done => ?_
    obtain ⟨-, b, placed, rfl⟩ := exists_of_mapIdentity done
    exact renewed_insertRegion (.identity placed)
  | unmap addr => exact getD_toOption (P := Renewed m) refl fun _ done => renewed_unmap w done
  | protect addr perms =>
    exact getD_toOption (P := Renewed m) refl fun _ done => renewed_protect w done
  | remap addr => exact getD_toOption (P := Renewed m) refl fun _ done => renewed_remap w done
  | guard addr size =>
    show Renewed m (m.guardRange addr size).2
    rcases guardRange_cases w addr size with same | ⟨r, offset, len, found, eq⟩
    · rw [same]
      exact refl
    · exact eq ▸ renewed_setRegion found rfl (.guard offset len)
  | resolveFault a access =>
    show Renewed m (m.resolveFault a access).2
    rcases resolveFault_cases w a access with same | ⟨r, offset, len, b, found, lifted, eq⟩
    · rw [same]
      exact refl
    · exact eq ▸ renewed_setRegion found rfl (.mend lifted)
  | write addr data =>
    intro k r' there
    obtain ⟨r, bytes, found, rfl⟩ := (w.write addr data).2 k r' there
    exact .inl ⟨r, found, .write bytes⟩
  | writeHost host data =>
    refine getD_ok (P := Renewed m) refl fun m' done => ?_
    obtain ⟨r, found, -, rfl⟩ := writeHost_eq_ok_iff.1 done
    exact renewed_setRegion (w.findHost_iff.1 found).1 rfl (.write _)
  | placeNext next => exact refl
  | losePage a =>
    show Renewed m (m.loseHostPage a)
    rcases loseHostPage_cases w a with same | ⟨r, page, found, identity, eq⟩
    · rw [same]
      exact refl
    · exact eq ▸ renewed_setRegion found rfl (.lose page identity)

theorem regular_after (calls : List Call) : (after calls).Regular :=
  List.foldlRecOn calls apply regular_empty fun _ w call _ => w.apply call

/-- The host keeps all pages unless it takes one away. -/
theorem WellFormed.apply (w : m.WellFormed) (kept : ∀ a, call ≠ .losePage a) :
    (m.apply call).WellFormed := by
  cases call with
  | map addr size perms => exact getD_ok w fun _ done => w.map done
  | mapIdentity addr size perms => exact getD_ok w fun _ done => w.mapIdentity done
  | unmap addr => exact getD_toOption w fun _ done => w.unmap done
  | protect addr perms => exact getD_toOption w fun _ done => w.protect done
  | remap addr => exact getD_toOption w fun _ done => w.remap done
  | guard addr size => exact (w.sameFrames_guardRange addr size).wellFormed w
  | resolveFault a access => exact w.loosens_resolveFault.toSameFrames.wellFormed w
  | write addr data => exact (w.sameGuards_write addr data).toSameFrames.wellFormed w
  | writeHost host data =>
    exact getD_ok w fun _ done => (w.sameGuards_writeHost done).toSameFrames.wellFormed w
  | placeNext next => exact w.congr (fun _ => rfl) fun _ => rfl
  | losePage a => exact absurd rfl (kept a)

theorem wellFormed_after (kept : ∀ a, .losePage a ∉ calls) : (after calls).WellFormed := by
  refine List.foldlRecOn calls apply wellFormed_empty fun m w call mem => w.apply fun a same => ?_
  exact kept a (same ▸ mem)

/-- What holds of new regions and survives every change holds of all regions. -/
theorem forall_after {P : Region → Prop} (new : ∀ r, r.New → P r)
    (change : ∀ r r', P r → r.Change r' → P r') (calls : List Call) {k : Nat} {r : Region}
    (found : (after calls).regions.get? k = some r) : P r := by
  have step : ∀ m : MemoryMap, (m.Regular ∧ ∀ k r, m.regions.get? k = some r → P r) →
      ∀ call ∈ calls, (m.apply call).Regular ∧
        ∀ k r, (m.apply call).regions.get? k = some r → P r := by
    rintro m ⟨w, kept⟩ call -
    refine ⟨w.apply call, fun k r there => ?_⟩
    rcases renewed_apply w call k r there with ⟨old, before, changed⟩ | made
    · exact change old r (kept k old before) changed
    · exact new r made
  have all := List.foldlRecOn calls apply ⟨regular_empty, fun k r none => nomatch none⟩ step
  exact all.2 k r found

end MemoryMap

end GuestExec
