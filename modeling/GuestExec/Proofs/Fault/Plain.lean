import GuestExec.Proofs.Fault.Emulated
import GuestExec.Proofs.Mmu.Plain

/-!
# What a fault shows the guest

A guest sees its registers and its memory (`GuestView`). In an open map a
misaligned access that is made in software does to them what the access does on
a processor that walks the map: all pieces are accessed (`GuestView.load`,
`GuestView.store`), or the first page that refuses the access is told of
(`GuestView.refuse`). Neither the TLB nor the books on faults show.
-/

namespace GuestExec

open Mmu (cold sound_cold plainRead plainWrite starts mem_starts headLength next)

/-- What a guest sees. -/
structure GuestView where
  regs : Registers
  memory : MemoryMap

namespace Vcpu

def view (c : Vcpu) : GuestView := ⟨c.regs, c.mmu.memory⟩

/-- What comes of a fault, as far as the guest sees it. -/
def seen (result : FaultOutcome × Vcpu) : FaultOutcome × GuestView := (result.1, result.2.view)

end Vcpu

namespace GuestView

/-- A processor that has done nothing yet. -/
def cpu (v : GuestView) : Vcpu :=
  { regs := v.regs, mmu := cold v.memory, stats := {}, record := none }

/-- The access to `a` is not allowed. -/
def refuse (v : GuestView) (a : GuestAddr) (access : Access) : FaultOutcome × GuestView :=
  Vcpu.seen (v.cpu.refuse { address := a, access })

/-- The first piece of an access that the map refuses. -/
def miss (v : GuestView) (a : GuestAddr) (len : Nat) (access : Access) : GuestAddr :=
  ((cold v.memory).firstWalkMiss a len access).1.getD a

/-- Register `rt` takes the `len` bytes at `a`. -/
def load (v : GuestView) (a : GuestAddr) (len rt : Nat) (signed : Bool) :
    FaultOutcome × GuestView :=
  match plainRead v.memory a len with
  | some bytes =>
    let regs := v.regs.setReg rt (loadWord signed bytes)
    (.emulated, { v with regs := { regs with pc := regs.pc + 4 } })
  | none => v.refuse (v.miss a len .read) .read

/-- The low `len` bytes of register `rt` go to `a`. -/
def store (v : GuestView) (a : GuestAddr) (len rt : Nat) : FaultOutcome × GuestView :=
  match plainWrite v.memory a (storeBytes len (v.regs.reg rt)) with
  | (true, memory) => (.emulated, { regs := { v.regs with pc := v.regs.pc + 4 }, memory })
  | (false, _) => v.refuse (v.miss a len .write) .write

variable {v : GuestView} {a : GuestAddr} {len rt : Nat} {signed : Bool} {bytes : List UInt8}
  {memory : MemoryMap}

theorem load_of_some (read : plainRead v.memory a len = some bytes) :
    v.load a len rt signed =
      let regs := v.regs.setReg rt (loadWord signed bytes)
      (.emulated, { v with regs := { regs with pc := regs.pc + 4 } }) := by
  rw [load, read]

theorem load_of_refused (w : v.memory.Regular) (o : v.memory.Open) (pos : 0 < len)
    (short : len ≤ 8) (refused : ¬∀ b ∈ starts a len, v.memory.allows b .read = true) :
    v.load a len rt signed = v.refuse (v.miss a len .read) .read := by
  have allowed := Mmu.plainRead_isSome (a := a) w o (Nat.le_trans short (by decide))
    (Nat.ne_of_gt pos)
  cases read : plainRead v.memory a len with
  | none => rw [load, read]
  | some bytes =>
    rw [read] at allowed
    exact absurd (allowed.1 rfl) refused

theorem store_of_done
    (write : plainWrite v.memory a (storeBytes len (v.regs.reg rt)) = (true, memory)) :
    v.store a len rt = (.emulated, { regs := { v.regs with pc := v.regs.pc + 4 }, memory }) := by
  rw [store, write]

theorem store_of_refused (w : v.memory.Regular) (o : v.memory.Open) (pos : 0 < len)
    (short : len ≤ 8) (refused : ¬∀ b ∈ starts a len, v.memory.allows b .write = true) :
    v.store a len rt = v.refuse (v.miss a len .write) .write := by
  have length := length_storeBytes len (v.regs.reg rt)
  have allowed := Mmu.plainWrite_eq_true w o a (storeBytes len (v.regs.reg rt))
    (length.symm ▸ Nat.le_trans short (by decide)) (length.symm ▸ Nat.ne_of_gt pos)
  rw [length] at allowed
  rcases write : plainWrite v.memory a (storeBytes len (v.regs.reg rt)) with ⟨_ | _, memory⟩
  · rw [store, write]
  · exact absurd (allowed.1 (congrArg Prod.fst write)) refused

end GuestView

namespace Vcpu

variable {c : Vcpu} {info : FaultInfo} {s : Syndrome} {u u' : Mmu} {a b : GuestAddr} {len : Nat}
  {access : Access}

/-! ## Access faults -/

/-- Delivering a fault looks at the registers and at where and how memory was accessed. -/
theorem seen_deliver {c' : Vcpu} (same : c'.view = c.view) (info : FaultInfo) (status : UInt64) :
    seen (c'.deliver { address := info.address, access := info.access } status) =
      seen (c.deliver info status) := by
  obtain ⟨regs, ⟨tlb, memory⟩, stats, record⟩ := c
  obtain ⟨regs', ⟨tlb', memory'⟩, stats', record'⟩ := c'
  cases same
  unfold deliver
  dsimp only
  split <;> rfl

theorem seen_refuse (c : Vcpu) (info : FaultInfo) :
    seen (c.refuse info) = c.view.refuse info.address info.access :=
  have same : c.view.cpu.view = c.view := rfl
  (seen_deliver same info _).symm

theorem seen_onAccess_of_refused (info : FaultInfo)
    (refused : c.mmu.memory.allows info.address info.access = false) :
    seen (c.onAccess info) = c.view.refuse info.address info.access := by
  rw [onAccess_of_not_allowed info refused, seen_refuse]

/-- A retry in an open map shows nothing: there is no guard to lift. -/
theorem seen_onAccess_of_allowed (w : c.mmu.memory.Regular) (o : c.mmu.memory.Open)
    (allowed : c.mmu.memory.allows info.address info.access = true) :
    seen (c.onAccess info) = (.retry, c.view) := by
  obtain ⟨r, found, -⟩ := MemoryMap.exists_find_of_allows allowed
  have translated : c.mmu.memory.translate info.address = some r.mapping :=
    MemoryMap.translate_eq_some_iff.2 ⟨r, found, rfl⟩
  have perms : r.mapping.perms.allows info.access = true :=
    MemoryMap.allows_of_translate translated ▸ allowed
  have idle : c.mmu.memory.resolveFault info.address info.access = (false, c.mmu.memory) :=
    MemoryMap.resolveFault_eq_false (.inr (o.isGuarded w _))
  have usable : c.mmu.memory.isHostAccessible info.address 1 info.access = true := by
    rw [w.isHostAccessible_one, o.usable w, allowed]
  simp only [seen, view, onAccess, translated, perms, idle, usable, Bool.not_true,
    Bool.false_eq_true, if_false, Bool.false_or, if_true, Mmu.memory_fill]

/-! ## The first page that refuses -/

/-- The first miss is the same for every sound unit of an open map. -/
theorem FirstMiss.congr (s : u.Sound) (o : u.memory.Open) (s' : u'.Sound)
    (same : u'.memory = u.memory) (data : access ≠ .execute)
    (first : FirstMiss u a len access b) : FirstMiss u' a len access b := by
  have finds : ∀ d, u'.Finds .walk d access ↔ u.Finds .walk d access := by
    intro d
    rw [s.finds_walk_iff o data, s'.finds_walk_iff (same ▸ o) data, same]
  rw [FirstMiss, finds, finds]
  exact first

theorem miss_eq {v : GuestView} (w : v.memory.Regular)
    (first : FirstMiss (cold v.memory) a len access b) : v.miss a len access = b := by
  obtain ⟨u', -, eq⟩ := firstWalkMiss_eq (sound_cold w) first
  rw [GuestView.miss, eq]
  rfl

/-- An access that is refused somewhere is so first at the page that `miss` tells. -/
theorem firstMiss_miss {v : GuestView} (w : v.memory.Regular) (o : v.memory.Open)
    (data : access ≠ .execute)
    (refused : ¬∀ b ∈ starts a len, v.memory.allows b access = true) :
    FirstMiss (cold v.memory) a len access (v.miss a len access) := by
  have missed : ¬∀ b ∈ starts a len, (cold v.memory).Finds .walk b access :=
    fun all => refused fun b mem => (sound_cold w).allows_of_finds o.readable data (all b mem)
  obtain ⟨b, first⟩ := exists_firstMiss missed
  rw [miss_eq w first]
  exact first

/-! ## Misaligned accesses -/

/-- An access that fails in software is refused at its first page that does not allow it. -/
theorem seen_handle_of_failed (sound : c.mmu.Sound) (o : c.mmu.memory.Open)
    (described : emulable info = some s) (sound' : u'.Sound) (same : u'.memory = c.mmu.memory)
    (failed : c.onAlignment info = (none, { c with mmu := u' }))
    (refused : ¬∀ b ∈ starts info.address s.accessSize,
      c.mmu.memory.allows b (accessOf s) = true) :
    seen (c.handle .alignment info) =
      c.view.refuse (c.view.miss info.address s.accessSize (accessOf s)) (accessOf s) := by
  have data := accessOf_ne_execute s
  have first := firstMiss_miss (v := c.view) sound.memory o data refused
  have here := first.congr (u := cold c.mmu.memory) (sound_cold sound.memory) o sound' same data
  obtain ⟨u'', found, searched⟩ := firstWalkMiss_eq sound' here
  have kept := Mmu.memory_firstWalkMiss u' info.address s.accessSize (accessOf s)
  rw [searched] at kept
  have memory : u''.memory = c.mmu.memory := kept.trans same
  have refused : u''.memory.allows (c.view.miss info.address s.accessSize (accessOf s))
      (accessOf s) = false := by
    rw [memory, ← Bool.not_eq_true]
    exact fun allowed =>
      first.not_finds (((sound_cold sound.memory).finds_walk_iff o data).2 allowed)
  have view : ({ c with mmu := u'' } : Vcpu).view = c.view := congrArg (GuestView.mk c.regs) memory
  rw [handle_eq_onStraddling described failed,
    onStraddling_eq_mend (c := { c with mmu := u' }) searched,
    mend_eq_refuse (c := { c with mmu := u'' }) info s refused, seen_refuse, view]

/-- A misaligned load is made in software as a processor that walks the map makes it. -/
theorem seen_handle_load (sound : c.mmu.Sound) (o : c.mmu.memory.Open)
    (described : emulable info = some s) (wide : s.sixtyFour = true) (read : s.isWrite = false) :
    seen (c.handle .alignment info) =
      c.view.load info.address s.accessSize s.register s.signExtends := by
  obtain ⟨pos, small⟩ := accessSize_bounds s
  have access : accessOf s = .read := by rw [accessOf, read, if_neg Bool.false_ne_true]
  have plain := (sound.read_eq_plain o .walk info.address s.accessSize).resolve_right
    fun h => Lookup.noConfusion h.1
  have sound' := (sound.read .walk info.address s.accessSize).sound
  have same := Mmu.memory_read .walk c.mmu info.address s.accessSize
  have allowed := Mmu.plainRead_isSome (a := info.address) sound.memory o
    (Nat.le_trans small (by decide)) (Nat.ne_of_gt pos)
  rcases made : c.mmu.read .walk info.address s.accessSize with ⟨bytes, u'⟩
  rw [made] at plain sound' same
  dsimp only at plain sound' same
  rw [← plain] at allowed
  cases bytes with
  | some bytes =>
    rw [GuestView.load_of_some (v := c.view) plain.symm]
    simp only [handle, onAlignment, described, read, Bool.false_eq_true, if_false, made, seen,
      advance, view, loadedValue, wide, if_true, same]
  | none =>
    have failed : c.onAlignment info = (none, { c with mmu := u' }) := by
      simp only [onAlignment, described, read, Bool.false_eq_true, if_false, made]
    have refused : ¬∀ b ∈ starts info.address s.accessSize,
        c.mmu.memory.allows b .read = true := fun all => Bool.false_ne_true (allowed.2 all)
    rw [GuestView.load_of_refused (v := c.view) sound.memory o pos small refused,
      seen_handle_of_failed sound o described sound' same failed (access ▸ refused), access]

/-- A misaligned store is made in software as a processor that walks the map makes it. -/
theorem seen_handle_store (sound : c.mmu.Sound) (o : c.mmu.memory.Open)
    (described : emulable info = some s) (write : s.isWrite = true) :
    seen (c.handle .alignment info) = c.view.store info.address s.accessSize s.register := by
  obtain ⟨pos, small⟩ := accessSize_bounds s
  have short : s.accessSize ≤ pageSize := Nat.le_trans small (by decide)
  have access : accessOf s = .write := by rw [accessOf, write, if_pos rfl]
  have length := length_storeBytes s.accessSize (c.regs.reg s.register)
  generalize bytes : storeBytes s.accessSize (c.regs.reg s.register) = data at length
  have plain := (sound.write_eq_plain o .walk info.address data).resolve_right
    fun h => Lookup.noConfusion h.1
  have sound' := (sound.write .walk info.address data).sound
  have allowed := Mmu.plainWrite_eq_true sound.memory o info.address data
    (length.symm ▸ short) (length.symm ▸ Nat.ne_of_gt pos)
  have failing := Mmu.plainWrite_of_false sound.memory o info.address data
    (length.symm ▸ short) (length.symm ▸ Nat.ne_of_gt pos)
  rcases made : c.mmu.write .walk info.address data with ⟨done, u'⟩
  rw [made] at plain sound'
  dsimp only at plain sound'
  rw [← plain, length] at allowed
  rw [← plain] at failing
  cases done with
  | true =>
    rw [GuestView.store_of_done (v := c.view) (bytes ▸ plain.symm)]
    simp only [handle, onAlignment, described, write, if_true, bytes, made]
    rfl
  | false =>
    have failed : c.onAlignment info = (none, { c with mmu := u' }) := by
      simp only [onAlignment, described, write, if_true, bytes, made]
      rfl
    have same : u'.memory = c.mmu.memory := congrArg Prod.snd (failing rfl)
    have refused : ¬∀ b ∈ starts info.address s.accessSize,
        c.mmu.memory.allows b .write = true := fun all => Bool.false_ne_true (allowed.2 all)
    rw [GuestView.store_of_refused (v := c.view) sound.memory o pos small refused,
      seen_handle_of_failed sound o described sound' same failed (access ▸ refused), access]

end Vcpu

end GuestExec
