import GuestExec.Proofs.Machine.Accesses
import GuestExec.Proofs.Mmu.Direct

/-!
# Accesses of a machine's cores and of its map

In every state that a core can be in after any sequence of calls, what it reads and
writes through its TLB is what the map reads and writes, as long as no region may be
written or executed that may not be read.
-/

namespace GuestExec.Machine

/-- In a readable map, a read that walks the map returns what the map's read returns and fails when
it fails, and a write that walks the map goes through when the map's write does and leaves the same
map. Through the TLB alone they may also fail, and if they go through they are the map's too. -/
theorem accesses_eq_map (calls : List Call) {u : Mmu} (uses : (after calls).Uses u)
    (readable : u.memory.Readable) (a : GuestAddr) {len : Nat} (pos : 0 < len)
    (short : len ≤ pageSize) (fits : a.toNat + len ≤ 0x1_0000_0000_0000_0000) :
    (∀ bytes, (u.read .walk a len).1 = some bytes ↔ u.memory.read a len = .ok bytes) ∧
      (∀ data m, data.length = len →
        (((u.write .walk a data).1 = true ∧ (u.write .walk a data).2.memory = m) ↔
          u.memory.write a data = (.ok (), m))) ∧
      (∀ bytes, (u.read .cached a len).1 = some bytes → u.memory.read a len = .ok bytes) ∧
      ∀ data, data.length = len → (u.write .cached a data).1 = true →
        u.memory.write a data = (.ok (), (u.write .cached a data).2.memory) := by
  have sound := sound_of_uses calls uses
  refine ⟨fun bytes => sound.read_walk_iff readable short pos fits, ?_,
    fun bytes got => sound.read_eq_map readable short pos fits got, ?_⟩
  · rintro data m rfl
    exact sound.write_walk_iff short pos fits
  · rintro data rfl done
    exact sound.write_eq_map short pos fits done

/-- A load across the boundary of two regions puts a page of each into the TLB. -/
def loadedAcross : List Call :=
  [.map ⟨0x10000⟩ 0x1000 .readWrite, .map ⟨0x11000⟩ 0x2000 .all, .addProgram straddlingLoad,
    .addThread 1 { Registers.zero with pc := 0x12000 }, .addTraceCore 0 0 {}, .runTrace 0 0 true 3]

/-- A write across that boundary which the TLB alone serves. -/
theorem accesses_eq_map_loadedAcross :
    (after loadedAcross).memory.Readable ∧
      ((idle (after loadedAcross) .zero).mmu.write .cached ⟨0x10ffe⟩ [1, 2, 3, 4]).1 = true ∧
      (after loadedAcross).memory.write ⟨0x10ffe⟩ [1, 2, 3, 4] =
        (.ok (), ((idle (after loadedAcross) .zero).mmu.write .cached ⟨0x10ffe⟩
          [1, 2, 3, 4]).2.memory) := by
  have readable : (after loadedAcross).memory.Readable :=
    MemoryMap.readable_of_values (by decide +kernel)
  have served : ((idle (after loadedAcross) .zero).mmu.write .cached ⟨0x10ffe⟩ [1, 2, 3, 4]).1 =
      true := by decide +kernel
  have four : 0 < 4 ∧ 4 ≤ pageSize ∧
    (⟨0x10ffe⟩ : GuestAddr).toNat + 4 ≤ 0x1_0000_0000_0000_0000 := by decide
  obtain ⟨-, -, -, writes⟩ := accesses_eq_map loadedAcross (uses_idle .zero (by decide +kernel))
    readable ⟨0x10ffe⟩ four.1 four.2.1 four.2.2
  exact ⟨readable, served, writes [1, 2, 3, 4] rfl served⟩

end GuestExec.Machine
