import GuestExec.Proofs.Machine.Accesses
import GuestExec.Proofs.Mmu.Contents

/-!
# Stores of a machine's cores

What a store of a core does to memory, in every state that the core can be in
after any sequence of calls. Both pages of a store are translated before the
first is written, so a page that has no translation spoils nothing. A guard does
not make the TLB forget a page, though: a store whose second page is guarded
after it entered the TLB fails when its first page is written already.
-/

namespace GuestExec.Machine

open MemoryMap (Stored)

/-- A store succeeds exactly when all its pages are ready. It then leaves its data, all of it and
nothing else; if it is torn it leaves the data of its first page, and else, if it fails, nothing. -/
theorem write_whole_or_torn (calls : List Call) {u : Mmu} (uses : (after calls).Uses u)
    (lookup : Lookup) (a : GuestAddr) {data : List UInt8} (pos : 0 < data.length)
    (short : data.length ≤ 8) :
    ((u.write lookup a data).1 = true ↔ u.Accessible lookup a data.length .write) ∧
      ((u.write lookup a data).1 = true →
        Stored u.memory a data (u.write lookup a data).2.memory) ∧
      (u.Torn lookup a data.length → (u.write lookup a data).1 = false ∧
        Stored u.memory a (data.take (Mmu.headLength a data.length))
          (u.write lookup a data).2.memory) ∧
      ((u.write lookup a data).1 = false → ¬u.Torn lookup a data.length →
        (u.write lookup a data).2.memory = u.memory) := by
  have fits : data.length ≤ pageSize := Nat.le_trans short (by decide)
  rcases (sound_of_uses calls uses).write_cases lookup a fits pos with
    ⟨all, done, stored⟩ | ⟨torn, failed, stored⟩ | ⟨missed, whole, failed, same⟩
  · refine ⟨iff_of_true done all, fun _ => stored, ?_, ?_⟩
    · intro torn
      exact absurd all torn.not_accessible
    · intro failed
      rw [done] at failed
      cases failed
  · rw [failed]
    refine ⟨iff_of_false nofun torn.not_accessible, nofun, ?_, ?_⟩
    · exact fun _ => ⟨rfl, stored⟩
    · exact fun _ whole => absurd torn whole
  · rw [failed]
    refine ⟨iff_of_false nofun missed, nofun, ?_, ?_⟩
    · exact fun torn => absurd torn whole
    · exact fun _ _ => same

/-- A load across two pages puts both into the TLB, and then the second one is guarded. -/
def secondGuarded : List Call :=
  [.map ⟨0x10000⟩ 0x3000 .all, .addProgram straddlingLoad,
    .addThread 1 { Registers.zero with pc := 0x12000 }, .addTraceCore 0 0 {},
    .runTrace 0 0 true 3, .guard ⟨0x11000⟩ 0x1000]

/-- Half of a store that fails is in memory afterwards. -/
theorem write_whole_or_torn_secondGuarded :
    (after secondGuarded).memory.byte? ⟨0x10ffe⟩ = some 0 ∧
      ((idle (after secondGuarded) .zero).mmu.write .walk ⟨0x10ffe⟩ [1, 2, 3, 4]).1 = false ∧
      Stored (after secondGuarded).memory ⟨0x10ffe⟩ [1, 2]
        ((idle (after secondGuarded) .zero).mmu.write .walk ⟨0x10ffe⟩ [1, 2, 3, 4]).2.memory := by
  have uses : (after secondGuarded).Uses (idle (after secondGuarded) .zero).mmu :=
    uses_idle .zero (by decide +kernel)
  have sound := sound_of_uses secondGuarded uses
  have torn : (idle (after secondGuarded) .zero).mmu.Torn .walk ⟨0x10ffe⟩ 4 :=
    { straddles := by decide +kernel
      head := ⟨.inl (sound.serves_iff.2 (by decide +kernel)), by decide +kernel⟩
      served := sound.serves_iff.2 (by decide +kernel)
      guarded := by decide +kernel }
  have zeros : ((after secondGuarded).memory.find ⟨0x10ffe⟩).map (·.backing.bytes) =
      some .zeros := by with_unfolding_all rfl
  obtain ⟨r, found, bytes⟩ := Option.map_eq_some_iff.1 zeros
  have short : 0 < [(1 : UInt8), 2, 3, 4].length ∧ [(1 : UInt8), 2, 3, 4].length ≤ 8 := by decide
  obtain ⟨-, -, half, -⟩ :=
    write_whole_or_torn secondGuarded uses .walk ⟨0x10ffe⟩ short.1 short.2
  refine ⟨?_, half torn⟩
  rw [MemoryMap.byte?_of_find found, bytes, ByteStore.get_zeros]

end GuestExec.Machine
