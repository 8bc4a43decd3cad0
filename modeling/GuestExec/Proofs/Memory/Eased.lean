import GuestExec.Proofs.Memory.Identity

/-!
# What guests make of a map

A guest writes bytes, and its faults mend pages. `Eases` is what all of that comes
to for the host's pages: no guard is added, and the pages without a guard stay
protected as their regions say.
-/

namespace GuestExec.MemoryMap

variable {m m' m'' : MemoryMap} {r r' : Region}

/-- While the host has all its pages, an identity block is protected as its region says wherever it
has no guard. -/
def Shielded (m : MemoryMap) : Prop := ∀ k r, m.regions.get? k = some r → r.Shielded

theorem shielded_empty : (empty : MemoryMap).Shielded := fun _ _ found => by cases found

theorem Renewed.shielded (h : Renewed m m') (shielded : m.Shielded) : m'.Shielded := by
  intro k r' found
  rcases h k r' found with ⟨r, before, change⟩ | new
  · exact change.shielded (shielded k r before)
  · exact new.shielded

/-- The maps have the same frames, no page gets a guard, and the shielded pages stay so. -/
structure Eases (m m' : MemoryMap) : Prop extends Loosens m m' where
  shielded : m.Shielded → m'.Shielded

namespace Eases

theorem refl (m : MemoryMap) : Eases m m := ⟨.refl m, id⟩

theorem trans (h : Eases m m') (h' : Eases m' m'') : Eases m m'' :=
  ⟨h.toLoosens.trans h'.toLoosens, h'.shielded ∘ h.shielded⟩

theorem wellFormed (h : Eases m m') (w : m.WellFormed) : m'.WellFormed :=
  h.toSameFrames.wellFormed w

theorem regular (h : Eases m m') (w : m.Regular) : m'.Regular := h.toSameFrames.regular w

theorem isGuarded (h : Eases m m') (w : m.Regular) {a : GuestAddr} (found : m.find a = some r)
    (free : m.isGuarded a = false) : m'.isGuarded a = false := by
  obtain ⟨r', found', frame⟩ := h.toSameFrames.find_frame w found
  have there := (w.find_iff.1 found).1
  have there' := ((h.regular w).find_iff.1 found').1
  have base : r'.base = r.base := congrArg Region.Frame.base frame
  rw [base] at there'
  rw [isGuarded_of_find found] at free
  rw [isGuarded_of_find found', Region.offset, base, ← Bool.not_eq_true]
  intro guarded
  rw [Region.offset, h.looser there there' _ guarded] at free
  cases free

end Eases

/-- Another state of one region. -/
theorem eases_setRegion (found : m.regions.get? r.base.toNat = some r) (frame : r'.frame = r.frame)
    (looser : ∀ page, r'.backing.guarded.contains page = true →
      r.backing.guarded.contains page = true)
    (shielded : r.Shielded → r'.Shielded) : Eases m (m.setRegion r') := by
  refine ⟨loosens_setRegion found frame looser, fun all k x there => ?_⟩
  rw [get?_setRegion] at there
  split at there
  · cases there
    exact shielded (all _ r found)
  · exact all k x there

namespace Regular

theorem eases_writeHost (w : m.Regular) {host : HostAddr} {data : List UInt8}
    (written : m.writeHost host data = .ok m') : Eases m m' := by
  obtain ⟨r, found, -, rfl⟩ := writeHost_eq_ok_iff.1 written
  exact eases_setRegion (w.findHost_iff.1 found).1 rfl (fun _ guarded => guarded)
    fun old => Region.Change.shielded old (.write _)

theorem eases_resolveFault (w : m.Regular) (a : GuestAddr) (access : Access) :
    Eases m (m.resolveFault a access).2 :=
  ⟨w.loosens_resolveFault, (renewed_apply w (.resolveFault a access)).shielded⟩

end Regular

end GuestExec.MemoryMap
