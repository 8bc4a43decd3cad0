import GuestExec.Proofs.Fault.Counts
import GuestExec.Proofs.Machine.Accesses

/-!
# The books of a machine's cores

How a core's books on faults grow, fault by fault and over all the faults that it
handles, in every state that it can be in after any sequence of calls.
-/

namespace GuestExec.Machine

/-- A fault is entered once, under its outcome, unless it is a misaligned access that is treated as
an access fault first. Then it is emulated or ends the run, and is entered as a retry as well: a
fault that stopped the thread may stand among the recovered ones. -/
theorem stats_handle (calls : List Call) {c : Vcpu} (uses : (after calls).Uses c.mmu)
    (kind : FaultKind) (info : FaultInfo) :
    (¬(kind = .alignment ∧ c.MendsFirst info) →
      (c.handle kind info).2.stats = c.stats.count (c.handle kind info).1 ∧
        (c.handle kind info).2.stats.total = c.stats.total + 1 ∧
        (c.handle kind info).2.stats.recovered =
          c.stats.recovered + if (c.handle kind info).1.halts then 0 else 1) ∧
      (kind = .alignment ∧ c.MendsFirst info →
        ((c.handle kind info).1 = .emulated ∨ (c.handle kind info).1 = .halt .fatalError) ∧
          (c.handle kind info).2.stats =
            (c.stats.count .retry).count (c.handle kind info).1 ∧
          (c.handle kind info).2.stats.total = c.stats.total + 2 ∧
          (c.handle kind info).2.stats.recovered =
            c.stats.recovered + if (c.handle kind info).1.halts then 1 else 2) := by
  have sound := sound_of_uses calls uses
  have handled := c.handled_handle kind info
  constructor
  · intro plain
    have once := Vcpu.once_handle sound plain
    exact ⟨once, once.total handled, once.recovered⟩
  · rintro ⟨rfl, mends⟩
    have twice := Vcpu.twice_handle sound mends
    exact ⟨twice.outcome, twice.stats, twice.total handled, twice.recovered⟩

/-- A misaligned write whose syndrome does not describe it. -/
def undescribedWrite : FaultInfo := { address := ⟨0x10003⟩, access := .write }

/-- A write that ends the run counts as recovered, and a read that needs a guard lifted counts
twice. -/
theorem stats_handle_twoPages :
    (((idle (after (twoPages 0)) .zero).handle .alignment undescribedWrite).1 =
        .halt .fatalError ∧
      ((idle (after (twoPages 0)) .zero).handle .alignment undescribedWrite).2.stats.recovered =
        1) ∧
      ((idle (after (twoPages 0x1000)) .zero).handle .alignment
          (misalignedRead ⟨0x10ffd⟩)).2.stats.total = 2 ∧
      ((idle (after (twoPages 0x1000)) .zero).handle .access
          (misalignedRead ⟨0x10ffd⟩)).2.stats.total = 1 := by
  have stopped : ((idle (after (twoPages 0)) .zero).handle .alignment undescribedWrite).1 =
      .halt .fatalError := by decide +kernel
  have allowed : (idle (after (twoPages 0)) .zero).MendsFirst undescribedWrite :=
    (Vcpu.mendsFirst_of_none rfl).2 (by decide +kernel)
  have mended : (idle (after (twoPages 0x1000)) .zero).MendsFirst (misalignedRead ⟨0x10ffd⟩) := by
    refine (Vcpu.mendsFirst_of_described
      (s := Syndrome.alignment 8 false 3 false) rfl).2 ⟨0, ?_⟩
    constructor <;> decide +kernel
  obtain ⟨-, -, -, recovered⟩ := (stats_handle (twoPages 0) (uses_idle .zero rfl) .alignment
    undescribedWrite).2 ⟨rfl, allowed⟩
  obtain ⟨-, -, total, -⟩ := (stats_handle (twoPages 0x1000) (uses_idle .zero rfl) .alignment
    (misalignedRead ⟨0x10ffd⟩)).2 ⟨rfl, mended⟩
  obtain ⟨-, single, -⟩ := (stats_handle (twoPages 0x1000) (uses_idle .zero rfl) .access
    (misalignedRead ⟨0x10ffd⟩)).1 (fun h => FaultKind.noConfusion h.1)
  rw [stopped] at recovered
  exact ⟨⟨stopped, recovered⟩, total, single⟩

/-! ## All the faults of a core -/

/-- The books of a core after `n` faults, `k` of which were entered twice. Between two of them the
core may go on as it likes, and the machine may be asked anything. -/
inductive Booked : Nat → Nat → FaultStats → Prop where
  | opened : Booked 0 0 {}
  | once {n k : Nat} {calls : List Call} {c : Vcpu} {kind : FaultKind} {info : FaultInfo}
    (before : Booked n k c.stats) (uses : (after calls).Uses c.mmu)
    (plain : ¬(kind = .alignment ∧ c.MendsFirst info)) :
    Booked (n + 1) k (c.handle kind info).2.stats
  | twice {n k : Nat} {calls : List Call} {c : Vcpu} {info : FaultInfo}
    (before : Booked n k c.stats) (uses : (after calls).Uses c.mmu) (mends : c.MendsFirst info) :
    Booked (n + 1) (k + 1) (c.handle .alignment info).2.stats

/-- There is an entry for each fault, and one more for each that was treated as an access fault
first. -/
theorem Booked.total_eq {n k : Nat} {s : FaultStats} (h : Booked n k s) : s.total = n + k := by
  induction h with
  | opened => rfl
  | @once n k calls c kind info before uses plain ih =>
    have entered := (Vcpu.once_handle (sound_of_uses calls uses) plain).total
      (c.handled_handle kind info)
    omega
  | @twice n k calls c info before uses mends ih =>
    have entered := (Vcpu.twice_handle (sound_of_uses calls uses) mends).total
      (c.handled_handle .alignment info)
    omega

end GuestExec.Machine
