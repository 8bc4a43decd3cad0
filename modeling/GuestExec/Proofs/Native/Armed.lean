import GuestExec.Proofs.Memory.Calls
import GuestExec.Proofs.Native.Code
import GuestExec.Proofs.Native.Handlers

/-!
# Steps of the processor

A step of the processor ends at a breakpoint, so the guest may run on only while
every address that it may go to has one. The breakpoints are placed once, when
the guest is loaded, and stay the same until the run lands on the host. Faults
in between can make more addresses runnable than there were: then the guest
goes on without breakpoints at those.
-/

namespace GuestExec.Native

variable {m m' : MemoryMap} {t t' : SiteTable} {regs : Registers} {p : StepPatch} {a : UInt64}

/-! ## Arming -/

/-- The addresses that an instruction may go to. -/
def Successors.toList (s : Successors) : List UInt64 := s.first :: s.second.toList

namespace StepPatch

theorem hits_iff : p.hits a = true ↔ ∃ b ∈ p.breakpoints, b.guest = a := by
  simp only [hits, List.any_eq_true, beq_iff_eq]

/-- With room for all of them, the targets get the breakpoints that they have. -/
theorem placeAll_fst (w : m.WellFormed) (targets : List UInt64) (placed : List Breakpoint)
    (room : t.sites.length + targets.length ≤ SiteTable.capacity) :
    (placeAll targets (placed, t, m)).1 = placed ++ targets.filterMap (breakpointAt m) := by
  induction targets generalizing m t placed with
  | nil => exact (List.append_nil placed).symm
  | cons target rest ih =>
    have longer := length_place w.toRegular t target
    have same := sameGuards_place w.toRegular t target
    rw [List.length_cons] at room
    have others : breakpointAt (place t m target).2.2 = breakpointAt m :=
      funext fun _ => breakpointAt_congr same w.toRegular
    rw [placeAll_cons, ih (same.toSameFrames.wellFormed w) _ (by omega), others,
      place_fst w (by omega), List.append_assoc]
    cases eq : breakpointAt m target with
    | none => rw [List.filterMap_cons_none eq, Option.toList_none, List.nil_append]
    | some b => rw [List.filterMap_cons_some eq, Option.toList_some, List.singleton_append]

/-- The targets that can run have a breakpoint and no others. -/
theorem exists_breakpointAt_iff {targets : List UInt64} :
    (∃ b ∈ targets.filterMap (breakpointAt m), b.guest = a) ↔ a ∈ targets ∧ Runnable m a := by
  simp only [List.mem_filterMap]
  constructor
  · rintro ⟨b, ⟨target, mem, eq⟩, rfl⟩
    rw [guest_of_breakpointAt eq]
    exact ⟨mem, breakpointAt_eq_some_iff.1 ⟨b, eq⟩⟩
  · rintro ⟨mem, runnable⟩
    obtain ⟨b, eq⟩ := breakpointAt_eq_some_iff.2 runnable
    exact ⟨b, ⟨a, mem, eq⟩, guest_of_breakpointAt eq⟩

theorem length_targets (pc : UInt64) (s : Successors) : (targets pc s).length ≤ 2 := by
  have second := List.length_filter_le (fun target => target != pc && target != s.first)
    s.second.toList
  have one : s.second.toList.length ≤ 1 := by cases s.second <;> simp
  unfold targets
  dsimp only
  split
  · omega
  · rw [List.length_cons]
    omega

/-- What a step of the instruction `word` is armed with. -/
def armedFor (m : MemoryMap) (regs : Registers) (word : UInt32) : Armed :=
  let s := successors regs.pc word regs
  if s = { first := regs.pc } then .selfLoop
  else .patched ⟨(targets regs.pc s).filterMap (breakpointAt m)⟩

/-- While two more sites fit, arming goes by the instruction that is read. -/
theorem arm_of_read (w : m.WellFormed) (room : t.sites.length + 2 ≤ SiteTable.capacity)
    {bytes : List UInt8} (read : m.read ⟨regs.pc⟩ 4 = .ok bytes) :
    (arm t m regs).1 = armedFor m regs (UInt32.ofNat (ofLeBytes bytes)) := by
  unfold arm armedFor
  rw [read]
  dsimp only
  generalize successors regs.pc (UInt32.ofNat (ofLeBytes bytes)) regs = s
  have few := length_targets regs.pc s
  have placed := placeAll_fst w (targets regs.pc s) [] (t := t) (by omega)
  by_cases back : s = { first := regs.pc }
  · rw [if_pos back, if_pos back]
  · rw [if_neg back, if_neg back]
    exact congrArg (fun placed => Armed.patched ⟨placed⟩) placed

theorem arm_of_not_read {e : MemoryError} (unreadable : m.read ⟨regs.pc⟩ 4 = .error e) :
    arm t m regs = (.patched ⟨[]⟩, t, m) := by
  rw [arm, unreadable]

end StepPatch

/-- With the registers `regs` a step would have a breakpoint at `a`: the instruction can be read
and goes there, not to itself, and what is there can run. -/
def Foreseen (m : MemoryMap) (regs : Registers) (a : UInt64) : Prop :=
  ∃ bytes, m.read ⟨regs.pc⟩ 4 = .ok bytes ∧ Runnable m a ∧
    a ∈ StepPatch.targets regs.pc (successors regs.pc (UInt32.ofNat (ofLeBytes bytes)) regs)

/-- While two more sites fit, the breakpoints of a step are the foreseen ones. -/
theorem hits_arm_iff (w : m.WellFormed) (room : t.sites.length + 2 ≤ SiteTable.capacity)
    (armed : StepPatch.arm t m regs = (.patched p, t', m')) :
    p.hits a = true ↔ Foreseen m regs a := by
  rw [Foreseen, StepPatch.hits_iff]
  cases read : m.read ⟨regs.pc⟩ 4 with
  | error e =>
    rw [StepPatch.arm_of_not_read read] at armed
    cases armed
    simp
  | ok bytes =>
    have came := StepPatch.arm_of_read w room read
    rw [armed, StepPatch.armedFor] at came
    split at came
    · cases came
    · cases came
      rw [StepPatch.exists_breakpointAt_iff]
      simp only [Except.ok.injEq, exists_eq_left', and_comm]

/-! ## Sessions -/

namespace Session

variable {s s' s₀ s₁ : Session} {mode : RunMode} {signal : HostSignal} {code : Int}
  {v v' v₀ v₁ : FrameView}

/-- Every address that the instruction at `pc` may go to, if it can run, has a breakpoint. -/
def Armed (s : Session) : Prop :=
  ∀ a ∈ (successors s.regs.pc (codeWord s.memory ⟨s.regs.pc⟩) s.regs).toList,
    Runnable s.memory a → s.patch.any (·.hits a) = true

/-- The session while the guest runs. Meanwhile the guest computes, the host acts, other runs
place and lift breakpoints and the map changes: all but what the session has of its own. -/
inductive Runs (mode : RunMode) (s : Session) : Session → Prop where
  | entered : Runs mode s s
  | meanwhile {s₁ s₂ : Session} : Runs mode s s₁ → s₂.patch = s₁.patch →
    s₂.inGuest = s₁.inGuest → Runs mode s s₂
  | resumed {s₁ s₂ : Session} {signal : HostSignal} {code : Int} {v v' : FrameView} :
    Runs mode s s₁ → s₁.deliver mode signal code v = (.guest, v', s₂) → Runs mode s s₂

theorem patch_onTrap (s : Session) (mode : RunMode) :
    (s.onTrap mode).2.patch = s.patch ∧ (s.onTrap mode).2.inGuest = s.inGuest := by
  have ends := s.trapEnds_onTrap mode
  generalize s.onTrap mode = landed at ends
  cases ends <;> exact ⟨rfl, rfl⟩

theorem patch_treat (s : Session) (mode : RunMode) (signal : HostSignal) (code : Int)
    (v : FrameView) : (s.treat mode signal code v).2.patch = s.patch ∧
      (s.treat mode signal code v).2.inGuest = s.inGuest := by
  unfold treat
  split
  · exact patch_onTrap (s.save v) mode
  · exact ⟨rfl, rfl⟩

/-- A fault that leads back to the guest leaves the breakpoints alone. -/
theorem patch_onFault (h : s.onFault mode signal code v = (.guest, v', s')) :
    s'.patch = s.patch ∧ s'.inGuest = s.inGuest := by
  have handled := patch_treat s mode signal code v
  have ends := s.faultEnds_onFault mode signal code v
  rw [h] at ends
  cases ends with
  | outside => exact ⟨rfl, rfl⟩
  | guest inside treated =>
    rw [treated] at handled
    exact handled

theorem patch_onInterrupt (h : s.onInterrupt v = (.guest, v', s')) :
    s'.patch = s.patch ∧ s'.inGuest = s.inGuest := by
  have ends := s.interruptEnds_onInterrupt v
  rw [h] at ends
  cases ends with
  | outside => exact ⟨rfl, rfl⟩
  | unasked => exact ⟨rfl, rfl⟩

theorem deliver_of_isFault (fault : signal.isFault = true) :
    s.deliver mode signal code v = s.onFault mode signal code v := by
  cases signal <;> first | rfl | cases fault

/-- So does every signal that leads back to the guest. -/
theorem patch_deliver (guest : s.inGuest = true)
    (h : s.deliver mode signal code v = (.guest, v', s')) :
    s'.patch = s.patch ∧ s'.inGuest = true := by
  cases signal with
  | enter =>
    have still : s.onEnter mode.step v = (.guest, v, s) := if_pos guest
    cases still.symm.trans h
    exact ⟨rfl, guest⟩
  | interrupt =>
    have kept := patch_onInterrupt h
    exact ⟨kept.1, kept.2.trans guest⟩
  | _ =>
    rw [deliver_of_isFault rfl] at h
    have kept := patch_onFault h
    exact ⟨kept.1, kept.2.trans guest⟩

/-- A run keeps the breakpoints that it has from the start. -/
theorem Runs.patch (runs : Runs mode s s') (guest : s.inGuest = true) :
    s'.patch = s.patch ∧ s'.inGuest = true := by
  induction runs with
  | entered => exact ⟨rfl, guest⟩
  | meanwhile _ patch inside ih => exact ⟨patch.trans ih.1, inside.trans ih.2⟩
  | resumed _ delivered ih =>
    have kept := patch_deliver ih.2 delivered
    exact ⟨kept.1.trans ih.1, kept.2⟩

theorem onEnter_of_arm (out : s.inGuest = false)
    (free : s.activation.takeInterrupt = (false, s.activation))
    (armed : StepPatch.arm s.sites s.memory s.regs = (.patched p, t, m)) :
    s.onEnter true v = (.guest, v.loadFrom s.regs,
      { s.setMemory m with
        sites := t, patch := some p, inGuest := true, threadPointer := s.regs.tpidr
        activation := { (s.setMemory m).activation with state := .running } }) := by
  obtain ⟨activation, sites, threadPointer, hostThreadPointer, inGuest, patch, _, _⟩ := s
  dsimp only at out free armed
  subst out
  simp only [onEnter, free, armed, Bool.false_eq_true, if_false, if_true]
  rfl

/-- A step that is loaded has the breakpoints that it was armed with. -/
theorem exists_arm_of_onEnter (out : s.inGuest = false)
    (entered : s.onEnter true v = (.guest, v', s')) :
    ∃ p t m, StepPatch.arm s.sites s.memory s.regs = (.patched p, t, m) ∧ s'.patch = some p ∧
      s'.inGuest = true := by
  simp only [onEnter, out, Bool.false_eq_true, if_false, if_true] at entered
  split at entered
  · cases entered
  · split at entered
    · cases entered
    · rename_i p t m armed
      cases entered
      exact ⟨p, t, m, armed, rfl, rfl⟩

/-- A step that a fault leads back to the guest is armed exactly when what can run next was
foreseen when the guest was loaded. -/
theorem armed_iff_foreseen (step : mode.step = true) (w : s₀.memory.WellFormed)
    (room : s₀.sites.sites.length + 2 ≤ SiteTable.capacity) (out : s₀.inGuest = false)
    (entered : s₀.onEnter mode.step v₀ = (.guest, v₁, s₁)) (runs : Runs mode s₁ s)
    (resumed : s.onFault mode signal code v = (.guest, v', s')) :
    s'.Armed ↔ ∀ a ∈ (successors s'.regs.pc (codeWord s'.memory ⟨s'.regs.pc⟩) s'.regs).toList,
      Runnable s'.memory a → Foreseen s₀.memory s₀.regs a := by
  rw [step] at entered
  obtain ⟨p, t, m, armed, placed, guest⟩ := exists_arm_of_onEnter out entered
  have patch : s'.patch = some p := by
    rw [(patch_onFault resumed).1, (runs.patch guest).1, placed]
  refine forall_congr' fun a => forall_congr' fun _ => forall_congr' fun _ => ?_
  rw [patch]
  exact hits_arm_iff w room armed

/-- A page that starts with a `nop` and is guarded. -/
def guardedCode : MemoryMap := MemoryMap.after
  [.mapIdentity ⟨0x300000000⟩ 0x1000 ⟨true, true, true⟩,
    .writeHost ⟨0x300000000⟩ [0x1f, 0x20, 0x03, 0xd5], .guard ⟨0x300000000⟩ 0x1000]

/-- A step of that `nop`, about to be loaded. -/
def loading : Session :=
  { activation :=
      { cpu :=
          { regs := { Registers.zero with pc := 0x300000000 }
            mmu := { tlb := .empty, memory := guardedCode }, stats := {}, record := none }
        params := {}, state := .idle, queue := {} }
    sites := {}, threadPointer := 0, hostThreadPointer := 0, inGuest := false, patch := none }

/-- The step once it is loaded: without breakpoints, since the `nop` cannot be read. -/
def loaded : Session :=
  { loading with
    inGuest := true, patch := some ⟨[]⟩
    activation := { loading.activation with state := .running } }

/-- The frame of the fault that fetching the `nop` ends in. -/
def fetchFrame : FrameView :=
  { frame :=
      { faultAddress := 0x300000000, x := Vector.replicate 31 0, sp := 0, pc := 0x300000000
        pstate := 0, reserved := ReservedArea.zeros }
    records := {} }

/-- The step once the fault has been mended. -/
def mended : Session := (loaded.onFault { step := true, owner := 1 } .segv 0 fetchFrame).2.2

theorem read_guardedCode :
    guardedCode.read ⟨loading.regs.pc⟩ 4 = .error (.invalidHostAddress ⟨0x300000000⟩) := by
  rw [MemoryMap.read]
  rfl

theorem onEnter_loading :
    loading.onEnter true fetchFrame = (.guest, fetchFrame.loadFrom loading.regs, loaded) := by
  refine onEnter_of_arm rfl rfl ?_
  show StepPatch.arm {} guardedCode loading.regs = _
  rw [StepPatch.arm, read_guardedCode]
  rfl

theorem codeWord_mended : codeWord mended.memory ⟨mended.regs.pc⟩ = 0xd503201f := by
  obtain ⟨r, found, bytes, base⟩ : ∃ r, mended.memory.findHost ⟨mended.regs.pc⟩ = some r ∧
      r.backing.bytes = ByteStore.zeros.write 0 [0x1f, 0x20, 0x03, 0xd5] ∧
      r.backing.base = ⟨mended.regs.pc⟩ := ⟨_, rfl, rfl, rfl⟩
  have four : (ByteStore.zeros.write 0 [0x1f, 0x20, 0x03, 0xd5]).read 0 4 =
      [0x1f, 0x20, 0x03, 0xd5] := ByteStore.read_write _ _ _
  rw [codeWord, found]
  dsimp only
  rw [bytes, base, Nat.sub_self, four]
  decide

/-- Once the page is mended the guest runs on, and nothing stops it after the `nop`. -/
theorem armed_iff_foreseen_guardedCode :
    loading.onEnter true fetchFrame = (.guest, fetchFrame.loadFrom loading.regs, loaded) ∧
      (loaded.onFault { step := true, owner := 1 } .segv 0 fetchFrame).1 = .guest ∧
      mended.regs.pc = 0x300000000 ∧ ¬mended.Armed := by
  refine ⟨onEnter_loading, rfl, rfl, fun armed => ?_⟩
  have w : loading.memory.WellFormed := (MemoryMap.regular_after _).wellFormed (by decide)
  have step : RunMode.step { step := true, owner := 1 } = true := rfl
  have resumed : loaded.onFault { step := true, owner := 1 } .segv 0 fetchFrame = (.guest,
      (loaded.onFault { step := true, owner := 1 } .segv 0 fetchFrame).2.1, mended) :=
    Prod.ext rfl rfl
  have foreseen := (armed_iff_foreseen step w (by decide) rfl onEnter_loading .entered resumed).1
    armed
  have next : (0x300000004 : UInt64) ∈
      (successors mended.regs.pc (codeWord mended.memory ⟨mended.regs.pc⟩) mended.regs).toList := by
    rw [codeWord_mended]
    decide
  obtain ⟨bytes, read, -⟩ := foreseen 0x300000004 next ⟨by decide, by decide⟩
  rw [show loading.memory = guardedCode from rfl, read_guardedCode] at read
  cases read

end Session

end GuestExec.Native
