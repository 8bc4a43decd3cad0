import GuestExec.Config.Library
import Mathlib.Data.List.Nodup

/-!
# Settings read back

A configuration sets its fields to words, truth values and, for an absent host CPU, null. From these
settings the same configuration is read. One that is null need not be found at all: the default of
its field is to be absent.
-/

namespace GuestExec

namespace Setting

/-- A setting that a configuration can have. -/
inductive IsPlain : Setting → Prop where
  | null : IsPlain .null
  | word (n : UInt64) : IsPlain (.integer n.toNat)
  | flag (b : Bool) : IsPlain (.flag b)

theorem word?_ofWord (n : UInt64) : (ofWord n).word? = some n := by
  have fits := n.toNat_lt
  rw [ofWord, word?, if_pos (by omega), Int.toNat_natCast, UInt64.ofNat_toNat]

theorem half?_toNat (n : UInt32) : half? (.integer n.toNat) = some n := by
  have fits := n.toNat_lt
  rw [half?, if_pos (by omega), Int.toNat_natCast, UInt32.ofNat_toNat]

theorem flag?_flag (b : Bool) : flag? (.flag b) = some b :=
  rfl

theorem optionalWord?_getD (cpu : Option UInt64) :
    ((cpu.map ofWord).getD .null).optionalWord? = some cpu := by
  cases cpu with
  | none => rfl
  | some n =>
    rw [Option.map_some, Option.getD_some, optionalWord?, word?_ofWord, Option.map_some]
    exact Setting.noConfusion

end Setting

/-! ## Records -/

/-- A name that needs no quotes and no escapes: letters, digits and underscores. -/
def IsName (name : String) : Prop :=
  name.toList ≠ [] ∧ ∀ c ∈ name.toList, c.isAlphanum = true ∨ c = '_'

namespace Record

/-- A record of plain settings, each with a name of its own. -/
structure IsPlain (r : Record) : Prop where
  nodup : (r.map Prod.fst).Nodup
  names : ∀ entry ∈ r, IsName entry.1
  settings : ∀ entry ∈ r, entry.2.IsPlain

variable {r entries : Record} {name : String} {s : Setting}

theorem IsPlain.tail {entry : String × Setting} (plain : IsPlain (entry :: r)) : r.IsPlain where
  nodup := (List.nodup_cons.1 plain.nodup).2
  names e mem := plain.names e (List.mem_cons_of_mem _ mem)
  settings e mem := plain.settings e (List.mem_cons_of_mem _ mem)

theorem lookup_of_mem (nodup : (r.map Prod.fst).Nodup) (mem : (name, s) ∈ r) :
    r.lookup name = some s := by
  induction r with
  | nil => cases mem
  | cons entry r ih =>
    rw [List.map_cons, List.nodup_cons] at nodup
    rcases List.mem_cons.1 mem with rfl | mem
    · rw [List.lookup_cons_self]
    · have ne : name ≠ entry.1 := by
        rintro rfl
        exact nodup.1 (List.mem_map.2 ⟨_, mem, rfl⟩)
      rw [List.lookup_cons, beq_eq_false_iff_ne.2 ne]
      exact ih nodup.2 mem

theorem lookup_of_notMem (new : name ∉ r.map Prod.fst) : r.lookup name = none := by
  refine List.lookup_eq_none_iff.2 fun entry mem => ?_
  refine bne_iff_ne.2 ?_
  rintro rfl
  exact new (List.mem_map_of_mem mem)

theorem nodup_of_perm {keep : Setting → Bool} (nodup : (r.map Prod.fst).Nodup)
    (perm : entries.Perm (r.filter (keep ·.2))) : (entries.map Prod.fst).Nodup :=
  (perm.map Prod.fst).nodup_iff.2 (nodup.sublist (List.filter_sublist.map _))

/-- In whatever order the entries come, and if only nulls are missing, every setting is found. -/
theorem lookup_of_perm {keep : Setting → Bool} (nodup : (r.map Prod.fst).Nodup)
    (perm : entries.Perm (r.filter (keep ·.2))) (nulls : ∀ s, keep s = false → s = .null)
    (mem : (name, s) ∈ r) : (entries.lookup name).getD .null = s := by
  cases keeps : keep s with
  | true =>
    have kept := nodup_of_perm nodup perm
    rw [lookup_of_mem kept (perm.mem_iff.2 (List.mem_filter.2 ⟨mem, keeps⟩)), Option.getD_some]
  | false =>
    have missing : name ∉ entries.map Prod.fst := by
      intro there
      obtain ⟨⟨name', s'⟩, mem', rfl⟩ := List.mem_map.1 there
      obtain ⟨old, keeps'⟩ := List.mem_filter.1 (perm.mem_iff.1 mem')
      obtain ⟨-, rfl⟩ := Prod.mk.inj (List.inj_on_of_nodup_map nodup old mem rfl)
      rw [keeps] at keeps'
      cases keeps'
    rw [lookup_of_notMem missing, Option.getD_none, nulls s keeps]

end Record

namespace Field

theorem mem_all (f : Field) : f ∈ all := by
  cases f <;> decide

theorem isName_name (f : Field) : IsName f.name := by
  have plain : (f.name.toList.all fun c => c.isAlphanum || c == '_') = true := by
    cases f <;> decide
  refine ⟨by cases f <;> decide, fun c mem => ?_⟩
  simpa using List.all_eq_true.1 plain c mem

end Field

/-! ## Configurations -/

namespace CoreConfig

variable {c : CoreConfig} {entries : Record}

theorem isPlain_setting (c : CoreConfig) (f : Field) : (c.setting f).IsPlain := by
  cases f with
  | signalStackSize => exact .word _
  | hostCpu =>
    rw [setting]
    cases c.hostCpu with
    | none => exact .null
    | some cpu => exact .word _
  | lockSpinLimit => exact .word c.lockSpinLimit.toUInt64
  | logRecoveredFaults => exact .flag _
  | strictAlignment => exact .flag _

theorem mem_record (c : CoreConfig) (f : Field) : (f.name, c.setting f) ∈ c.record :=
  List.mem_map_of_mem f.mem_all

theorem isPlain_record (c : CoreConfig) : c.record.IsPlain where
  nodup := by
    rw [record, List.map_map]
    exact (by decide : (Field.all.map Field.name).Nodup)
  names := by
    intro entry mem
    obtain ⟨f, -, rfl⟩ := List.mem_map.1 mem
    exact f.isName_name
  settings := by
    intro entry mem
    obtain ⟨f, -, rfl⟩ := List.mem_map.1 mem
    exact c.isPlain_setting f

/-- A field gets its value from its setting, which may be missing if it is null. -/
theorem field_eq_some {α : Type} {found : Option Setting} {s : Setting}
    {read : Setting → Option α} {default a : α} (there : found.getD .null = s)
    (reads : read s = some a) (absent : s = .null → default = a) :
    field found read default = some a := by
  cases found with
  | none => exact congrArg some (absent there.symm)
  | some s' =>
    obtain rfl : s' = s := there
    exact reads

theorem ofSettings_eq_some {find : Field → Option Setting}
    (found : ∀ f, (find f).getD .null = c.setting f) : ofSettings find = some c := by
  have cpu : c.setting .hostCpu = .null → none = c.hostCpu := by
    rw [setting]
    cases c.hostCpu with
    | none => exact fun _ => rfl
    | some n => exact fun null => Setting.noConfusion null
  rw [ofSettings, field_eq_some (found .signalStackSize) (Setting.word?_ofWord _) nofun,
    field_eq_some (found .hostCpu) (Setting.optionalWord?_getD _) cpu,
    field_eq_some (found .lockSpinLimit) (Setting.half?_toNat _) nofun,
    field_eq_some (found .logRecoveredFaults) (Setting.flag?_flag _) nofun,
    field_eq_some (found .strictAlignment) (Setting.flag?_flag _) nofun]
  rfl

/-- A document that has a configuration's entries in some order, and lacks at most nulls, is read as
that configuration. -/
theorem ofDocument?_of_perm (keep : Setting → Bool)
    (perm : entries.Perm (c.record.filter (keep ·.2))) (nulls : ∀ s, keep s = false → s = .null) :
    ofDocument? (.record entries) = some c := by
  have nodup := c.isPlain_record.nodup
  have once : (Document.record entries).isUnambiguous = true := by
    rw [Document.isUnambiguous, List.all_eq_true]
    intro f _
    have count := List.nodup_iff_count_le_one.1 (Record.nodup_of_perm nodup perm) f.name
    rw [List.count, List.countP_map] at count
    exact decide_eq_true count
  rw [ofDocument?, if_pos once]
  exact ofSettings_eq_some fun f => Record.lookup_of_perm nodup perm nulls (c.mem_record f)

end CoreConfig

end GuestExec
