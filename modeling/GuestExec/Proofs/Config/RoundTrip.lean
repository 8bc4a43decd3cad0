import GuestExec.Config.File
import GuestExec.Proofs.Config.Json
import GuestExec.Proofs.Config.Toml

/-!
# Configurations read back from their text

Whatever its fields are, valid or not, a configuration is read back from the text that is written
for it, by any libraries that keep to their formats. JSON can write every one; TOML those whose
words are integers of TOML.
-/

namespace GuestExec.CoreConfig

variable {libs : ConfigFormat → Library} {c : CoreConfig} {text : String}

theorem renderWith_eq_ok {format : ConfigFormat} :
    c.renderWith libs format = .ok text ↔ (libs format).write c.record = .ok text := by
  rw [renderWith]
  cases (libs format).write c.record with
  | error reason => exact iff_of_false nofun nofun
  | ok text => rw [Except.ok.injEq, Except.ok.injEq]

theorem parseWith_of_read {format : ConfigFormat} {d : Document}
    (read : (libs format).read text = .ok d) (set : ofDocument? d = some c) :
    parseWith libs text format = .ok c := by
  rw [parseWith, read]
  dsimp only
  rw [set]

/-- Only the two words can be out of range: all else has fewer bits. -/
theorem integers_le_iff (c : CoreConfig) :
    (∀ name n, (name, Setting.integer n) ∈ c.record → n ≤ 0x7fff_ffff_ffff_ffff) ↔
      c.signalStackSize.toNat ≤ 0x7fff_ffff_ffff_ffff ∧
        ∀ cpu, c.hostCpu = some cpu → cpu.toNat ≤ 0x7fff_ffff_ffff_ffff := by
  constructor
  · intro bounded
    have stack := bounded _ _ (c.mem_record .signalStackSize)
    refine ⟨by omega, fun n some => ?_⟩
    have cpu : c.setting .hostCpu = .integer n.toNat := by
      rw [setting, some]
      rfl
    have small := bounded _ _ (cpu ▸ c.mem_record .hostCpu)
    omega
  · rintro ⟨stack, host⟩ name n mem
    obtain ⟨f, -, eq⟩ := List.mem_map.1 mem
    obtain ⟨-, set⟩ := Prod.mk.inj eq
    cases f with
    | signalStackSize =>
      cases set
      omega
    | hostCpu =>
      rw [setting] at set
      cases some : c.hostCpu with
      | none =>
        rw [some] at set
        cases set
      | some cpu =>
        rw [some] at set
        cases set
        have small := host cpu some
        omega
    | lockSpinLimit =>
      cases set
      have small := c.lockSpinLimit.toNat_lt
      omega
    | logRecoveredFaults => cases set
    | strictAlignment => cases set

theorem parseWith_json (laws : (libs .json).KeepsJson)
    (written : c.renderWith libs .json = .ok text) : parseWith libs text .json = .ok c := by
  obtain ⟨entries, read, perm⟩ := laws.reads c.isPlain_record (renderWith_eq_ok.1 written)
  refine parseWith_of_read read (ofDocument?_of_perm (fun _ => true) ?_ nofun)
  rw [List.filter_true]
  exact perm

theorem parseWith_toml (laws : (libs .toml).KeepsToml)
    (written : c.renderWith libs .toml = .ok text) : parseWith libs text .toml = .ok c := by
  obtain ⟨entries, read, perm⟩ := laws.reads c.isPlain_record (renderWith_eq_ok.1 written)
  refine parseWith_of_read read (ofDocument?_of_perm (fun s => decide (s ≠ .null)) perm ?_)
  exact fun s dropped => not_not.1 (of_decide_eq_false dropped)

/-- Loading asks no more than that the configuration is valid. -/
theorem loadTomlWith_of_parseWith (read : parseWith libs text .toml = .ok c) :
    loadTomlWith libs text = c.validate.map fun _ => c := by
  rw [loadTomlWith, read]
  show c.validate.bind (fun _ => .ok c) = _
  cases c.validate <;> rfl

/-- JSON holds every configuration and TOML exactly those whose words are at most 2^63 - 1. What is
read from the text is the configuration that was written, and it loads if and only if it is
valid. -/
theorem parse_render (toml : (libs .toml).KeepsToml) (json : (libs .json).KeepsJson)
    (c : CoreConfig) :
    (∃ text, c.renderWith libs .json = .ok text ∧ parseWith libs text .json = .ok c) ∧
      ((∃ text, c.renderWith libs .toml = .ok text) ↔
        c.signalStackSize.toNat ≤ 0x7fff_ffff_ffff_ffff ∧
          ∀ cpu, c.hostCpu = some cpu → cpu.toNat ≤ 0x7fff_ffff_ffff_ffff) ∧
      ∀ text, c.renderWith libs .toml = .ok text →
        parseWith libs text .toml = .ok c ∧ (loadTomlWith libs text).isOk = c.validate.isOk ∧
          loadTomlWith libs text = c.validate.map fun _ => c := by
  refine ⟨?_, ?_, fun text written => ?_⟩
  · obtain ⟨text, written⟩ := json.writes c.isPlain_record
    have rendered := renderWith_eq_ok.2 written
    exact ⟨text, rendered, parseWith_json json rendered⟩
  · simp only [renderWith_eq_ok]
    rw [toml.writes c.isPlain_record, integers_le_iff]
  · have read := parseWith_toml toml written
    have loaded := loadTomlWith_of_parseWith read
    refine ⟨read, ?_, loaded⟩
    rw [loaded]
    cases c.validate <;> rfl

/-- The default configuration as TOML: it has no host CPU, so no line for one. -/
def defaultToml : String :=
  "signal_stack_size = 65536\nlock_spin_limit = 1000\nlog_recovered_faults = false\n" ++
    "strict_alignment = false\n"

/-- The default configuration as JSON, where an absent host CPU is null. -/
def defaultJson : String :=
  "\x7b\n  \"signal_stack_size\": 65536,\n  \"host_cpu\": null,\n  \"lock_spin_limit\": 1000,\n" ++
    "  \"log_recovered_faults\": false,\n  \"strict_alignment\": false\n\x7d"

theorem parse_render_default :
    (({} : CoreConfig).render .toml = .ok defaultToml ∧ parse defaultToml .toml = .ok {} ∧
      loadToml defaultToml = .ok {}) ∧
    (({} : CoreConfig).render .json = .ok defaultJson ∧ parse defaultJson .json = .ok {}) ∧
    ∀ text, ({ hostCpu := some 0x8000_0000_0000_0000 } : CoreConfig).render .toml ≠ .ok text := by
  have round := @parse_render libraries Toml.keepsToml_library Json.keepsJson_library
  have toml : ({} : CoreConfig).render .toml = .ok defaultToml :=
    renderWith_eq_ok.2 (Toml.write_eq_ok_iff.2
      ⟨List.all_eq_true.1 (by decide), by decide +kernel⟩)
  have json : ({} : CoreConfig).render .json = .ok defaultJson :=
    renderWith_eq_ok.2 (congrArg Except.ok (by decide +kernel))
  obtain ⟨⟨text, rendered, read⟩, -, written⟩ := round {}
  obtain ⟨readToml, -, loaded⟩ := written _ toml
  obtain rfl : text = defaultJson := Except.ok.inj (rendered.symm.trans json)
  refine ⟨⟨toml, readToml, loaded⟩, ⟨json, read⟩, fun text rendered => ?_⟩
  have fits := ((round { hostCpu := some 0x8000_0000_0000_0000 }).2.1.1 ⟨text, rendered⟩).2 _ rfl
  exact absurd fits (by decide)

end GuestExec.CoreConfig
