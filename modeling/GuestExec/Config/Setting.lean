import GuestExec.Config.Basic

/-!
# Fields and settings

A configuration file sets fields by name. A `Setting` is a value as far as a
field can tell values apart: whatever is no integer, truth value or null is no
value for any field. `CoreConfig.ofSettings` takes a field that is not set from
the default, and `CoreConfig.setting` gives each field's value back; all of
them, with their names, are the configuration's `Record`.
-/

namespace GuestExec

/-- A field of the configuration. -/
inductive Field where
  | signalStackSize
  | hostCpu
  | lockSpinLimit
  | logRecoveredFaults
  | strictAlignment
deriving DecidableEq, Repr

namespace Field

/-- All fields, in the order in which they are written. -/
def all : List Field :=
  [signalStackSize, hostCpu, lockSpinLimit, logRecoveredFaults, strictAlignment]

def name : Field → String
  | signalStackSize => "signal_stack_size"
  | hostCpu => "host_cpu"
  | lockSpinLimit => "lock_spin_limit"
  | logRecoveredFaults => "log_recovered_faults"
  | strictAlignment => "strict_alignment"

end Field

/-- What a configuration file sets a field to. -/
inductive Setting where
  | null
  | integer (n : Int)
  | flag (b : Bool)
  /-- No value for any field. -/
  | other
deriving DecidableEq, Repr

namespace Setting

def ofWord (n : UInt64) : Setting := .integer n.toNat

def word? : Setting → Option UInt64
  | .integer n =>
    if 0 ≤ n ∧ n < 0x1_0000_0000_0000_0000 then some (UInt64.ofNat n.toNat) else none
  | _ => none

/-- A word, or null for none. -/
def optionalWord? : Setting → Option (Option UInt64)
  | .null => some none
  | s => s.word?.map some

def half? : Setting → Option UInt32
  | .integer n => if 0 ≤ n ∧ n < 0x1_0000_0000 then some (UInt32.ofNat n.toNat) else none
  | _ => none

def flag? : Setting → Option Bool
  | .flag b => some b
  | _ => none

end Setting

/-- Names with their settings, in order. -/
abbrev Record := List (String × Setting)

namespace CoreConfig

/-- What a field is set to. -/
def setting (c : CoreConfig) : Field → Setting
  | .signalStackSize => .ofWord c.signalStackSize
  | .hostCpu => (c.hostCpu.map Setting.ofWord).getD .null
  | .lockSpinLimit => .integer c.lockSpinLimit.toNat
  | .logRecoveredFaults => .flag c.logRecoveredFaults
  | .strictAlignment => .flag c.strictAlignment

/-- All fields with what they are set to. -/
def record (c : CoreConfig) : Record := Field.all.map fun f => (f.name, c.setting f)

/-- The setting read for a field, or the default if it is not set; nothing if it is no value for
the field. -/
def field {α : Type} (setting : Option Setting) (read : Setting → Option α) (default : α) :
    Option α :=
  match setting with
  | none => some default
  | some s => read s

/-- The configuration with these settings; nothing if one is no value for its field. -/
def ofSettings (find : Field → Option Setting) : Option CoreConfig := do
  let d : CoreConfig := {}
  return {
    signalStackSize := ← field (find .signalStackSize) Setting.word? d.signalStackSize
    hostCpu := ← field (find .hostCpu) Setting.optionalWord? d.hostCpu
    lockSpinLimit := ← field (find .lockSpinLimit) Setting.half? d.lockSpinLimit
    logRecoveredFaults := ← field (find .logRecoveredFaults) Setting.flag? d.logRecoveredFaults
    strictAlignment := ← field (find .strictAlignment) Setting.flag? d.strictAlignment }

end CoreConfig

end GuestExec
