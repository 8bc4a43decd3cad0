import GuestExec.Registers

/-!
# Registers by name

A `RegisterEdit` names some registers and gives each a new value. The special
registers go by their architectural names.
-/

namespace GuestExec

structure RegisterEdit where
  /-- General registers by number. -/
  x : List (Nat × UInt64) := []
  /-- Vector registers by number. -/
  v : List (Nat × BitVec 128) := []
  sp : Option UInt64 := none
  pc : Option UInt64 := none
  pstate : Option UInt32 := none
  fpcr : Option UInt32 := none
  fpsr : Option UInt32 := none
  tpidr : Option UInt64 := none
  tpidrro : Option UInt64 := none
  esr : Option UInt64 := none
  far : Option UInt64 := none
  elr : Option UInt64 := none
  spsr : Option UInt64 := none
  vbar : Option UInt64 := none
  svc : Option UInt32 := none
deriving DecidableEq, Repr, Inhabited

/-- The registers with those that the edit names replaced. -/
def RegisterEdit.apply (e : RegisterEdit) (r : Registers) : Registers :=
  { x := e.x.foldl (fun x (i, value) => x.setIfInBounds i value) r.x
    v := e.v.foldl (fun v (i, value) => v.setIfInBounds i value) r.v
    sp := e.sp.getD r.sp
    pc := e.pc.getD r.pc
    pstate := e.pstate.getD r.pstate
    fpcr := e.fpcr.getD r.fpcr
    fpsr := e.fpsr.getD r.fpsr
    tpidr := e.tpidr.getD r.tpidr
    tpidrro := e.tpidrro.getD r.tpidrro
    esr := e.esr.getD r.esr
    far := e.far.getD r.far
    elr := e.elr.getD r.elr
    spsr := e.spsr.getD r.spsr
    vbar := e.vbar.getD r.vbar
    svc := e.svc.getD r.svc }

/-- The values of the special registers, by name. -/
def Registers.special (r : Registers) : List (String × Nat) :=
  [("sp", r.sp.toNat), ("pc", r.pc.toNat), ("pstate", r.pstate.toNat), ("fpcr", r.fpcr.toNat),
    ("fpsr", r.fpsr.toNat), ("tpidr_el0", r.tpidr.toNat), ("tpidrro_el0", r.tpidrro.toNat),
    ("esr_el1", r.esr.toNat), ("far_el1", r.far.toNat), ("elr_el1", r.elr.toNat),
    ("spsr_el1", r.spsr.toNat), ("vbar_el1", r.vbar.toNat), ("svc", r.svc.toNat)]

/-- Names a special register by its name and gives it a value, cut to the register's width; nothing
for any other name. -/
def RegisterEdit.setSpecial (e : RegisterEdit) (name : String) (value : Nat) :
    Option RegisterEdit :=
  let word := some (UInt64.ofNat value)
  let half := some (UInt32.ofNat value)
  match name with
  | "sp" => some { e with sp := word }
  | "pc" => some { e with pc := word }
  | "pstate" => some { e with pstate := half }
  | "fpcr" => some { e with fpcr := half }
  | "fpsr" => some { e with fpsr := half }
  | "tpidr_el0" => some { e with tpidr := word }
  | "tpidrro_el0" => some { e with tpidrro := word }
  | "esr_el1" => some { e with esr := word }
  | "far_el1" => some { e with far := word }
  | "elr_el1" => some { e with elr := word }
  | "spsr_el1" => some { e with spsr := word }
  | "vbar_el1" => some { e with vbar := word }
  | "svc" => some { e with svc := half }
  | _ => none

end GuestExec
