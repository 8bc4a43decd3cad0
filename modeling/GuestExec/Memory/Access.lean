import GuestExec.Memory.Map

/-!
# Reading and writing guest memory

An access of any length is made region by region: each piece needs a region
that allows it and host pages without a guard. A read that fails returns
nothing; a write that fails has written the pieces before.
-/

namespace GuestExec.MemoryMap

/-- The host address of `addr` and how many bytes lie there in one piece, if the region allows
the access; `denied` is the error when it does not. -/
def piece (m : MemoryMap) (addr : GuestAddr) (access : Access) (denied : GuestAddr → MemoryError) :
    Except MemoryError { p : HostAddr × Nat // 0 < p.2 } :=
  match h : m.translate addr with
  | none => .error (.invalidAddress addr)
  | some mapping =>
    if mapping.perms.allows access then
      .ok ⟨(mapping.hostAddr addr, mapping.rest addr), translate_rest_pos h⟩
    else .error (denied addr)

/-- Reads `len` bytes from `addr` on. -/
def read (m : MemoryMap) (addr : GuestAddr) (len : Nat) : Except MemoryError (List UInt8) :=
  if len = 0 then .ok []
  else
    match m.piece addr .read .notReadable with
    | .error e => .error e
    | .ok ⟨(host, avail), _⟩ =>
      let n := min avail len
      match m.readHost host n with
      | .error e => .error e
      | .ok bytes =>
        match m.read (addr + UInt64.ofNat n) (len - n) with
        | .error e => .error e
        | .ok more => .ok (bytes ++ more)
termination_by len
decreasing_by
  have : 0 < avail := ‹0 < (host, avail).2›
  omega

/-- Writes `data` from `addr` on; the map returned has every piece that was written. -/
def write (m : MemoryMap) (addr : GuestAddr) (data : List UInt8) :
    Except MemoryError Unit × MemoryMap :=
  if data = [] then (.ok (), m)
  else
    match m.piece addr .write .notWritable with
    | .error e => (.error e, m)
    | .ok ⟨(host, avail), _⟩ =>
      let n := min avail data.length
      match m.writeHost host (data.take n) with
      | .error e => (.error e, m)
      | .ok m => m.write (addr + UInt64.ofNat n) (data.drop n)
termination_by data.length
decreasing_by
  have : 0 < data.length := List.length_pos_iff.2 ‹_›
  have : 0 < avail := ‹0 < (host, avail).2›
  rw [List.length_drop]
  omega

end GuestExec.MemoryMap
