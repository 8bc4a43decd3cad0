/-!
# Accesses and permissions

What an instruction does to memory, and which of these a region allows.
-/

namespace GuestExec

/-- What an instruction does at an address. -/
inductive Access where
  | read
  | write
  /-- Fetch of an instruction. -/
  | execute
deriving DecidableEq, Repr, Inhabited

namespace Access

def isWrite : Access → Bool
  | .write => true
  | _ => false

def name : Access → String
  | .read => "read"
  | .write => "write"
  | .execute => "execute"

def all : List Access := [.read, .write, .execute]

def ofName? (s : String) : Option Access := all.find? (·.name == s)

theorem ofName?_name (a : Access) : ofName? a.name = some a := by cases a <;> decide

end Access

/-- The accesses that a region allows. -/
structure Perms where
  read : Bool := false
  write : Bool := false
  execute : Bool := false
deriving DecidableEq, Repr, Inhabited

namespace Perms

def readWrite : Perms := { read := true, write := true }

def readExecute : Perms := { read := true, execute := true }

def all : Perms := { read := true, write := true, execute := true }

/-- No access at all. -/
def none : Perms := {}

def allows (p : Perms) : Access → Bool
  | .read => p.read
  | .write => p.write
  | .execute => p.execute

/-- Whether `p` allows whatever `q` allows. -/
def contains (p q : Perms) : Bool :=
  (p.read || !q.read) && (p.write || !q.write) && (p.execute || !q.execute)

/-- One bit each for read, write and execute, low bit first; page protections
of the host use the same numbers. -/
def bits (p : Perms) : Nat :=
  (if p.read then 1 else 0) + (if p.write then 2 else 0) + (if p.execute then 4 else 0)

/-- The letters `r`, `w` and `x` for the accesses allowed. -/
def letters (p : Perms) : String :=
  (if p.read then "r" else "") ++ (if p.write then "w" else "") ++ (if p.execute then "x" else "")

/-- The accesses whose letters occur in `s`. -/
def ofLetters (s : String) : Perms :=
  { read := s.toList.contains 'r'
    write := s.toList.contains 'w'
    execute := s.toList.contains 'x' }

theorem ofLetters_letters (p : Perms) : ofLetters p.letters = p := by
  rcases p with ⟨_ | _, _ | _, _ | _⟩ <;> decide

end Perms

end GuestExec
