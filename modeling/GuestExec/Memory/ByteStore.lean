import Std.Data.HashMap

/-!
# Bytes by offset

The contents of a memory block. A byte that was never written is zero, and
only written bytes take room, so a block may be as large as the address space.
-/

namespace GuestExec

/-- Bytes by offset, all zero at first. -/
structure ByteStore where
  written : Std.HashMap Nat UInt8

namespace ByteStore

def zeros : ByteStore := ⟨∅⟩

instance : Inhabited ByteStore := ⟨zeros⟩

/-- The byte at `offset`. -/
def get (s : ByteStore) (offset : Nat) : UInt8 := s.written.getD offset 0

def set (s : ByteStore) (offset : Nat) (b : UInt8) : ByteStore := ⟨s.written.insert offset b⟩

/-- The `count` bytes from `offset` on. -/
def read (s : ByteStore) (offset count : Nat) : List UInt8 :=
  (List.range' offset count).map s.get

/-- Writes `bytes` from `offset` on. -/
def write (s : ByteStore) (offset : Nat) : List UInt8 → ByteStore
  | [] => s
  | b :: rest => (s.set offset b).write (offset + 1) rest

@[simp] theorem get_zeros (offset : Nat) : zeros.get offset = 0 := by
  simp [get, zeros]

@[simp] theorem get_set (s : ByteStore) (offset i : Nat) (b : UInt8) :
    (s.set offset b).get i = if offset = i then b else s.get i := by
  simp [get, set, Std.HashMap.getD_insert]

theorem get_write (s : ByteStore) (offset : Nat) (bytes : List UInt8) (i : Nat) :
    (s.write offset bytes).get i =
      if offset ≤ i ∧ i < offset + bytes.length then bytes.getD (i - offset) 0 else s.get i := by
  induction bytes generalizing s offset with
  | nil => rw [write, if_neg (by simp only [List.length_nil]; omega)]
  | cons b rest ih =>
    rw [write, ih, List.length_cons]
    by_cases here : i = offset
    · subst here
      rw [if_neg (by omega), if_pos (by omega)]
      simp
    · by_cases later : offset + 1 ≤ i ∧ i < offset + 1 + rest.length
      · have step : i - offset = i - (offset + 1) + 1 := by omega
        rw [if_pos later, if_pos (by omega), step, List.getD_cons_succ]
      · rw [if_neg later, if_neg (by omega), get_set, if_neg (Ne.symm here)]

/-- What was written last is read back. -/
theorem read_write (s : ByteStore) (offset : Nat) (bytes : List UInt8) :
    (s.write offset bytes).read offset bytes.length = bytes := by
  have length : ((s.write offset bytes).read offset bytes.length).length = bytes.length := by
    rw [read, List.length_map, List.length_range']
  refine List.ext_getElem length fun i _ inside => ?_
  have here : offset ≤ offset + i ∧ offset + i < offset + bytes.length := by omega
  simp only [read, List.getElem_map, List.getElem_range', Nat.one_mul]
  rw [get_write, if_pos here, Nat.add_sub_cancel_left, List.getD_eq_getElem?_getD,
    List.getElem?_eq_getElem inside, Option.getD_some]

end ByteStore

end GuestExec
