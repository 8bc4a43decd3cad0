/-!
# Sets of pages

Pages of a region, numbered from its start. A `PageSet` says which of them are
in some state, a `PageMap` which state each is in; both are kept as intervals,
so that a change to a large range costs as much as one to a page.
-/

namespace GuestExec

/-- The pages of some half-open intervals. -/
structure PageSet where
  runs : List (Nat × Nat)
deriving Repr

namespace PageSet

def empty : PageSet := ⟨[]⟩

instance : Inhabited PageSet := ⟨empty⟩

/-- `page` is in the set. -/
def contains (s : PageSet) (page : Nat) : Bool :=
  s.runs.any fun run => decide (run.1 ≤ page) && decide (page < run.2)

/-- Some page of `[lo, hi)` is in the set. -/
def meets (s : PageSet) (lo hi : Nat) : Bool :=
  s.runs.any fun run => decide (max run.1 lo < min run.2 hi)

/-- Takes the pages of `[lo, hi)` out. -/
def erase (s : PageSet) (lo hi : Nat) : PageSet :=
  ⟨s.runs.flatMap fun run => [(run.1, min run.2 lo), (max run.1 hi, run.2)].filter fun run =>
    decide (run.1 < run.2)⟩

/-- Puts the pages of `[lo, hi)` in. -/
def insert (s : PageSet) (lo hi : Nat) : PageSet :=
  ⟨(lo, hi) :: (s.erase lo hi).runs⟩

theorem contains_iff (s : PageSet) (page : Nat) :
    s.contains page = true ↔ ∃ run ∈ s.runs, run.1 ≤ page ∧ page < run.2 := by
  simp [contains]

theorem meets_iff (s : PageSet) (lo hi : Nat) :
    s.meets lo hi = true ↔ ∃ page, lo ≤ page ∧ page < hi ∧ s.contains page = true := by
  simp only [meets, contains_iff, List.any_eq_true, decide_eq_true_eq]
  constructor
  · rintro ⟨run, mem, h⟩
    exact ⟨max run.1 lo, by omega, by omega, run, mem, by omega, by omega⟩
  · rintro ⟨page, hlo, hhi, run, mem, h1, h2⟩
    exact ⟨run, mem, by omega⟩

theorem contains_erase (s : PageSet) (lo hi page : Nat) :
    (s.erase lo hi).contains page = true ↔
      s.contains page = true ∧ ¬(lo ≤ page ∧ page < hi) := by
  simp only [contains_iff, erase, List.mem_flatMap]
  constructor
  · rintro ⟨run, ⟨other, mem, hrun⟩, h1, h2⟩
    simp only [List.mem_filter, List.mem_cons, List.not_mem_nil, or_false] at hrun
    rcases hrun.1 with rfl | rfl
    · exact ⟨⟨other, mem, by simp only at h1 h2; omega⟩, by simp only at h1 h2; omega⟩
    · exact ⟨⟨other, mem, by simp only at h1 h2; omega⟩, by simp only at h1 h2; omega⟩
  · rintro ⟨⟨run, mem, h1, h2⟩, out⟩
    by_cases below : page < lo
    · refine ⟨(run.1, min run.2 lo), ⟨run, mem, ?_⟩, h1, by simp only; omega⟩
      simp only [List.mem_filter, List.mem_cons, true_or, decide_eq_true_eq, true_and]
      omega
    · refine ⟨(max run.1 hi, run.2), ⟨run, mem, ?_⟩, by simp only; omega, h2⟩
      simp only [List.mem_filter, List.mem_cons, true_or, or_true, decide_eq_true_eq, true_and]
      omega

theorem contains_insert (s : PageSet) (lo hi page : Nat) :
    (s.insert lo hi).contains page = true ↔
      s.contains page = true ∨ (lo ≤ page ∧ page < hi) := by
  have erased := contains_erase s lo hi page
  rw [contains_iff] at erased ⊢
  simp only [insert, List.mem_cons, exists_eq_or_imp, erased]
  constructor
  · rintro (h | h)
    · exact .inr h
    · exact .inl h.1
  · rintro (h | h)
    · by_cases inside : lo ≤ page ∧ page < hi
      · exact .inl inside
      · exact .inr ⟨h, inside⟩
    · exact .inl h

end PageSet

/-- A value for every page: the latest assignment that has the page, else `default`. -/
structure PageMap (α : Type) where
  default : α
  /-- Half-open intervals of pages with their values, the latest first. -/
  assignments : List (Nat × Nat × α)
deriving Repr

namespace PageMap

variable {α : Type}

/-- Every page has the value `a`. -/
def const (a : α) : PageMap α := ⟨a, []⟩

instance [Inhabited α] : Inhabited (PageMap α) := ⟨const Inhabited.default⟩

def get (m : PageMap α) (page : Nat) : α :=
  match m.assignments.find? fun run => decide (run.1 ≤ page) && decide (page < run.2.1) with
  | some run => run.2.2
  | none => m.default

/-- Gives the pages of `[lo, hi)` the value `a`. -/
def assign (m : PageMap α) (lo hi : Nat) (a : α) : PageMap α :=
  { m with assignments := (lo, hi, a) :: m.assignments }

theorem get_assign (m : PageMap α) (lo hi : Nat) (a : α) (page : Nat) :
    (m.assign lo hi a).get page = if lo ≤ page ∧ page < hi then a else m.get page := by
  by_cases h : lo ≤ page ∧ page < hi
  · simp [get, assign, h]
  · have : (decide (lo ≤ page) && decide (page < hi)) = false := by simpa using h
    simp [get, assign, h, this]

end PageMap

end GuestExec
