import GuestExec.Invalidation

/-!
# No request is lost

A drain yields what was pushed since the one before it: these requests in their order, or one for
everything if they are too many or one of them is for everything (`merged`). A queue `Carries` a
list of requests if it would yield that of them, and each call keeps it carrying what is
`undrained`.

Whether anything is queued is asked at every safe point, so it is kept in a flag beside the queue
that is read without the lock (`FlaggedQueue`). The flag never tells anything but what a look at
the queue would.
-/

namespace GuestExec

namespace InvalidationQueue

inductive Call where
  | push (request : Invalidation)
  | drain
deriving DecidableEq, Repr

def apply (q : InvalidationQueue) : Call → InvalidationQueue
  | .push request => q.push request
  | .drain => q.drain.2

/-- The queue after `calls`, made one after the other on an empty one. -/
def after (calls : List Call) : InvalidationQueue := calls.foldl apply {}

/-- The requests that wait after the call, where `waiting` did before. -/
def note (waiting : List Invalidation) : Call → List Invalidation
  | .push request => waiting ++ [request]
  | .drain => []

/-- The requests that no drain has taken, the oldest first. -/
def undrained (calls : List Call) : List Invalidation := calls.foldl note []

/-- What is carried out for a list of requests. -/
def merged (list : List Invalidation) : List Invalidation :=
  if list.length ≤ limit ∧ .all ∉ list then list else [.all]

variable {q : InvalidationQueue} {list : List Invalidation} {request : Invalidation}
  {calls : List Call} {a : GuestAddr}

/-! ## Lists of requests -/

theorem merged_eq_nil_iff : merged list = [] ↔ list = [] := by
  rw [merged]
  split
  · rfl
  · rename_i tooMany
    constructor
    · intro none
      cases none
    · rintro rfl
      exact absurd ⟨Nat.zero_le limit, List.not_mem_nil⟩ tooMany

theorem length_merged_le (list : List Invalidation) : (merged list).length ≤ limit := by
  rw [merged]
  split
  · rename_i within
    exact within.1
  · decide

/-- What is carried out covers all that was requested. -/
theorem covers_merged (mem : request ∈ list) (covers : request.covers a = true) :
    ∃ drained ∈ merged list, drained.covers a = true := by
  rw [merged]
  split
  · exact ⟨request, mem, covers⟩
  · exact ⟨.all, List.mem_singleton_self _, rfl⟩

/-- Once too many stays too many, and once everything stays everything. -/
theorem merged_append (tooMany : ¬(list.length ≤ limit ∧ .all ∉ list)) (more : List Invalidation) :
    merged (list ++ more) = [.all] := by
  rw [merged, if_neg]
  rintro ⟨short, none⟩
  rw [List.length_append] at short
  exact tooMany ⟨by omega, fun mem => none (List.mem_append_left more mem)⟩

/-! ## One call -/

/-- The queue holds what is to be carried out for `list`. -/
def Carries (q : InvalidationQueue) (list : List Invalidation) : Prop := q.requests = merged list

theorem carries_empty : ({} : InvalidationQueue).Carries [] := rfl

theorem Carries.push (h : q.Carries list) (request : Invalidation) :
    (q.push request).Carries (list ++ [request]) := by
  rw [Carries, merged] at h
  rw [Carries, InvalidationQueue.push]
  split at h
  · rename_i within
    have unmerged : q.requests.head? ≠ some .all := by
      rw [h]
      exact fun head => within.2 (List.mem_of_head? head)
    split
    · rename_i collapses
      rw [merged, if_neg]
      rintro ⟨short, none⟩
      rw [List.length_append, List.length_singleton] at short
      rw [h] at collapses unmerged
      rcases collapses with rfl | full | head
      · exact none (List.mem_append_right list (List.mem_singleton_self _))
      · omega
      · exact unmerged head
    · rename_i stays
      rw [not_or, not_or, Nat.not_le, h] at stays
      rw [h, merged, if_pos]
      refine ⟨by rw [List.length_append, List.length_singleton]; omega, fun mem => ?_⟩
      rcases List.mem_append.1 mem with old | new
      · exact within.2 old
      · exact stays.1 (List.mem_singleton.1 new).symm
  · rename_i tooMany
    rw [merged_append tooMany, if_pos]
    rw [h]
    exact .inr (.inr rfl)

/-! ## Sequences of calls -/

theorem Carries.apply (h : q.Carries list) (call : Call) :
    (q.apply call).Carries (note list call) := by
  cases call with
  | push request => exact h.push request
  | drain => exact carries_empty

theorem Carries.foldl (h : q.Carries list) (calls : List Call) :
    (calls.foldl InvalidationQueue.apply q).Carries (calls.foldl note list) := by
  induction calls generalizing q list with
  | nil => exact h
  | cons call rest ih => exact ih (h.apply call)

theorem carries_after (calls : List Call) : (after calls).Carries (undrained calls) :=
  carries_empty.foldl calls

theorem mem_foldl_note {rest : List Call} (mem : request ∈ list) (quiet : .drain ∉ rest) :
    request ∈ rest.foldl note list := by
  induction rest generalizing list with
  | nil => exact mem
  | cons call rest ih =>
    rw [List.mem_cons, not_or] at quiet
    cases call with
    | push other => exact ih (List.mem_append_left [other] mem) quiet.2
    | drain => exact absurd rfl quiet.1

/-- A request waits until something is drained. -/
theorem mem_undrained {before rest : List Call} (quiet : .drain ∉ rest) :
    request ∈ undrained (before ++ .push request :: rest) := by
  rw [undrained, List.foldl_append, List.foldl_cons]
  exact mem_foldl_note (List.mem_append_right _ (List.mem_singleton_self request)) quiet

end InvalidationQueue

/-! ## The flag -/

/-- A queue with a flag that says whether anything is in it. -/
structure FlaggedQueue where
  pending : Bool := false
  queue : InvalidationQueue := {}
deriving DecidableEq, Repr, Inhabited

namespace FlaggedQueue

def push (f : FlaggedQueue) (request : Invalidation) : FlaggedQueue :=
  { pending := true, queue := f.queue.push request }

/-- Takes all requests, if the flag says that there are any. -/
def drain (f : FlaggedQueue) : List Invalidation × FlaggedQueue :=
  if f.pending then (f.queue.drain.1, { pending := false, queue := f.queue.drain.2 }) else ([], f)

def apply (f : FlaggedQueue) : InvalidationQueue.Call → FlaggedQueue
  | .push request => f.push request
  | .drain => f.drain.2

def after (calls : List InvalidationQueue.Call) : FlaggedQueue := calls.foldl apply {}

theorem isPending_push (q : InvalidationQueue) (request : Invalidation) :
    (q.push request).isPending = true := by
  rw [InvalidationQueue.isPending, InvalidationQueue.push]
  split <;> simp

/-- Without a flag that is set there is nothing to take. -/
theorem drain_of_isPending (q : InvalidationQueue) :
    drain ⟨q.isPending, q⟩ = (q.drain.1, ⟨q.drain.2.isPending, q.drain.2⟩) := by
  rw [drain]
  split
  · rfl
  · rename_i idle
    have empty : q.requests = [] := by
      simpa [InvalidationQueue.isPending] using idle
    obtain ⟨requests⟩ := q
    cases empty
    rfl

theorem apply_of_isPending (q : InvalidationQueue) (call : InvalidationQueue.Call) :
    apply ⟨q.isPending, q⟩ call = ⟨(q.apply call).isPending, q.apply call⟩ := by
  cases call with
  | push request =>
    rw [InvalidationQueue.apply, isPending_push]
    rfl
  | drain =>
    rw [apply, drain_of_isPending]
    rfl

/-- The flag tells what a look at the queue would. -/
theorem after_eq (calls : List InvalidationQueue.Call) :
    after calls = ⟨(InvalidationQueue.after calls).isPending, InvalidationQueue.after calls⟩ := by
  have step : ∀ q : InvalidationQueue, calls.foldl apply ⟨q.isPending, q⟩ =
      ⟨(calls.foldl InvalidationQueue.apply q).isPending,
        calls.foldl InvalidationQueue.apply q⟩ := by
    induction calls with
    | nil => exact fun q => rfl
    | cons call rest ih =>
      intro q
      rw [List.foldl_cons, apply_of_isPending]
      exact ih _
  exact step {}

end FlaggedQueue

namespace InvalidationQueue

/-- After any sequence of calls a drain yields the requests since the last one in their order, or
one for everything if they are more than 64 or one of them is for everything. So no address is
missed, no more than 64 requests are held, and there is something to drain exactly when a request
waits, which is what the flag says too. -/
theorem drained_exact (calls : List Call) :
    (after calls).drain.1 = merged (undrained calls) ∧
      ((after calls).isPending = true ↔ undrained calls ≠ []) ∧
      (after calls).requests.length ≤ limit ∧
      (∀ before request rest, calls = before ++ .push request :: rest → .drain ∉ rest →
        ∀ a, request.covers a = true →
          ∃ drained ∈ (after calls).drain.1, drained.covers a = true) ∧
      (FlaggedQueue.after calls).drain.1 = (after calls).drain.1 ∧
      (FlaggedQueue.after calls).pending = (after calls).isPending := by
  have held : (after calls).requests = merged (undrained calls) := carries_after calls
  refine ⟨held, ?_, ?_, ?_, ?_, ?_⟩
  · rw [isPending, held, Bool.not_eq_true', List.isEmpty_eq_false_iff, ne_eq, merged_eq_nil_iff]
  · rw [held]
    exact length_merged_le _
  · rintro before request rest rfl quiet a covers
    rw [drain, held]
    exact covers_merged (mem_undrained quiet) covers
  · rw [FlaggedQueue.after_eq, FlaggedQueue.drain_of_isPending]
  · rw [FlaggedQueue.after_eq]

/-- One request too many. -/
example : (after (List.replicate 65 (.push (.range ⟨0x1000⟩ 4)))).drain.1 = [.all] := by
  decide +kernel

end InvalidationQueue

end GuestExec
