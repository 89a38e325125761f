/-!
# Waiting between attempts

Attempts to get a connection back are made with growing pauses: the first pause is given, each next
one is twice as long up to a limit, and there are only so many. What is waited in fact lies between
a pause and its double, so that not everybody comes back at once.
-/

namespace EventSourcing

structure RetrySettings where
  /-- Milliseconds. -/
  minDelay : Nat := 100
  /-- Milliseconds. -/
  maxDelay : Nat := 5000
  /-- How many attempts are made in a row. -/
  maxTimes : Nat := 30
  deriving DecidableEq, Repr

/-- The pauses that are left. -/
structure Backoff where
  next : Nat
  limit : Nat
  left : Nat
  deriving DecidableEq, Repr

namespace Backoff

def start (r : RetrySettings) : Backoff := ⟨r.minDelay, r.maxDelay, r.maxTimes⟩

/-- The pause after one of `delay`. -/
def grow (limit delay : Nat) : Nat := min (if delay < limit then 2 * delay else delay) limit

/-- Takes the next pause. -/
def next? (b : Backoff) : Option (Nat × Backoff) :=
  match b.left with
  | 0 => none
  | left + 1 => some (b.next, { b with next := grow b.limit b.next, left := left })

/-- All pauses that are left. -/
def pauses (delay limit : Nat) : Nat → List Nat
  | 0 => []
  | left + 1 => delay :: pauses (grow limit delay) limit left

def toList (b : Backoff) : List Nat := pauses b.next b.limit b.left

/-- What is waited for a pause: the middle of its range. -/
def spread (pause : Nat) : Nat := pause + (pause + 1) / 2

/-! ## The pauses one by one -/

theorem next?_eq_none_iff (b : Backoff) : b.next? = none ↔ b.left = 0 := by
  unfold next?
  split <;> simp_all

/-- Taking a pause leaves all pauses but the first. -/
theorem toList_of_next? {b b' : Backoff} {pause : Nat} (h : b.next? = some (pause, b')) :
    b.toList = pause :: b'.toList := by
  obtain ⟨next, limit, left⟩ := b
  cases left with
  | zero => simp [next?] at h
  | succ left =>
    simp only [next?, Option.some.injEq, Prod.mk.injEq] at h
    obtain ⟨rfl, rfl⟩ := h
    rfl

theorem length_toList (b : Backoff) : b.toList.length = b.left := by
  obtain ⟨next, limit, left⟩ := b
  simp only [toList]
  induction left generalizing next with
  | zero => rfl
  | succ left ih => simp [pauses, ih]

end Backoff

end EventSourcing
