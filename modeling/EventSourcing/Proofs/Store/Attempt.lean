import EventSourcing.Proofs.Repository.Calls

/-!
# An append of the store, call by call

An append of the store is one call of its client, or two: a rejection that does not name the version
of the stream is explained by a call of its own, and others may act in between.
-/

namespace EventSourcing.Store

/-- Where an append stands after its first call. -/
inductive Attempt
  | settled (result : Except StoreError Nat)
  /-- It was rejected, and the version that it ran into has yet to be read. -/
  | unexplained
  deriving DecidableEq

variable {σ : Type} [LogClient σ] (client : σ) (stream : String) (events : List EncodedEvent)
  (expected : Nat)

/-- The first call of an append. -/
def attempt : Attempt × σ :=
  if events = [] then (.settled (.ok expected), client)
  else
    match LogClient.append client stream (.ofVersion expected) events with
    | (.ok version, client) => (.settled (.ok version), client)
    | (.error (.wrongExpectedVersion _ _ (some actual)), client) =>
      (.settled (.error (.concurrency ⟨stream, expected, actual⟩)), client)
    | (.error (.wrongExpectedVersion _ _ none), client) => (.unexplained, client)
    | (.error e, client) => (.settled (.error (.ofLogError e)), client)

/-- The second call of an append. -/
def explain : Except StoreError Nat × σ :=
  match version client stream with
  | (.ok actual, client) => (.error (.concurrency ⟨stream, expected, actual⟩), client)
  | (.error e, client) => (.error e, client)

/-- An append in the course of which others do something. -/
def appendAround (others : σ → σ) : Except StoreError Nat × σ :=
  match attempt client stream events expected with
  | (.settled result, client) => (result, client)
  | (.unexplained, client) => explain (others client) stream expected

theorem attempt_of_nil (h : events = []) :
    attempt client stream events expected = (.settled (.ok expected), client) := if_pos h

/-- Reading the version does not make an append go through. -/
theorem exists_explain_eq_error : ∃ e, (explain client stream expected).1 = .error e := by
  unfold explain
  split
  · exact ⟨_, rfl⟩
  · exact ⟨_, rfl⟩

section Around

variable {client stream events expected}

theorem appendAround_of_settled {result : Except StoreError Nat}
    (h : (attempt client stream events expected).1 = .settled result) (others : σ → σ) :
    appendAround client stream events expected others =
      (result, (attempt client stream events expected).2) := by
  unfold appendAround
  split <;> rename_i ha <;> rw [ha] at h
  · rw [Attempt.settled.inj h, ha]
  · cases h

theorem appendAround_of_unexplained
    (h : (attempt client stream events expected).1 = .unexplained) (others : σ → σ) :
    appendAround client stream events expected others =
      explain (others (attempt client stream events expected).2) stream expected := by
  unfold appendAround
  split <;> rename_i ha <;> rw [ha] at h
  · cases h
  · rw [ha]

end Around

/-- Nothing happens between the calls of an append that is made alone. -/
theorem appendAround_id :
    appendAround client stream events expected id = append client stream events expected := by
  unfold appendAround attempt append
  by_cases hne : events = []
  · simp only [if_pos hne]
  · simp only [if_neg hne]
    cases LogClient.append client stream (.ofVersion expected) events with
    | mk result client =>
        cases result with
        | ok version => rfl
        | error e =>
            cases e with
            | wrongExpectedVersion _ _ reported => cases reported <;> rfl
            | _ => rfl

section Alone

variable {client stream events expected}

theorem append_of_settled {result : Except StoreError Nat}
    (h : (attempt client stream events expected).1 = .settled result) :
    append client stream events expected = (result, (attempt client stream events expected).2) := by
  rw [← appendAround_id]
  exact appendAround_of_settled h id

theorem append_of_unexplained
    (h : (attempt client stream events expected).1 = .unexplained) :
    append client stream events expected =
      explain (attempt client stream events expected).2 stream expected := by
  rw [← appendAround_id]
  exact appendAround_of_unexplained h id

end Alone

end EventSourcing.Store
