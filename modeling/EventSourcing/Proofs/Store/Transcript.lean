import EventSourcing.Proofs.Store.Guard

/-!
# The calls that a store makes

A client that writes down what it is asked (`Transcript`) answers as it would have done, and shows
which calls of the store it took to get an answer.
-/

namespace EventSourcing

/-- A client with the calls that were made of it, in order. -/
structure Transcript (σ : Type) where
  client : σ
  calls : List StreamCall := []

namespace Transcript

variable {σ α : Type}

/-- Writes down a call and what came of it. -/
def note (t : Transcript σ) (c : StreamCall) (r : α × σ) : α × Transcript σ :=
  (r.1, ⟨r.2, t.calls ++ [c]⟩)

instance [LogClient σ] : LogClient (Transcript σ) where
  append t stream expected events :=
    t.note (.append stream expected events) (LogClient.append t.client stream expected events)
  read t stream start := t.note (.read stream start) (LogClient.read t.client stream start)
  version? t stream := t.note (.version stream) (LogClient.version? t.client stream)
  tombstone t stream := t.note (.tombstone stream) (LogClient.tombstone t.client stream)

end Transcript

namespace Store

variable {σ : Type} [LogClient σ] (t : Transcript σ) (stream : String)

theorem read_note (start : Nat) :
    read t stream start = t.note (.read stream start) (read t.client stream start) := rfl

theorem delete_note : delete t stream = t.note (.tombstone stream) (delete t.client stream) := rfl

theorem version_note : version t stream = t.note (.version stream) (version t.client stream) := rfl

variable (events : List EncodedEvent) (expected : Nat)

theorem attempt_note (hne : events ≠ []) : attempt t stream events expected =
    t.note (.append stream (.ofVersion expected) events)
      (attempt t.client stream events expected) := by
  unfold attempt
  rw [if_neg hne, if_neg hne]
  simp only [LogClient.append, Transcript.note]
  cases LogClient.append t.client stream (.ofVersion expected) events with
  | mk result client =>
      cases result with
      | ok version => rfl
      | error e =>
          cases e with
          | wrongExpectedVersion _ _ reported => cases reported <;> rfl
          | _ => rfl

theorem explain_note : explain t stream expected =
    t.note (.version stream) (explain t.client stream expected) := by
  unfold explain
  rw [version_note]
  simp only [Transcript.note]
  cases version t.client stream with
  | mk result client => cases result <;> rfl

/-- An append is one call; one that is rejected may take another call, for the version that it ran
into. -/
theorem append_note (hne : events ≠ []) : ∃ more, append t stream events expected =
    ((append t.client stream events expected).1,
      ⟨(append t.client stream events expected).2,
        t.calls ++ .append stream (.ofVersion expected) events :: more⟩) ∧
    ∀ version, (append t.client stream events expected).1 = .ok version → more = [] := by
  have hnote := attempt_note t stream events expected hne
  cases hr : (attempt t.client stream events expected).1 with
  | settled result =>
      have ht : (attempt t stream events expected).1 = .settled result := by rw [hnote]; exact hr
      refine ⟨[], ?_, fun _ _ => rfl⟩
      rw [append_of_settled ht, append_of_settled hr, hnote]
      rfl
  | unexplained =>
      have ht : (attempt t stream events expected).1 = .unexplained := by rw [hnote]; exact hr
      have ha := append_of_unexplained hr
      refine ⟨[.version stream], ?_, fun version hv => ?_⟩
      · rw [append_of_unexplained ht, ha, hnote, explain_note]
        simp only [Transcript.note, List.append_assoc, List.cons_append, List.nil_append]
      · obtain ⟨e, he⟩ := exists_explain_eq_error (attempt t.client stream events expected).2 stream
          expected
        rw [ha, he] at hv
        cases hv

end Store

end EventSourcing
