import EventSourcing.Proofs.Log.Coherence
import Mathlib.Data.List.Induction

/-!
# The order of records

Positions go up along the log and along each category, and stay below the next one that is given
out. In the whole log, in a category and in a stream no position is given out twice, whatever was
deleted in between (`Server.positions_never_reused`).
-/

namespace EventSourcing

/-- Whether two entries have no position in common. The streams of marks are not numbered. -/
structure Entry.Apart (e e' : Entry) : Prop where
  commit : e.record.commit ≠ e'.record.commit
  category : ∀ place, e.category = some place → e'.category ≠ some place
  stream : Text.hasPrefix tombstoneMark e.record.stream = false →
    e.record.stream = e'.record.stream → e.record.position ≠ e'.record.position

theorem Scope.position?_category {e : Entry} {name : String} {place : Nat} :
    (Scope.category name).position? e = some place ↔ e.category = some (name, place) := by
  cases hc : e.category with
  | none => simp [position?, hc]
  | some own => by_cases h : own.1 = name <;> simp [position?, hc, h, Prod.ext_iff]

theorem Scope.position?_stream {e : Entry} {name : String} (h : e.record.stream = name) :
    (Scope.stream name).position? e = some e.record.position := if_pos h

namespace Log

variable {log log' : Log}

theorem Numbered.apart (h : log.Numbered) : log.history.Pairwise Entry.Apart := by
  rw [List.pairwise_iff_forall_sublist]
  intro e e' hsub
  have hlt (scope : Scope) (hs : scope.IsSteady) :=
    List.pairwise_iff_forall_sublist.1 (h.ordered hs) hsub
  constructor
  · exact Nat.ne_of_lt (hlt .all trivial _ rfl _ rfl)
  · intro place hp hp'
    have hself := hlt (.category place.1) trivial _ (Scope.position?_category.2 hp) _
      (Scope.position?_category.2 hp')
    exact Nat.lt_irrefl _ hself
  · intro hs heq
    exact Nat.ne_of_lt (hlt (.stream e.record.stream) hs _ (Scope.position?_stream rfl) _
      (Scope.position?_stream heq.symm))

theorem Coherent.entries_ordered (h : log.Coherent) {scope : Scope} (hs : scope.IsSteady) :
    log.entries.Pairwise fun e e' => ∀ p, scope.position? e = some p →
      ∀ p', scope.position? e' = some p' → p < p' :=
  (h.ordered hs).sublist h.entries_sublist

theorem Numbered.exists_head (h : log.Numbered) {e : Entry} (he : e ∈ log.history) {name : String}
    {place : Nat} (hc : e.category = some (name, place)) :
    ∃ head, log.heads.get? name = some head ∧ place < head := by
  have hs : (Scope.category name).IsSteady := trivial
  have hlt := h.lt_size hs he (Scope.position?_category.2 hc)
  rw [← h.heads_eq] at hlt
  cases hh : log.heads.get? name with
  | none => simp [hh] at hlt
  | some head =>
      rw [hh] at hlt
      exact ⟨head, rfl, hlt⟩

/-- What is written can be read at once. -/
theorem Step.mem_entries (h : log.Step log') {e : Entry} (he : e ∈ log'.history) :
    e ∈ log.history ∨ e ∈ log'.entries := by
  cases h with
  | append h =>
      rw [history_append h, List.mem_append] at he
      obtain ⟨-, -, -, rfl⟩ := append_eq_ok h
      simp only [pushAll_entries, List.mem_append]
      exact he.imp_right .inr
  | tombstone h =>
      rw [history_tombstone h, List.mem_append] at he
      obtain ⟨-, rfl⟩ := tombstone_eq_ok h
      rw [push_entries, List.mem_append]
      exact he.imp_right .inr

end Log

namespace Server

theorem mem_history_after (now : Nat) (requests : List Request) {e : Entry} :
    e ∈ ((start now).after requests).log.history ↔
      ∃ before, before <+: requests ∧ e ∈ ((start now).after before).log.entries := by
  constructor
  · intro he
    -- The last request has written the entry, or it was there before.
    induction requests using List.reverseRecOn with
    | nil => cases he
    | append_singleton requests r ih =>
        have hmore : requests <+: requests ++ [r] := List.prefix_append ..
        have hearlier (he : e ∈ ((start now).after requests).log.history) :
            ∃ before, before <+: requests ++ [r] ∧ e ∈ ((start now).after before).log.entries := by
          obtain ⟨before, hb, he⟩ := ih he
          exact ⟨before, hb.trans hmore, he⟩
        have hafter : (start now).after (requests ++ [r]) =
            (((start now).after requests).serve r).2 := after_append ..
        rw [hafter] at he
        rcases ((start now).after requests).serve_log r with hl | hl
        · rw [hl] at he
          exact hearlier he
        · rcases hl.mem_entries he with he | he
          · exact hearlier he
          · exact ⟨requests ++ [r], List.prefix_refl _, hafter ▸ he⟩
  · rintro ⟨before, ⟨rest, rfl⟩, he⟩
    rw [after_append]
    exact (((start now).after before).after_before rest).history.subset
      ((coherent_after now before).entries_sublist.subset he)

/-- Along the log and along each category positions go up, and the next ones are above them. No two
records that were ever written have a position in common, and what was ever written is what could be
read at some time. -/
theorem positions_never_reused (now : Nat) (requests : List Request) :
    let log := ((start now).after requests).log
    (log.entries.Pairwise fun e e' => e.record.commit < e'.record.commit) ∧
    (∀ e ∈ log.entries, e.record.commit < log.nextCommit) ∧
    (∀ name, (log.entries.Pairwise fun e e' => ∀ place, e.category = some (name, place) →
        ∀ place', e'.category = some (name, place') → place < place') ∧
      ∀ e ∈ log.entries, ∀ place, e.category = some (name, place) →
        ∃ head, log.heads.get? name = some head ∧ place < head) ∧
    log.history.Pairwise Entry.Apart ∧
    ∀ e, e ∈ log.history ↔
      ∃ before, before <+: requests ∧ e ∈ ((start now).after before).log.entries := by
  intro log
  have h : log.Coherent := coherent_after now requests
  have hwritten : log.entries ⊆ log.history := h.entries_sublist.subset
  have hall : Scope.all.IsSteady := trivial
  refine ⟨?_, ?_, ?_, h.apart, fun e => mem_history_after now requests⟩
  · exact (h.entries_ordered hall).imp fun ho => ho _ rfl _ rfl
  · intro e he
    rw [h.nextCommit_eq]
    exact h.lt_size hall (hwritten he) rfl
  · intro name
    have hname : (Scope.category name).IsSteady := trivial
    constructor
    · refine (h.entries_ordered hname).imp ?_
      intro e e' ho place hp place' hp'
      exact ho _ (Scope.position?_category.2 hp) _ (Scope.position?_category.2 hp')
    · intro e he place hp
      exact h.exists_head (hwritten he) hp

/-- Streams of one category are written, the first one is deleted, and more is written. -/
def renewedRun : List Request :=
  let append (stream : String) : Request := .call (.append stream .any [⟨"Noted", [], []⟩])
  [append "order-1", append "order-2", .call (.tombstone "order-1"), append "order-2",
    append "order-1"]

theorem positions_never_reused_renewedRun :
    let log := ((start 0).after renewedRun).log
    log.entries.map (·.record.commit) = [1, 2, 3] ∧
    log.entries.map (·.category) = [some ("order", 1), some ("order", 2), some ("order", 3)] ∧
    log.history.map (·.category) =
      [some ("order", 0), some ("order", 1), some ("order", 2), some ("order", 3)] ∧
    log.history.Pairwise Entry.Apart := by
  intro log
  exact ⟨by decide +kernel, by decide +kernel, by decide +kernel,
    (positions_never_reused 0 renewedRun).2.2.2.1⟩

end Server

end EventSourcing
