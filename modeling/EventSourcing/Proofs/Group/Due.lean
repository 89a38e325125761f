import EventSourcing.Proofs.Group.Holdings
import EventSourcing.Proofs.Log.Request
import EventSourcing.Proofs.Sorting

/-!
# What is due in a group

A group that hands out nothing has nothing left to hand out (`Group.NothingDue`), unless it has just
parked a record that was in flight for too long and may not be repeated: then it stops looking, and
what else is due has to wait for another poll (`Server.parked_hides_next`). Each such poll parks one
record, so there are no more of them in a row than such records (`Group.exists_answer_or_nothingDue`).
-/

namespace EventSourcing

namespace Group

/-- There is nothing that the group could hand out. -/
structure NothingDue (entries : List Entry) (now : Nat) (g : Group) : Prop where
  retry : g.retry = []
  inTime : ∀ f ∈ g.sent, now - f.sentAt < g.settings.messageTimeout
  reached : ∀ e ∈ entries, ∀ p, g.scope.position? e = some p → p < g.cursor

/-- What was in flight for too long and may not be repeated. -/
def spentLate (g : Group) (now : Nat) : List Sent :=
  g.sent.filter fun f => decide (g.settings.messageTimeout ≤ now - f.sentAt) && g.isSpent f.delivery

/-- The group without what waits to be handed out again, which is parked. -/
def parkRetry (g : Group) : Group :=
  { g with retry := [], parked := g.parked ++ g.retry.map Delivery.again }

/-- The group without a record in flight, which is parked. -/
def parkSent (g : Group) (f : Sent) : Group :=
  { g.dropSent f.delivery.ackId with parked := g.parked ++ [f.delivery.again] }

/-- The group when it was asked for deliveries at these times. -/
def polledAt (entries : List Entry) (g : Group) (times : List Nat) : Group :=
  times.foldl (fun g now => (g.poll entries now).2) g

/-- What the group hands out when it is asked for deliveries at these times. -/
def answers (entries : List Entry) : Group → List Nat → List (Option Delivery)
  | _, [] => []
  | g, now :: times => (g.poll entries now).1 :: answers entries (g.poll entries now).2 times

variable {g g' : Group} {entries : List Entry} {now : Nat}

/-! ## Looking for a delivery -/

theorem expired?_eq_none_iff :
    g.expired? now = none ↔ ∀ f ∈ g.sent, now - f.sentAt < g.settings.messageTimeout := by
  rw [← Option.not_isSome_iff_eq_none, expired?, List.isSome_minOn?_iff]
  simp

theorem expired?_eq_some {f : Sent} (h : g.expired? now = some f) :
    f ∈ g.sent ∧ g.settings.messageTimeout ≤ now - f.sentAt ∧
      ∀ f' ∈ g.sent, g.settings.messageTimeout ≤ now - f'.sentAt →
        f.delivery.position ≤ f'.delivery.position := by
  have hmem := List.minOn?_mem h
  simp only [List.mem_filter, decide_eq_true_eq] at hmem
  refine ⟨hmem.1, hmem.2, fun f' hf' hlate => ?_⟩
  apply le_of_minOn?_eq_some h
  simp [hf', hlate]

theorem next?_eq_none_iff : g.next? entries = none ↔
    ∀ e ∈ entries, ∀ p, g.scope.position? e = some p → p < g.cursor := by
  rw [next?, List.findSome?_eq_none_iff]
  apply forall_congr'
  intro e
  apply forall_congr'
  intro he
  cases hp : g.scope.position? e <;> simp

theorem poll_of_nothingDue (h : g.NothingDue entries now) : g.poll entries now = (none, g) := by
  obtain ⟨scope, settings, cursor, sent, retry, parked, acknowledged, skipped⟩ := g
  obtain rfl : retry = [] := h.retry
  simp only [poll, pollRetry, List.takeWhile_nil, List.dropWhile_nil, List.map_nil, List.append_nil]
  rw [expired?_eq_none_iff.2 h.inTime]
  simp only [pollNew, next?_eq_none_iff.2 h.reached]

/-- What a poll has done that hands out nothing. -/
theorem poll_eq_none (h : (g.poll entries now).1 = none) :
    (∀ d ∈ g.retry, g.isSpent d) ∧
    ((g.poll entries now).2 = g.parkRetry ∧ g.parkRetry.NothingDue entries now ∨
      ∃ f, g.expired? now = some f ∧ g.isSpent f.delivery ∧
        (g.poll entries now).2 = g.parkRetry.parkSent f) := by
  have hsplit : g.retry.takeWhile g.isSpent ++ g.retry.dropWhile g.isSpent = g.retry :=
    List.takeWhile_append_dropWhile
  unfold poll pollRetry at *
  cases hd : g.retry.dropWhile g.isSpent with
  | cons d rest => simp [hd] at h
  | nil =>
      rw [hd, List.append_nil] at hsplit
      have hretry : { g with
          parked := g.parked ++ g.retry.map Delivery.again, retry := [] } = g.parkRetry := rfl
      simp only [hd, hsplit, hretry] at h ⊢
      have hall : ∀ d ∈ g.retry, g.isSpent d := by
        rw [← hsplit]
        exact List.all_eq_true.1 List.all_takeWhile
      refine ⟨hall, ?_⟩
      have hexpired : g.parkRetry.expired? now = g.expired? now := rfl
      rw [hexpired] at h ⊢
      cases hx : g.expired? now with
      | some f =>
          have hspent : g.parkRetry.isSpent f.delivery = g.isSpent f.delivery := rfl
          simp only [hx, pollExpired, hspent] at h ⊢
          cases hs : g.isSpent f.delivery with
          | true => exact .inr ⟨f, rfl, hs, rfl⟩
          | false => simp [hs] at h
      | none =>
          simp only [hx, pollNew] at h ⊢
          cases hn : g.parkRetry.next? entries with
          | some a => simp [hn] at h
          | none => exact .inl ⟨rfl, rfl, expired?_eq_none_iff.1 hx, next?_eq_none_iff.1 hn⟩

/-! ## Polls in a row -/

theorem length_spentLate_parkSent {f : Sent} (hf : g.expired? now = some f)
    (hs : g.isSpent f.delivery) :
    ((g.parkRetry.parkSent f).spentLate now).length < (g.spentLate now).length := by
  obtain ⟨hmem, hlate, -⟩ := expired?_eq_some hf
  have hleft : (g.parkRetry.parkSent f).spentLate now =
      (g.spentLate now).filter fun f' => f'.delivery.ackId ≠ f.delivery.ackId := by
    simp only [spentLate, parkSent, parkRetry, dropSent, isSpent, List.filter_filter, Bool.and_comm]
    rfl
  rw [hleft]
  apply List.length_filter_lt_length_iff_exists.2
  exact ⟨f, by simp [spentLate, hmem, hlate, hs], by simp⟩

theorem poll_cases (g : Group) (entries : List Entry) (now : Nat) :
    (∃ d, (g.poll entries now).1 = some d) ∨
    (g.poll entries now).2.NothingDue entries now ∨
    ((g.poll entries now).2.spentLate now).length < (g.spentLate now).length := by
  cases ha : (g.poll entries now).1 with
  | some d => exact .inl ⟨d, rfl⟩
  | none =>
      obtain ⟨-, ⟨hg, hn⟩ | ⟨f, hf, hs, hg⟩⟩ := poll_eq_none ha
      · rw [hg]
        exact .inr (.inl hn)
      · rw [hg]
        exact .inr (.inr (length_spentLate_parkSent hf hs))

theorem polledAt_of_nothingDue (h : g.NothingDue entries now) (n : Nat) :
    g.polledAt entries (List.replicate n now) = g := by
  induction n with
  | zero => rfl
  | succ n ih => rwa [List.replicate_succ, polledAt, List.foldl_cons, poll_of_nothingDue h]

/-- Each poll but the last one that hands out nothing though something is due has one record less to
park. -/
theorem exists_answer_or_nothingDue {n : Nat} (h : (g.spentLate now).length ≤ n) :
    (∃ d, some d ∈ g.answers entries (List.replicate (n + 1) now)) ∨
      (g.polledAt entries (List.replicate (n + 1) now)).NothingDue entries now := by
  induction n generalizing g with
  | zero =>
      rcases g.poll_cases entries now with ⟨d, hd⟩ | hn | hlt
      · exact .inl ⟨d, by simp [answers, hd]⟩
      · exact .inr hn
      · omega
  | succ n ih =>
      rw [List.replicate_succ, answers, polledAt, List.foldl_cons, ← polledAt]
      rcases g.poll_cases entries now with ⟨d, hd⟩ | hn | hlt
      · exact .inl ⟨d, by simp [hd]⟩
      · rw [polledAt_of_nothingDue hn]
        exact .inr hn
      · rcases ih (g := (g.poll entries now).2) (by omega) with ⟨d, hd⟩ | hn
        · exact .inl ⟨d, List.mem_cons_of_mem _ hd⟩
        · exact .inr hn

/-! ## The main result -/

/-- A group in which nothing is due hands out nothing and stays as it is. A poll that hands out
nothing leaves nothing due, whatever it has parked from the retry queue, unless it has parked a
record that was in flight for too long and may not be repeated, the lowest of those whose time is
over. What is due besides is then left to a later poll: of as many polls as there are such records
and one more, one hands something out, or nothing is due after them. -/
theorem only_parking_hides (g : Group) (entries : List Entry) (now : Nat) :
    (g.NothingDue entries now → g.poll entries now = (none, g)) ∧
    ((g.poll entries now).1 = none → (g.poll entries now).2.retry = [] ∧
      ((g.poll entries now).2 = g.parkRetry ∧ g.parkRetry.NothingDue entries now ∨
        ∃ f ∈ g.spentLate now, (g.poll entries now).2 = g.parkRetry.parkSent f ∧
          ∀ f' ∈ g.sent, g.settings.messageTimeout ≤ now - f'.sentAt →
            f.delivery.position ≤ f'.delivery.position)) ∧
    let times := List.replicate ((g.spentLate now).length + 1) now
    (∃ d, some d ∈ g.answers entries times) ∨ (g.polledAt entries times).NothingDue entries now := by
  refine ⟨poll_of_nothingDue, fun h => ?_, exists_answer_or_nothingDue (Nat.le_refl _)⟩
  obtain ⟨-, ⟨hg, hn⟩ | ⟨f, hf, hs, hg⟩⟩ := poll_eq_none h
  · rw [hg]
    exact ⟨rfl, .inl ⟨rfl, hn⟩⟩
  · obtain ⟨hmem, hlate, hlowest⟩ := expired?_eq_some hf
    rw [hg]
    exact ⟨rfl, .inr ⟨f, by simp [spentLate, hmem, hlate, hs], rfl, hlowest⟩⟩

end Group

namespace Server

/-- Two records are written, of which one is handed out and not answered in time. It may not be
repeated. -/
def lateRun : List Request :=
  [.createGroup "order-1" "readers" { messageTimeout := 100, maxRetryCount := 0 },
    .call (.append "order-1" .any [⟨"Placed", [], []⟩, ⟨"Paid", [], []⟩]),
    .pollMember ⟨"order-1", "readers", 0, false⟩, .elapse 100]

theorem only_parking_hides_lateRun :
    let s := (start 0).after lateRun
    ∃ g, s.group? "order-1" "readers" = some g ∧ (g.poll s.log.entries s.now).1 = none ∧
      (g.poll s.log.entries s.now).2.retry = [] ∧
      ackIds (g.poll s.log.entries s.now).2.parked = [0] ∧
      ∃ d, g.answers s.log.entries [s.now, s.now] = [none, some d] := by
  intro s
  refine ⟨_, rfl, rfl, ?_, rfl, _, rfl⟩
  exact ((Group.only_parking_hides _ s.log.entries s.now).2.1 rfl).1

/-- A poll may hand out nothing though the next record is due. -/
theorem parked_hides_next :
    let s := (start 0).after lateRun
    ∃ g, s.group? "order-1" "readers" = some g ∧ (g.poll s.log.entries s.now).1 = none ∧
      ¬ (g.poll s.log.entries s.now).2.NothingDue s.log.entries s.now := by
  intro s
  refine ⟨_, rfl, rfl, fun h => ?_⟩
  have hlt := h.reached _ (List.mem_cons_of_mem _ List.mem_cons_self) 1 rfl
  exact absurd hlt (by decide)

end Server

end EventSourcing
