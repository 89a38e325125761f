import EventSourcing.Proofs.Subscription.Follow

/-!
# Resuming a subscription

A consumer closes its subscription and opens another one after the progress of the first. What both
have emitted is what one subscription would have emitted: nothing twice, nothing left out
(`Follow.resumed_emits_rest`). But the progress of a subscription counts the records that wait in
its queue, and a closed subscription gives them to nobody, so that they are the ones that a consumer
loses who has not emptied the queue (`Follow.resumption_skips_queue`).
-/

namespace EventSourcing.Follow

variable {E : Type}

/-- Where a consumer goes on that has started at `initial`: after the progress, if there is any. -/
def resumePoint (w : Follow E) (initial : Option Nat) : Option Nat :=
  match w.subscription.progress with
  | some last => some (last + 1)
  | none => initial

/-- A new subscription to the same source, opened where the consumer goes on. -/
def resumed (w : Follow E) (source : Source) (initial : Option Nat) (bufferSize : Nat)
    (retry : Option RetrySettings) : Follow E :=
  { server := w.server
    subscription := .catchUp source (w.resumePoint initial) bufferSize retry }

/-- The run `v` with all that `w` has emitted put before, as if the consumer had received it. -/
def behind (w v : Follow E) : Follow E :=
  { v with
    emitted := w.emitted ++ v.emitted
    received := w.emitted.map (·.2) ++ v.received }

section Behind

variable [DomainEvent E] (w v : Follow E)

/-- What happens to a run does not depend on what was emitted before it. -/
theorem act_behind (move : Move) : (w.behind v).act move = w.behind (v.act move) := by
  cases move with
  | serve r => rfl
  | close => rfl
  | run =>
      simp only [act, behind]
      split
      · rfl
      · simp only [List.append_assoc]
  | receive =>
      simp only [act, behind]
      split
      · simp only [List.append_assoc]
      · rfl

theorem after_behind (moves : List Move) : (w.behind v).after moves = w.behind (v.after moves) := by
  induction moves generalizing v with
  | nil => rfl
  | cons move moves ih =>
      show ((w.behind v).act move).after moves = _
      rw [act_behind, ih]
      rfl

end Behind

namespace Faithful

variable [DomainEvent E] {stream : String} {initial : Option Nat} {position : Nat} {w : Follow E}

/-- Where a consumer goes on is where the loop has stopped. -/
theorem resumePoint_eq (h : w.Faithful stream initial position) :
    (w.resumePoint initial = initial ∧ position = 0) ∨ w.resumePoint initial = some position := by
  have hpos := h.position_eq
  unfold resumePoint Subscription.progress
  rcases h.start_eq with ⟨hstart, rfl⟩ | hstart <;> rw [hstart] at hpos
  · left
    rw [hpos]
    cases initial with
    | none => exact ⟨rfl, rfl⟩
    | some n => cases n <;> exact ⟨rfl, rfl⟩
  · cases position with
    | zero =>
        left
        rw [hpos]
        exact ⟨rfl, rfl⟩
    | succ n =>
        right
        rw [hpos]

/-- All up to the progress has been dealt with, but for what lies before the start. -/
theorem lt_position (h : w.Faithful stream initial position) {last p : Nat}
    (hlast : w.subscription.progress = some last) (hi : initial.getD 0 ≤ p) (hle : p ≤ last) :
    p < position := by
  have hr := h.resumePoint_eq
  have hpoint : w.resumePoint initial = some (last + 1) := by
    unfold resumePoint
    rw [hlast]
  rw [hpoint] at hr
  rcases hr with ⟨hinit, -⟩ | hinit
  · rw [← hinit, Option.getD_some] at hi
    omega
  · obtain rfl := Option.some.inj hinit
    omega

/-- A subscription that goes on behind a faithful one is faithful itself. -/
theorem resumed {source : Source} (h : w.Faithful source.toStream initial position)
    (bufferSize : Nat) (retry : Option RetrySettings) : Faithful source.toStream initial position
      (w.behind (w.resumed source initial bufferSize retry)) where
  coherent := h.coherent
  stream_eq := rfl
  group_eq := rfl
  settles_eq := rfl
  start_eq := h.resumePoint_eq
  position_eq := rfl
  le_size := h.le_size
  emitted := by
    rw [show (w.behind (w.resumed source initial bufferSize retry)).emitted = w.emitted from
      List.append_nil _]
    exact h.emitted
  received := by simp [behind, Follow.resumed, Subscription.catchUp, Subscription.start]
  connected := trivial

end Faithful

/-- A consumer closes its subscription in whatever state, and goes on after its progress. Then both
subscriptions together emit the records of their source in the order of their positions, and each
record from `initial` up to the progress of the second one that the consumer has to get was emitted
exactly once, unless its stream was deleted. What the first one has emitted was received or is left
in its queue. -/
theorem resumed_emits_rest [DomainEvent E] (now : Nat) (before : List Request) (source : Source)
    (hs : Text.hasPrefix tombstoneMark source.toStream = false) (initial : Option Nat)
    (bufferSize bufferSize' : Nat) (retry retry' : Option RetrySettings)
    (moves moves' : List Move) :
    let w : Follow E := Follow.after ⟨(Server.start now).after before,
      .catchUp source initial bufferSize retry, [], []⟩ (moves ++ [.close])
    let v := (w.resumed source initial bufferSize' retry').after moves'
    ((w.emitted ++ v.emitted).map (·.1)).Pairwise (· < ·) ∧
    w.received ++ w.subscription.queue = w.emitted.map (·.2) ∧
    v.received ++ v.subscription.queue = v.emitted.map (·.2) ∧
    ∀ last, v.subscription.progress = some last → ∀ e ∈ v.server.log.history, ∀ p record,
      (Scope.ofName source.toStream).position? e = some p → initial.getD 0 ≤ p → p ≤ last →
      Verdict.of E e.record = .deliver record → e.record.stream ∉ v.server.log.deleted →
      (w.emitted ++ v.emitted).filter (fun x => x.1 = p) = [(p, .first record e.record.id)] := by
  intro w v
  have hsteady := Scope.isSteady_ofName hs
  have hstart := faithful_start (E := E) (Server.coherent_after now before) source initial
    bufferSize retry
  obtain ⟨position, hw⟩ := hstart.after hsteady (moves ++ [.close])
  obtain ⟨position', hv⟩ := (hw.resumed bufferSize' retry').after hsteady moves'
  rw [after_behind] at hv
  refine ⟨hv.emitted.sorted, hw.received, ?_, ?_⟩
  · have hr : w.emitted.map (·.2) ++ v.received ++ v.subscription.queue =
        (w.emitted ++ v.emitted).map (·.2) := hv.received
    rw [List.map_append, List.append_assoc] at hr
    exact List.append_cancel_left hr
  · intro last hlast e he p record hp hi hle hd hdel
    have hlt : p < position' := hv.lt_position hlast hi hle
    exact hv.emitted.filter_eq (hv.emitted.complete e he p record hp hi hlt hd hdel)

/-- Two records are emitted, of which the consumer receives the first one. -/
def unreadRun : List Move :=
  [.serve (.call (.append "account-1" .any [⟨"AccountClosed", [0], []⟩, ⟨"AccountClosed", [1], []⟩])),
    .run, .run, .run, .run, .run, .receive]

/-- The new subscription connects and finds nothing. -/
def idleRun : List Move := [.run, .run]

theorem resumed_emits_rest_unreadRun :
    Text.hasPrefix tombstoneMark (Source.category "account").toStream = false ∧
    ∃ w v : Follow Domain.AccountEvent,
      w = after ⟨(Server.start 0).after [], .catchUp (.category "account") none 8 none, [], []⟩
        (unreadRun ++ [.close]) ∧
      v = (w.resumed (.category "account") none 8 none).after idleRun ∧
      v.subscription.progress = some 1 ∧
      ∀ e ∈ v.server.log.history, ∀ p record, (Scope.category "account").position? e = some p →
        p ≤ 1 → Verdict.of Domain.AccountEvent e.record = .deliver record →
        e.record.stream ∉ v.server.log.deleted →
        (w.emitted ++ v.emitted).filter (fun x => x.1 = p) = [(p, .first record e.record.id)] := by
  have hs : Text.hasPrefix tombstoneMark (Source.category "account").toStream = false := by decide
  have h := resumed_emits_rest (E := Domain.AccountEvent) 0 [] (.category "account") hs none 8 8
    none none unreadRun idleRun
  have hprogress : ((((⟨(Server.start 0).after [], .catchUp (.category "account") none 8 none, [],
      []⟩ : Follow Domain.AccountEvent).after (unreadRun ++ [.close])).resumed (.category "account")
      none 8 none).after idleRun).subscription.progress = some 1 := by decide +kernel
  refine ⟨hs, _, _, rfl, rfl, hprogress, fun e he p record hp hle => ?_⟩
  exact h.2.2.2 1 hprogress e he p record hp (Nat.zero_le p) hle

/-- What waits in the queue when the consumer closes is lost to it: it goes on after the second
record, though it has received the first one only. -/
theorem resumption_skips_queue :
    let w : Follow Domain.AccountEvent := after ⟨(Server.start 0).after [],
      .catchUp (.category "account") none 8 none, [], []⟩ (unreadRun ++ [.close])
    let v := (w.resumed (.category "account") none 8 none).after idleRun
    w.received.map (·.ackId) = [0] ∧ w.subscription.progress = some 1 ∧
    v.emitted.map (·.1) = [] ∧ v.subscription.wait.isSome ∧
    ∃ e ∈ v.server.log.history, (Scope.category "account").position? e = some 1 ∧
      (Verdict.of Domain.AccountEvent e.record).isHidden = false ∧
      e.record.stream ∉ v.server.log.deleted := by
  decide +kernel

end EventSourcing.Follow
