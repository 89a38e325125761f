import EventSourcing.Proofs.Subscription.Start

/-!
# History, then what is written

The backlog of a reader and its place in the live feed are taken at one instant, so that a reader
hands out what its scope held then and all that is written to it since, each record once and in
order, whoever writes in between (`Reading.no_gap`). Only an error ends that: a reader fails when
connections are dropped, and when it comes to the feed with more unread than the feed holds.
-/

namespace EventSourcing

/-! ## Epochs -/

namespace Server

/-- Only dropping all connections begins a new epoch. -/
theorem epoch_serve (s : Server) {r : Request} (h : r ≠ .disconnectAll) :
    (s.serve r).2.epoch = s.epoch := by
  have hlet (s : Server) : s.letIn.2.epoch = s.epoch := by
    unfold letIn
    split <;> rfl
  cases r with
  | disconnectAll => exact absurd rfl h
  | call c =>
      cases c with
      | append stream expected events =>
          simp only [serve, call, append]
          split <;> rfl
      | tombstone stream =>
          simp only [serve, call, tombstone]
          split <;> rfl
      | _ => rfl
  | createGroup stream group settings =>
      simp only [serve, createGroup]
      split <;> rfl
  | openReader stream start =>
      have h := hlet s
      simp only [serve, CatchUp.openAt]
      split <;> rename_i hl <;> rw [hl] at h <;> exact h
  | join stream group =>
      have h := hlet s
      simp only [serve, Member.connect]
      split <;> rename_i hl <;> rw [hl] at h
      · exact h
      · split <;> exact h
  | pollMember m =>
      simp only [serve, Member.poll]
      repeat' split
      all_goals rfl
  | ack m ids =>
      simp only [serve, Member.ack]
      repeat' split
      all_goals rfl
  | nack m ids action =>
      simp only [serve, Member.nack]
      repeat' split
      all_goals rfl
  | _ => rfl

end Server

/-! ## Answers of a reader -/

namespace CatchUp

variable {s : Server} {c c' : CatchUp} {p : Poll}

/-- What a reader is told that has fallen behind the feed. -/
def lagged (unread : Nat) : LogError :=
  .subscriptionDropped ("reader lagged by " ++ toString (unread - feedCapacity) ++ " records")

/-- A connected reader answers with the first of what is before it, unless its backlog is used up
and the feed has lost a part of what it has not read. -/
theorem poll_answer (hclosed : s.closed = false) (hepoch : s.epoch = c.epoch) :
    (c.poll s).1 =
      if c.backlog = [] ∧ feedCapacity < s.log.history.length - c.next then
        .failed (lagged (s.log.history.length - c.next))
      else (c.upcoming s.log).head?.elim .pending .delivery := by
  have hsize : s.log.written.size = s.log.history.length := Array.length_toList.symm
  have hcheck : s.checkEpoch c.epoch = .ok () := if_pos hepoch
  unfold poll
  simp only [hcheck]
  cases hb : c.backlog with
  | cons d ds =>
      rw [if_neg fun h => absurd h.1 (List.cons_ne_nil _ _), upcoming, hb]
      rfl
  | nil =>
      have hup : c.upcoming s.log = c.scope.deliveries (s.log.history.drop c.next) := by
        rw [upcoming, hb, List.nil_append]
      rw [← Scope.deliveries_dropWhile] at hup
      simp only [true_and, pollFeed, toList_unread, drop_takeWhile_length]
      rw [hsize]
      split
      · rfl
      · rw [hup]
        cases hrest : (s.log.history.drop c.next).dropWhile
            fun e => (c.scope.position? e).isNone with
        | nil => simp only [hclosed, Bool.false_eq_true, if_false, Scope.deliveries,
            List.filterMap_nil, List.head?_nil, Option.elim_none]
        | cons e rest =>
            have he := List.head?_dropWhile_not (fun e => (c.scope.position? e).isNone)
              (s.log.history.drop c.next)
            rw [hrest] at he
            obtain ⟨q, hq⟩ := Option.isSome_iff_exists.1 (Option.isNone_eq_false_iff.1 he)
            simp only [Scope.deliveries_cons_some _ hq, hq, Option.getD_some, List.head?_cons,
              Option.elim_some]

theorem poll_lost (h : s.epoch ≠ c.epoch) :
    (c.poll s).1 = .failed (.subscriptionDropped "connection reset") := by
  have hcheck : s.checkEpoch c.epoch = .error (.subscriptionDropped "connection reset") := if_neg h
  unfold poll
  simp only [hcheck]

theorem poll_head (hclosed : s.closed = false) (h : c.poll s = (p, c'))
    (hp : ∀ e, p ≠ .failed e) : p = (c.upcoming s.log).head?.elim .pending .delivery := by
  have hanswer := congrArg Prod.fst h
  by_cases hepoch : s.epoch = c.epoch
  · rw [poll_answer hclosed hepoch] at hanswer
    split at hanswer
    · exact absurd hanswer.symm (hp _)
    · exact hanswer.symm
  · rw [poll_lost hepoch] at hanswer
    exact absurd hanswer.symm (hp _)

theorem poll_backlog (h : c.poll s = (p, c')) (hp : ∀ e, p ≠ .failed e) :
    c'.backlog = c.backlog.tail := by
  unfold poll at h
  split at h
  · obtain ⟨rfl, -⟩ := Prod.mk.inj h
    exact absurd rfl (hp _)
  · split at h
    · rename_i d rest hb
      obtain ⟨-, rfl⟩ := Prod.mk.inj h
      rw [hb]
      rfl
    · rename_i hb
      unfold pollFeed at h
      simp only at h
      split at h
      · obtain ⟨rfl, -⟩ := Prod.mk.inj h
        exact absurd rfl (hp _)
      · split at h <;> obtain ⟨-, rfl⟩ := Prod.mk.inj h <;> simp [hb]

theorem poll_epoch (s : Server) (c : CatchUp) : (c.poll s).2.epoch = c.epoch := by
  unfold poll pollFeed
  simp only
  repeat' split
  all_goals rfl

end CatchUp

/-! ## Runs of a reader -/

namespace Reading

/-- The answers to the polls of a run. -/
def answers (w : Reading) : List Move → List Poll
  | [] => []
  | .serve r :: moves => (w.act (.serve r)).answers moves
  | .poll :: moves => (w.reader.poll w.server).1 :: (w.act .poll).answers moves

/-- The reader, which found `old` when it was opened on the log, has handed out the first of what is
due to it, and has the others before it. -/
structure Seamless (log : Log) (scope : Scope) (old : List Delivery) (w : Reading) : Prop where
  closed_eq : w.server.closed = false
  before : log.Before w.server.log
  scope_eq : w.reader.scope = scope
  next_le : w.reader.next ≤ w.server.log.history.length
  backlog_eq : w.reader.backlog = old.drop w.delivered.length
  due_eq : w.delivered ++ w.reader.upcoming w.server.log =
    old ++ scope.deliveries (w.server.log.history.drop log.history.length)

variable {log : Log} {scope : Scope} {old : List Delivery} {w : Reading}

theorem act_poll (w : Reading) :
    (w.act .poll).server = w.server ∧ (w.act .poll).reader = (w.reader.poll w.server).2 := by
  cases hp : w.reader.poll w.server with
  | mk p c => cases p <;> simp only [act, hp, and_self]

namespace Seamless

theorem serve (h : w.Seamless log scope old) (r : Request) :
    (w.act (.serve r)).Seamless log scope old := by
  have hb := w.server.serve_before r
  refine ⟨(w.server.closed_serve r).trans h.closed_eq, h.before.trans hb, h.scope_eq,
    h.next_le.trans hb.history.length_le, h.backlog_eq, ?_⟩
  show w.delivered ++ w.reader.upcoming (w.server.serve r).2.log =
    old ++ scope.deliveries ((w.server.serve r).2.log.history.drop log.history.length)
  obtain ⟨news, hn⟩ := hb.history
  rw [CatchUp.upcoming_grow hn.symm h.next_le, ← List.append_assoc, h.due_eq, h.scope_eq, ← hn,
    List.drop_append_of_le_length h.before.history.length_le, Scope.deliveries_append,
    List.append_assoc]

theorem poll (h : w.Seamless log scope old) (hp : ∀ e, (w.reader.poll w.server).1 ≠ .failed e) :
    (w.act .poll).Seamless log scope old := by
  cases hpoll : w.reader.poll w.server with
  | mk p c =>
      rw [hpoll] at hp
      have hhead := CatchUp.poll_head h.closed_eq hpoll hp
      have hback := CatchUp.poll_backlog hpoll hp
      obtain ⟨ds, hconsumes, hds⟩ := CatchUp.poll_consumes hpoll hp
      have hact : w.act .poll = ⟨w.server, c, w.delivered ++ ds⟩ := by
        simp only [act, hpoll]
        rcases hds with ⟨d, rfl, rfl⟩ | ⟨hnone, rfl⟩
        · rfl
        · cases p with
          | delivery d => exact absurd rfl (hnone d)
          | _ => simp only [List.append_nil]
      rw [hact]
      refine ⟨h.closed_eq, h.before, hconsumes.scope.trans h.scope_eq,
        hconsumes.next_le h.next_le, ?_, ?_⟩
      · show c.backlog = old.drop (w.delivered ++ ds).length
        rw [hback, h.backlog_eq, List.tail_drop, List.length_append]
        rcases hds with ⟨d, -, rfl⟩ | ⟨hnone, rfl⟩
        · rfl
        -- A reader that hands out nothing has nothing before it, and no backlog either.
        · cases hup : w.reader.upcoming w.server.log with
          | cons d rest =>
              rw [hup] at hhead
              exact absurd hhead (hnone d)
          | nil =>
              have hnil := (List.append_eq_nil_iff.1 hup).1
              rw [h.backlog_eq, List.drop_eq_nil_iff] at hnil
              rw [List.drop_eq_nil_of_le (Nat.le_succ_of_le hnil)]
              exact (List.drop_eq_nil_of_le hnil).symm
      · show w.delivered ++ ds ++ c.upcoming w.server.log = _
        rw [List.append_assoc, ← hconsumes.upcoming]
        exact h.due_eq

/-- Up to the first error, nothing is left out and nothing comes twice. -/
theorem after (h : w.Seamless log scope old) {moves : List Move}
    (hok : ∀ e, .failed e ∉ w.answers moves) : (w.after moves).Seamless log scope old := by
  induction moves generalizing w with
  | nil => exact h
  | cons move moves ih =>
      cases move with
      | serve r => exact ih (h.serve r) hok
      | poll =>
          simp only [answers, List.mem_cons, not_or] at hok
          exact ih (h.poll fun e he => (hok e).1 he.symm) fun e => (hok e).2

end Seamless

theorem after_becomes (w : Reading) (moves : List Move) :
    w.server.Becomes (w.after moves).server := by
  induction moves generalizing w with
  | nil => exact .refl _
  | cons move moves ih =>
      refine Server.Becomes.trans ?_ (ih (w.act move))
      cases move with
      | serve r => exact .serve w.server r
      | poll =>
          rw [w.act_poll.1]
          exact .refl _

/-! ### Lost connections -/

theorem act_epoch (w : Reading) (move : Move) : (w.act move).reader.epoch = w.reader.epoch := by
  cases move with
  | serve r => rfl
  | poll =>
      rw [w.act_poll.2]
      exact CatchUp.poll_epoch ..

theorem act_server (w : Reading) {move : Move} (h : move ≠ .serve .disconnectAll) :
    (w.act move).server.epoch = w.server.epoch := by
  cases move with
  | serve r => exact w.server.epoch_serve fun hr => h (congrArg Move.serve hr)
  | poll => rw [w.act_poll.1]

theorem after_epoch (w : Reading) (moves : List Move) :
    (w.after moves).reader.epoch = w.reader.epoch := by
  induction moves generalizing w with
  | nil => rfl
  | cons move moves ih => exact (ih _).trans (w.act_epoch move)

theorem epoch_after_eq {moves : List Move} (h : .serve .disconnectAll ∉ moves) :
    (w.after moves).server.epoch = w.server.epoch := by
  induction moves generalizing w with
  | nil => rfl
  | cons move moves ih =>
      rw [List.mem_cons, not_or] at h
      exact (ih h.2).trans (w.act_server fun hm => h.1 hm.symm)

theorem le_epoch_after (w : Reading) (moves : List Move) :
    w.server.epoch ≤ (w.after moves).server.epoch := by
  induction moves generalizing w with
  | nil => exact Nat.le_refl _
  | cons move moves ih =>
      refine Nat.le_trans ?_ (ih _)
      by_cases hm : move = .serve .disconnectAll
      · rw [hm]
        exact Nat.le_succ _
      · exact Nat.le_of_eq (w.act_server hm).symm

theorem lt_epoch_after {moves : List Move} (h : .serve .disconnectAll ∈ moves) :
    w.server.epoch < (w.after moves).server.epoch := by
  obtain ⟨before, later, rfl⟩ := List.append_of_mem h
  have hafter : w.after (before ++ .serve .disconnectAll :: later) =
      ((w.after before).act (.serve .disconnectAll)).after later := by
    rw [after, List.foldl_append, List.foldl_cons]
    rfl
  rw [hafter]
  calc w.server.epoch
    _ ≤ (w.after before).server.epoch := w.le_epoch_after before
    _ < ((w.after before).act (.serve .disconnectAll)).server.epoch := Nat.lt_succ_self _
    _ ≤ _ := le_epoch_after _ later

/-! ### Connections -/

theorem deliveries_commits {log : Log} (h : log.Coherent) (scope : Scope) :
    (scope.deliveries log.history).Pairwise fun d d' => d.record.commit < d'.record.commit := by
  have hall : Scope.all.IsSteady := trivial
  refine List.pairwise_filterMap.2 ((h.ordered hall).imp ?_)
  intro e e' ho d hd d' hd'
  obtain ⟨p, -, rfl⟩ := Option.map_eq_some_iff.1 hd
  obtain ⟨p', -, rfl⟩ := Option.map_eq_some_iff.1 hd'
  exact ho _ rfl _ rfl

theorem Seamless.opened {s s' : Server} {stream : String} {start : Option Nat} {reader : CatchUp}
    (hclosed : s.closed = false) (h : CatchUp.openAt s stream start = (.ok reader, s')) :
    s' = s ∧ reader.epoch = s.epoch ∧ (⟨s', reader, []⟩ : Reading).Seamless s.log
      (.ofName stream) (((Scope.ofName stream).deliveries s.log.entries).filter
        fun d => start.getD 0 ≤ d.position) := by
  obtain ⟨-, hscope, hnext, hup⟩ := CatchUp.openAt_eq_ok h
  rw [CatchUp.openAt_eq] at h
  split at h
  · obtain ⟨hreader, rfl⟩ := Prod.mk.inj h
    obtain rfl := Except.ok.inj hreader
    refine ⟨rfl, rfl, hclosed, .refl, rfl, Nat.le_of_eq hnext, CatchUp.backlog_eq .., ?_⟩
    rw [List.drop_length]
    exact hup.trans (List.append_nil _).symm
  · cases (Prod.mk.inj h).1

/-- What a reader that was opened on the log is due is part of all that was ever written. -/
theorem due_sublist {log log' : Log} (hl : log.Coherent) (hb : log.Before log') (scope : Scope)
    (P : Delivery → Bool) :
    ((scope.deliveries log.entries).filter P ++
      scope.deliveries (log'.history.drop log.history.length)).Sublist
        (scope.deliveries log'.history) := by
  rw [hb.eq_append, List.drop_left, Scope.deliveries_append]
  exact (List.filter_sublist.trans (hl.entries_sublist.filterMap _)).append (List.Sublist.refl _)

/-- A reader hands out what its scope held from its start on when it was opened, and then all that
is written to its scope, each record once, in the order of the log. After any moves by anybody, a
poll gives the next of these, or fails: it does so once connections have been dropped, or if the
reader comes to the feed and the feed has lost a part of what is unread, and in no other case. -/
theorem no_gap (now : Nat) (requests : List Request) (stream : String) (start : Option Nat)
    (reader : CatchUp) (s' : Server)
    (h : CatchUp.openAt ((Server.start now).after requests) stream start = (.ok reader, s'))
    (moves : List Move) :
    let s := (Server.start now).after requests
    let scope := Scope.ofName stream
    let opened : Reading := ⟨s', reader, []⟩
    let w := opened.after moves
    let old := (scope.deliveries s.log.entries).filter fun d => start.getD 0 ≤ d.position
    let due := old ++ scope.deliveries (w.server.log.history.drop s.log.history.length)
    let unread := w.server.log.history.length - w.reader.next
    let answer := (w.reader.poll w.server).1
    (due.Pairwise fun d d' => d.record.commit < d'.record.commit) ∧
    ((∀ e, .failed e ∉ opened.answers moves) →
      w.delivered <+: due ∧ w.reader.backlog = old.drop w.delivered.length ∧
      ((∀ e, answer ≠ .failed e) →
        answer = (due.drop w.delivered.length).head?.elim .pending .delivery)) ∧
    (.serve .disconnectAll ∈ moves →
      answer = .failed (.subscriptionDropped "connection reset")) ∧
    (.serve .disconnectAll ∉ moves → w.reader.backlog = [] → feedCapacity < unread →
      answer = .failed (CatchUp.lagged unread)) ∧
    ∀ e, answer = .failed e →
      .serve .disconnectAll ∈ moves ∨ w.reader.backlog = [] ∧ feedCapacity < unread := by
  intro s scope opened w old due unread answer
  have hl : s.log.Coherent := Server.coherent_after now requests
  have hclosed : s.closed = false := Server.Becomes.closed_eq ⟨requests, rfl⟩
  obtain ⟨rfl, hepoch, hopened⟩ := Seamless.opened hclosed h
  have hreader : w.reader.epoch = s.epoch := (opened.after_epoch moves).trans hepoch
  have hbecomes : s.Becomes w.server := opened.after_becomes moves
  have hopen : w.server.closed = false := hbecomes.closed_eq.trans hclosed
  have hkept (hk : .serve .disconnectAll ∉ moves) : answer = _ :=
    CatchUp.poll_answer hopen ((epoch_after_eq (w := opened) hk).trans hreader.symm)
  refine ⟨?_, fun hok => ?_, fun hdrop => ?_, fun hk hback hunread => ?_, fun e he => ?_⟩
  · have hb := hbecomes.before
    exact (deliveries_commits (hl.before hb) scope).sublist (due_sublist hl hb scope _)
  · have hw : w.Seamless s.log scope old := hopened.after hok
    have hall : w.delivered ++ w.reader.upcoming w.server.log = due := hw.due_eq
    refine ⟨⟨_, hall⟩, hw.backlog_eq, fun hanswer => ?_⟩
    rw [← hall, List.drop_left]
    exact CatchUp.poll_head hopen rfl hanswer
  · have hlt : s.epoch < w.server.epoch := lt_epoch_after (w := opened) hdrop
    exact CatchUp.poll_lost (by omega)
  · rw [hkept hk]
    exact if_pos ⟨hback, hunread⟩
  · by_cases hk : .serve .disconnectAll ∈ moves
    · exact .inl hk
    · refine .inr (Decidable.not_not.1 fun hno => ?_)
      rw [hkept hk, if_neg hno] at he
      cases hhead : (w.reader.upcoming w.server.log).head? <;> rw [hhead] at he <;> cases he

/-- A reader of a category is opened at position 1, and others write to the category and to another
one before it has read what it found. -/
def seamRun : List Move :=
  let write (stream : String) : Move :=
    .serve (.call (.append stream .any [⟨"Placed", [], []⟩, ⟨"Paid", [], []⟩]))
  [write "account-1", .poll, write "order-2", .serve (.call (.tombstone "order-1")), .poll, .poll]

theorem no_gap_seamRun :
    let s := (Server.start 0).after
      [.call (.append "order-1" .any [⟨"Placed", [], []⟩, ⟨"Paid", [], []⟩])]
    ∃ reader, CatchUp.openAt s "$ce-order" (some 1) = (.ok reader, s) ∧
      let opened : Reading := ⟨s, reader, []⟩
      (∀ e, .failed e ∉ opened.answers seamRun) ∧
      ∃ due, (opened.after seamRun).delivered <+: due ∧
        (opened.after seamRun).delivered.map (·.position) = [1, 2, 3] ∧
        due.map (fun d => (d.position, d.record.stream)) =
          [(1, "order-1"), (2, "order-2"), (3, "order-2"), (4, "$$order-1")] := by
  intro s
  have hopen := CatchUp.openAt_eq s "$ce-order" (some 1)
  refine ⟨_, hopen, ?_⟩
  intro opened
  have hall : ((opened.answers seamRun).all fun p =>
      match p with
      | .failed _ => false
      | _ => true) = true := by decide +kernel
  have hok : ∀ e, .failed e ∉ opened.answers seamRun := fun e he => by
    cases List.all_eq_true.1 hall _ he
  obtain ⟨-, hdelivered, -⟩ := no_gap 0 _ "$ce-order" (some 1) _ _ hopen seamRun
  exact ⟨hok, _, (hdelivered hok).1, by decide +kernel, by decide +kernel⟩

end Reading

end EventSourcing
