import EventSourcing.Proofs.Subscription.Filtering

/-!
# Where a reader starts

A reader that is opened at a position gets from there on what the log holds. What is written later
reaches it wherever it stands, so that a reader that was opened behind the end of its scope also
gets what is written before its start (`Follow.start_bounds_history`, `Follow.start_overrun`).
-/

namespace EventSourcing

variable {E : Type}

/-! ## What is written later -/

/-- Whether `P` holds of all deliveries that are written to the scope from now on. -/
def Log.Admits (log : Log) (scope : Scope) (P : Delivery → Prop) : Prop :=
  ∀ log', log.Before log' → ∀ d ∈ scope.deliveries (log'.history.drop log.history.length), P d

/-- Whether a delivery lies behind all that the log holds. -/
def Log.Later (log : Log) (scope : Scope) (d : Delivery) : Prop :=
  log.nextCommit ≤ d.record.commit ∧ (scope.IsSteady → log.size scope ≤ d.position)

namespace Log

variable {log log' : Log} {scope : Scope} {P : Delivery → Prop}

theorem Admits.before (h : log.Admits scope P) (hb : log.Before log') : log'.Admits scope P := by
  intro log'' hb' d hd
  have hle : log.history.length ≤ log'.history.length := hb.history.length_le
  have hsub := List.drop_sublist_drop_left log''.history hle
  exact h log'' (hb.trans hb') d ((hsub.filterMap _).subset hd)

theorem Before.eq_append (h : log.Before log') :
    log'.history = log.history ++ log'.history.drop log.history.length := by
  obtain ⟨news, hn⟩ := h.history
  rw [← hn, List.drop_left]

theorem Coherent.later (h : log.Coherent) (hb : log.Before log') {e : Entry}
    (he : e ∈ log'.history.drop log.history.length) {p : Nat} (hp : scope.position? e = some p) :
    log.Later scope (.first p e.record) := by
  have h' : log'.Coherent := h.before hb
  have hall : Scope.all.IsSteady := trivial
  constructor
  · rw [h.nextCommit_eq]
    exact h.size_le h'.toNumbered hall hb.eq_append he rfl
  · intro hs
    exact h.size_le h'.toNumbered hs hb.eq_append he hp

theorem Coherent.admits_later (h : log.Coherent) (scope : Scope) :
    log.Admits scope (log.Later scope) := by
  intro log' hb d hd
  obtain ⟨e, he, p, hp, rfl⟩ := scope.mem_deliveries.1 hd
  exact h.later hb he hp

/-- What stands behind all that a log holds was written after it. -/
theorem Coherent.later_of_size_le (h : log.Coherent) (hb : log.Before log') (hs : scope.IsSteady)
    {e : Entry} (he : e ∈ log'.history) {p : Nat} (hp : scope.position? e = some p)
    (hle : log.size scope ≤ p) : log.Later scope (.first p e.record) := by
  rw [hb.eq_append, List.mem_append] at he
  rcases he with he | he
  · exact absurd (h.lt_size hs he hp) (Nat.not_lt.2 hle)
  · exact h.later hb he hp

end Log

/-! ## Readers -/

namespace CatchUp

variable {s : Server} {c c' : CatchUp} {log log' : Log} {P : Delivery → Prop}

/-- `P` holds of all that the reader will ever hand out. -/
structure Keeps (P : Delivery → Prop) (log : Log) (c : CatchUp) : Prop where
  next_le : c.next ≤ log.history.length
  upcoming : ∀ d ∈ c.upcoming log, P d
  admits : log.Admits c.scope P

theorem Keeps.before (h : c.Keeps P log) (hb : log.Before log') : c.Keeps P log' where
  next_le := h.next_le.trans hb.history.length_le
  upcoming d hd := by
    rw [upcoming_grow hb.eq_append h.next_le, List.mem_append] at hd
    rcases hd with hd | hd
    · exact h.upcoming d hd
    · exact h.admits log' hb d hd
  admits := h.admits.before hb

/-- A reader that fails has lost its connection, or the oldest of what it has not read. -/
theorem poll_failed {e : LogError} (h : c.poll s = (.failed e, c')) :
    c'.scope = c.scope ∧ c'.backlog = c.backlog ∧ c.next ≤ c'.next ∧
      (c.next ≤ s.log.history.length → c'.next ≤ s.log.history.length) := by
  have hsize : s.log.history.length = s.log.written.size := Array.length_toList
  unfold poll at h
  split at h
  · obtain ⟨-, rfl⟩ := Prod.mk.inj h
    exact ⟨rfl, rfl, Nat.le_refl _, id⟩
  · split at h
    · cases (Prod.mk.inj h).1
    · unfold pollFeed at h
      simp only at h
      split at h
      · obtain ⟨-, rfl⟩ := Prod.mk.inj h
        exact ⟨rfl, rfl, Nat.le_add_right _ _, fun hle => by simp only; omega⟩
      · split at h
        · have hp := (Prod.mk.inj h).1
          split at hp <;> cases hp
        · cases (Prod.mk.inj h).1

theorem Keeps.poll (h : c.Keeps P s.log) : (c.poll s).2.scope = c.scope ∧
    (c.poll s).2.Keeps P s.log ∧ ∀ d, (c.poll s).1 = .delivery d → P d := by
  cases hp : c.poll s with
  | mk p c' =>
      by_cases hf : ∃ e, p = .failed e
      -- A reader that fails goes past what it has lost, and hands out nothing.
      · obtain ⟨e, rfl⟩ := hf
        obtain ⟨hscope, hback, hnext, hle⟩ := poll_failed hp
        refine ⟨hscope, ⟨hle h.next_le, fun d hd => h.upcoming d ?_, hscope ▸ h.admits⟩,
          fun d hd => by cases hd⟩
        rw [CatchUp.upcoming, hscope, hback, List.mem_append] at hd
        rw [CatchUp.upcoming, List.mem_append]
        exact hd.imp_right fun hd =>
          ((List.drop_sublist_drop_left _ hnext).filterMap _).subset hd
      · obtain ⟨ds, hc, hds⟩ := poll_consumes hp fun e he => hf ⟨e, he⟩
        have hall : ∀ d ∈ ds ++ c'.upcoming s.log, P d := hc.upcoming ▸ h.upcoming
        refine ⟨hc.scope, ⟨hc.next_le h.next_le, fun d hd => ?_, hc.scope ▸ h.admits⟩,
          fun d hd => ?_⟩
        · exact hall d (List.mem_append_right _ hd)
        · rcases hds with ⟨d', hp', rfl⟩ | ⟨hn, -⟩
          · obtain rfl := Poll.delivery.inj (hd.symm.trans hp')
            exact hall d (List.mem_append_left _ (List.mem_singleton_self d))
          · exact absurd hd (hn d)

/-- What a new reader hands out is what it finds from its start on, and what is written later. -/
theorem openAt_keeps {stream : String} {start : Option Nat} {s' : Server} (hl : s.log.Coherent)
    (h : openAt s stream start = (.ok c, s')) (hlive : s.log.Admits (.ofName stream) P)
    (hback : ∀ e ∈ s.log.history, ∀ p, (Scope.ofName stream).position? e = some p →
      start.getD 0 ≤ p → P (.first p e.record)) :
    s'.log = s.log ∧ c.scope = .ofName stream ∧ c.Keeps P s.log := by
  obtain ⟨hlog, hscope, hnext, hup⟩ := openAt_eq_ok h
  refine ⟨hlog, hscope, Nat.le_of_eq hnext, fun d hd => ?_, hscope ▸ hlive⟩
  rw [hup, hscope, List.mem_filter] at hd
  obtain ⟨e, he, p, hp, rfl⟩ := (Scope.ofName stream).mem_deliveries.1 hd.1
  exact hback e (hl.entries_sublist.subset he) p hp (of_decide_eq_true hd.2)

end CatchUp

/-! ## Runs of a reader -/

/-- A reader on a server, with all that it has handed out. -/
structure Reading where
  server : Server
  reader : CatchUp
  delivered : List Delivery := []

inductive Reading.Move
  | serve (r : Request)
  | poll

namespace Reading

def act (w : Reading) : Move → Reading
  | .serve r => { w with server := (w.server.serve r).2 }
  | .poll =>
    match w.reader.poll w.server with
    | (.delivery d, c) => { w with reader := c, delivered := w.delivered ++ [d] }
    | (_, c) => { w with reader := c }

def after (w : Reading) (moves : List Move) : Reading := moves.foldl act w

variable {w : Reading} {P : Delivery → Prop}

theorem act_keeps (hr : w.reader.Keeps P w.server.log) (hd : ∀ d ∈ w.delivered, P d) (move : Move) :
    (w.act move).reader.Keeps P (w.act move).server.log ∧ ∀ d ∈ (w.act move).delivered, P d := by
  cases move with
  | serve r => exact ⟨hr.before (w.server.serve_before r), hd⟩
  | poll =>
      obtain ⟨-, hc, hnew⟩ := hr.poll
      cases hp : w.reader.poll w.server with
      | mk p c =>
          rw [hp] at hc hnew
          cases p with
          | delivery d =>
              simp only [act, hp]
              refine ⟨hc, fun d' hd' => ?_⟩
              rcases List.mem_append.1 hd' with hd' | hd'
              · exact hd d' hd'
              · rw [List.mem_singleton.1 hd']
                exact hnew d rfl
          | _ =>
              simp only [act, hp]
              exact ⟨hc, hd⟩

theorem after_keeps (hr : w.reader.Keeps P w.server.log) (hd : ∀ d ∈ w.delivered, P d)
    (moves : List Move) : ∀ d ∈ (w.after moves).delivered, P d := by
  induction moves generalizing w with
  | nil => exact hd
  | cons move moves ih =>
      obtain ⟨hr, hd⟩ := act_keeps hr hd move
      exact ih hr hd

end Reading

/-! ## Subscriptions -/

theorem Connection.openOn_log (s : Server) (stream : String) (group : Option String)
    (start : Option Nat) : (openOn s stream group start).2.log = s.log := by
  cases group with
  | none => exact s.openAt_log stream start
  | some group => exact s.connect_log stream group

/-- What a subscription that goes on from `Q` positions keeps to: `P` holds of all that is written
later and of all that it finds when it connects again. -/
structure Log.Rule (log : Log) (scope : Scope) (P : Delivery → Prop) (Q : Nat → Prop) : Prop where
  admits : log.Admits scope P
  found : ∀ log', log.Before log' → ∀ q, Q q → ∀ e ∈ log'.history, ∀ p,
    scope.position? e = some p → q ≤ p → P (.first p e.record)
  passed : ∀ d, P d → Q (d.position + 1)

/-- Whether a record with its position is told as a delivery of which `P` holds. -/
def Emission.IsOf [DomainEvent E] (P : Delivery → Prop) (x : Nat × Emission E) : Prop :=
  ∃ d, P d ∧ d.position = x.1 ∧ Verdict.of E d.record = .deliver x.2.record

theorem Subscription.Stepped.log_eq [DomainEvent E] {s s' : Subscription E}
    {server server' : Server} (h : Stepped server s s' server') : server'.log = server.log := by
  cases h with
  | connected hplace hc | refused hplace hc =>
      have hlog := Connection.openOn_log server s.stream s.group s.loop.start
      rwa [show Connection.openOn server s.stream s.group s.loop.start = _ from hc] at hlog
  | @polled c r hplace hc hask =>
      have hpoll : r = c.poll server := hask.elim id id
      rw [polled_client, hpoll]
      cases c with
      | catchUp reader => rfl
      | member m => exact server.poll_log m
  | @settled position id m r client' hplace hm hack =>
      have hlog := server.ack_log m [id]
      rwa [show m.ack server [id] = _ from hack] at hlog
  | _ => rfl

/-! ### Loops -/

/-- The loop goes on from a `Q` position, and `P` holds of what it has in hand. -/
structure Loop.Keeps [DomainEvent E] (P : Delivery → Prop) (Q : Nat → Prop) (l : Loop E) : Prop where
  settles_eq : l.settles = false
  start : ∃ q, l.start = some q ∧ Q q
  emitting : ∀ p emission, l.place = .emitting p emission → Emission.IsOf P (p, emission)

namespace Loop.Keeps

variable [DomainEvent E] {P : Delivery → Prop} {Q : Nat → Prop} {l l' : Loop E}

theorem disconnected (h : l.Keeps P Q) (hl : l.Disconnects l') : l'.Keeps P Q where
  settles_eq := hl.settles.trans h.settles_eq
  start := by
    obtain ⟨q, hq, hQ⟩ := h.start
    exact ⟨q, hl.start.trans hq, hQ⟩
  emitting p emission hplace := by
    have hno := hl.isConnected
    simp only [isConnected, hplace] at hno
    cases hno

theorem passed (h : l.Keeps P Q) {p : Nat} (hQ : Q (p + 1)) : (l.passed p).Keeps P Q where
  settles_eq := h.settles_eq
  start := ⟨p + 1, rfl, hQ⟩
  emitting _ _ hplace := by cases hplace

theorem polled (h : l.Keeps P Q) {r : Poll} (hP : ∀ d, r = .delivery d → P d)
    (hpassed : ∀ d, P d → Q (d.position + 1)) : (l.polled r).Keeps P Q := by
  cases r with
  | ended => exact h.disconnected l.stop_disconnects
  | failed e => exact h.disconnected (l.failed_disconnects e)
  | pending => exact h
  | delivery d =>
      have hd : P d := hP d rfl
      simp only [Loop.polled, Loop.received]
      cases hv : (Verdict.of E d.record).delivered? with
      | some record =>
          refine { h with emitting := fun p emission hplace => ?_ }
          obtain ⟨rfl, rfl⟩ := Place.emitting.inj hplace
          exact ⟨d, hd, rfl, Verdict.eq_deliver hv⟩
      | none =>
          simp only [h.settles_eq, if_false, Bool.false_eq_true]
          exact h.passed (hpassed d hd)

end Loop.Keeps

/-! ### Steps -/

/-- `P` holds of all that a catch-up subscription takes from its connections. -/
structure Subscription.Keeps [DomainEvent E] (stream : String) (P : Delivery → Prop)
    (Q : Nat → Prop) (log : Log) (s : Subscription E) : Prop where
  stream_eq : s.stream = stream
  group_eq : s.group = none
  loop : s.loop.Keeps P Q
  connection : ∀ c, s.connection = some c →
    ∃ r, c = .catchUp r ∧ r.scope = .ofName stream ∧ r.Keeps P log

namespace Subscription.Keeps

variable [DomainEvent E] {log₀ log : Log} {stream : String} {P : Delivery → Prop} {Q : Nat → Prop}
  {s s' : Subscription E} {server server' : Server}

theorem before (h : s.Keeps stream P Q log) {log' : Log} (hb : log.Before log') :
    s.Keeps stream P Q log' :=
  { h with
    connection := fun c hc => by
      obtain ⟨r, hr, hscope, hk⟩ := h.connection c hc
      exact ⟨r, hr, hscope, hk.before hb⟩ }

theorem opened (hr : log₀.Rule (.ofName stream) P Q) (hb : log₀.Before server.log)
    (hl : server.log.Coherent) (h : s.Keeps stream P Q server.log) {c : Connection}
    (hc : (Broker.connect server s.stream s.group s.loop.start).1 = .ok c) :
    ∃ r, c = .catchUp r ∧ r.scope = .ofName stream ∧ r.Keeps P server.log := by
  obtain ⟨q, hq, hQ⟩ := h.loop.start
  simp only [Broker.connect, Connection.openOn, h.stream_eq, h.group_eq, hq] at hc
  cases ho : CatchUp.openAt server stream (some q) with
  | mk r server₁ =>
      rw [ho] at hc
      cases r with
      | error e => cases hc
      | ok reader =>
          obtain rfl := Except.ok.inj hc
          obtain ⟨-, hscope, hk⟩ := CatchUp.openAt_keeps hl ho (hr.admits.before hb)
            (hr.found _ hb q hQ)
          exact ⟨reader, rfl, hscope, hk⟩

theorem stepped (hr : log₀.Rule (.ofName stream) P Q) (hb : log₀.Before server.log)
    (hl : server.log.Coherent) (h : s.Keeps stream P Q server.log)
    (hs : Stepped server s s' server') : s'.Keeps stream P Q server'.log := by
  obtain ⟨hstream, hgroup, -⟩ := hs.frame
  have hconnection : ∀ c, s'.connection = some c →
      ∃ r, c = .catchUp r ∧ r.scope = .ofName stream ∧ r.Keeps P server.log := by
    refine hs.connection h.connection (fun c hc => h.opened hr hb hl hc) ?_
    rintro _ ⟨r, rfl, hscope, hk⟩
    obtain ⟨hscope', hk', -⟩ := hk.poll
    exact ⟨⟨_, rfl, hscope'.trans hscope, hk'⟩, ⟨_, rfl, hscope'.trans hscope, hk'⟩⟩
  rw [hs.log_eq]
  refine ⟨hstream.trans h.stream_eq, hgroup.trans h.group_eq, ?_, hconnection⟩
  cases hs with
  | stopped hclosed => exact h.loop.disconnected s.loop.stop_disconnects
  | connected hplace hc => exact { h.loop with emitting := fun _ _ hplace => by cases hplace }
  | refused hplace hc => exact h.loop.disconnected (s.loop.failed_disconnects _)
  | @polled c r hplace hc hask =>
      have hpoll : r = c.poll server := hask.elim id id
      obtain ⟨reader, rfl, -, hk⟩ := h.connection c hc
      rw [polled_loop, hpoll]
      exact h.loop.polled hk.poll.2.2 hr.passed
  | settled hplace hm hack =>
      unfold member? at hm
      split at hm
      · rename_i hc
        obtain ⟨r, hr, -⟩ := h.connection _ hc
        cases hr
      · cases hm
  | @queued p emission hplace hroom =>
      obtain ⟨d, hd, rfl, -⟩ := h.loop.emitting p emission hplace
      exact h.loop.passed (hr.passed d hd)
  | paused hplace wait => exact h.loop
  | rested hplace => exact h.loop.disconnected s.loop.rested_disconnects

end Subscription.Keeps

/-! ## Runs of a subscription -/

namespace Follow

variable [DomainEvent E] {log : Log} {stream : String} {P : Delivery → Prop} {Q : Nat → Prop}
  {w : Follow E}

/-- `P` holds of all that a subscription has emitted, and will. -/
structure Keeps (log : Log) (stream : String) (P : Delivery → Prop) (Q : Nat → Prop)
    (w : Follow E) : Prop where
  before : log.Before w.server.log
  subscription : w.subscription.Keeps stream P Q w.server.log
  emitted : ∀ x ∈ w.emitted, Emission.IsOf P x

theorem Keeps.run (hl : log.Coherent) (hr : log.Rule (.ofName stream) P Q)
    (h : w.Keeps log stream P Q) : (w.act .run).Keeps log stream P Q := by
  simp only [act]
  split
  · exact h
  · rename_i s server hstep
    have hs := Subscription.step_cases hstep
    have hb : w.server.log.Before server.log := hs.log_eq ▸ .refl
    refine ⟨h.before.trans hb, ?_, ?_⟩
    · exact h.subscription.stepped hr h.before (hl.before h.before) hs
    · intro x hx
      rcases List.mem_append.1 hx with hx | hx
      · exact h.emitted x hx
      · rw [Option.mem_toList] at hx
        unfold put? at hx
        split at hx
        · rename_i p emission hplace
          split at hx
          · obtain rfl := Option.some.inj hx
            exact h.subscription.loop.emitting p emission hplace
          · cases hx
        · cases hx

theorem Keeps.act (hl : log.Coherent) (hr : log.Rule (.ofName stream) P Q)
    (h : w.Keeps log stream P Q) (move : Move) : (w.act move).Keeps log stream P Q := by
  cases move with
  | serve r =>
      have hb := w.server.serve_before r
      exact ⟨h.before.trans hb, h.subscription.before hb, h.emitted⟩
  | run => exact h.run hl hr
  | receive =>
      simp only [Follow.act]
      rcases w.subscription.receive_eq with ⟨e, rest, -, he⟩ | ⟨hn, he⟩
      · rw [he]
        exact { h with subscription := { h.subscription with } }
      · split
        · rename_i e s hs
          exact absurd (congrArg Prod.fst hs) (hn e)
        · rename_i hs
          rw [hs] at he
          simp only at he
          rw [he]
          exact h
  | close => exact { h with subscription := { h.subscription with } }

theorem Keeps.after (hl : log.Coherent) (hr : log.Rule (.ofName stream) P Q)
    (h : w.Keeps log stream P Q) (moves : List Move) : (w.after moves).Keeps log stream P Q := by
  induction moves generalizing w with
  | nil => exact h
  | cons move moves ih => exact ih (h.act hl hr move)

theorem keeps_start {server : Server} (source : Source) (start : Nat) (hQ : Q start)
    (bufferSize : Nat) (retry : Option RetrySettings) : Keeps server.log source.toStream P Q
      (⟨server, .catchUp source (some start) bufferSize retry, [], []⟩ : Follow E) where
  before := .refl
  subscription :=
    { stream_eq := rfl
      group_eq := rfl
      loop := ⟨rfl, ⟨start, rfl, hQ⟩, fun _ _ h => by cases h⟩
      connection := fun _ h => by cases h }
  emitted _ h := by cases h

end Follow

/-! ## The bound -/

theorem Scope.ofName_mark {name : String} (hm : Text.hasPrefix tombstoneMark name = true) :
    ofName name = .stream name := by
  obtain ⟨rest, rfl⟩ := Text.hasPrefix_iff.1 hm
  have hall : tombstoneMark ++ rest ≠ wholeLog := by
    intro h
    have hl := congrArg String.toList h
    simp [tombstoneMark, wholeLog] at hl
  have hcategory : Text.strip? categoryMark (tombstoneMark ++ rest) = none := by
    cases hs : Text.strip? categoryMark (tombstoneMark ++ rest) with
    | none => rfl
    | some _ =>
        have hl := congrArg String.toList (Text.strip?_eq_some_iff.1 hs)
        simp [tombstoneMark, categoryMark] at hl
  rw [ofName, if_neg hall, hcategory]

namespace Log

variable {log : Log} {stream : String}

theorem Coherent.rule (hl : log.Coherent) {scope : Scope} (hs : scope.IsSteady) (start : Nat) :
    log.Rule scope (fun d => start ≤ d.position ∨ log.Later scope d)
      (fun q => start ≤ q ∨ log.size scope ≤ q) where
  admits log' hb d hd := .inr (hl.admits_later scope log' hb d hd)
  found log' hb q hq e he p hp hle := by
    rcases hq with hq | hq
    · exact .inl (hq.trans hle)
    · exact .inr (hl.later_of_size_le hb hs he hp (hq.trans hle))
  passed d hd := by
    rcases hd with hd | hd
    · exact .inl (hd.trans (Nat.le_succ _))
    · exact .inr ((hd.2 hs).trans (Nat.le_succ _))

/-- What is read under the name of a mark is never for a consumer. -/
theorem rule_mark (log : Log) {name : String} (hm : Text.hasPrefix tombstoneMark name = true) :
    log.Rule (.stream name) (fun d => d.record.isTombstone = true) (fun _ => True) := by
  have hmark (e : Entry) (p : Nat) (hp : (Scope.stream name).position? e = some p) :
      e.record.isTombstone = true := by
    simp only [Scope.position?] at hp
    split at hp
    · rename_i hs
      rw [Record.isTombstone, hs]
      exact hm
    · cases hp
  refine ⟨fun log' hb d hd => ?_, fun log' hb q hq e he p hp hle => hmark e p hp,
    fun _ _ => trivial⟩
  obtain ⟨e, he, p, hp, rfl⟩ := (Scope.stream name).mem_deliveries.1 hd
  exact hmark e p hp

end Log

namespace Follow

theorem emitted_bounds [DomainEvent E] {server : Server} (hl : server.log.Coherent)
    (source : Source) (start bufferSize : Nat) (retry : Option RetrySettings) (moves : List Move) :
    ∀ x ∈ (Follow.after ⟨server, .catchUp source (some start) bufferSize retry, [], []⟩
      moves : Follow E).emitted,
    start ≤ x.1 ∨ server.log.nextCommit ≤ x.2.record.commit ∧
      server.log.size (.ofName source.toStream) ≤ x.1 := by
  intro x hx
  cases hm : Text.hasPrefix tombstoneMark source.toStream with
  | false =>
      have hs := Scope.isSteady_ofName hm
      have hk := (keeps_start (E := E) source start (.inl (Nat.le_refl start)) bufferSize retry).after hl
        (hl.rule hs start) moves
      obtain ⟨d, hd, hpos, hv⟩ := hk.emitted x hx
      obtain ⟨-, -, hdec⟩ := Verdict.of_eq_deliver hv
      obtain ⟨event, hrec⟩ := Record.decode_eq_event hdec
      rw [hrec, ← hpos]
      exact hd.imp_right fun h => ⟨h.1, h.2 hs⟩
  -- The streams of marks are not numbered, but nothing of them is for a consumer.
  | true =>
      have hscope := Scope.ofName_mark hm
      have hk := (keeps_start (E := E) source start trivial bufferSize retry).after hl
        (hscope ▸ server.log.rule_mark hm) moves
      obtain ⟨d, hd, -, hv⟩ := hk.emitted x hx
      rw [(Verdict.of_eq_deliver hv).1] at hd
      cases hd

/-- What a reader hands out before its start was written after it was opened, behind all that its
scope had then; and so it is with what a subscription emits, however often it connects again. So
nothing comes before a start that lies within the scope. -/
theorem start_bounds_history [DomainEvent E] (now : Nat) (before : List Request) (start : Nat) :
    let s := (Server.start now).after before
    (∀ stream c s', CatchUp.openAt s stream (some start) = (.ok c, s') → ∀ moves,
      ∀ d ∈ (Reading.after ⟨s', c, []⟩ moves).delivered,
        start ≤ d.position ∨ s.log.Later (.ofName stream) d) ∧
    ∀ source bufferSize retry moves,
      ∀ x ∈ (after ⟨s, .catchUp source (some start) bufferSize retry, [], []⟩ moves :
        Follow E).emitted,
        start ≤ x.1 ∨ s.log.nextCommit ≤ x.2.record.commit ∧
          s.log.size (.ofName source.toStream) ≤ x.1 := by
  intro s
  have hl : s.log.Coherent := Server.coherent_after now before
  constructor
  · intro stream c s' ho moves
    have hlive : s.log.Admits (.ofName stream)
        fun d => start ≤ d.position ∨ s.log.Later (.ofName stream) d :=
      fun log' hb d hd => .inr (hl.admits_later _ log' hb d hd)
    obtain ⟨hlog, -, hk⟩ := CatchUp.openAt_keeps hl ho hlive fun e _ p _ hle => .inl hle
    exact Reading.after_keeps (w := ⟨s', c, []⟩) (hlog ▸ hk) (fun d hd => by cases hd) moves
  · intro source bufferSize retry moves
    exact emitted_bounds hl source start bufferSize retry moves

/-- Connections are dropped while a record is written. -/
def closingRun : List Move :=
  let closing (stream : String) : Move :=
    .serve (.call (.append stream .any [⟨"AccountClosed", [0], []⟩]))
  [.run, .run, .run, closing "account-1", .serve .disconnectAll, .run, .run,
    .serve (.elapse 1000), .run, .run, .run, .run]

theorem start_bounds_history_closingRun :
    let before : List Request := [.call (.append "account-1" .any
      [⟨"AccountClosed", [0], []⟩, ⟨"AccountClosed", [1], []⟩])]
    let s := (Server.start 0).after before
    let w : Follow Domain.AccountEvent :=
      after ⟨s, .catchUp (.category "account") (some 1) 8 (some {}), [], []⟩ closingRun
    w.emitted.map (·.1) = [1, 2] ∧ s.log.size (.category "account") = 2 ∧
    ∀ x ∈ w.emitted, 1 ≤ x.1 ∨ 2 ≤ x.2.record.commit ∧ 2 ≤ x.1 := by
  intro before s w
  exact ⟨by decide +kernel, by decide +kernel,
    (start_bounds_history (E := Domain.AccountEvent) 0 before 1).2 (.category "account") 8 (some {})
      closingRun⟩

/-- A reader that starts behind the end of its stream gets what is written before its start, and a
subscription emits it. -/
theorem start_overrun :
    let closing : Request := .call (.append "account-1" .any [⟨"AccountClosed", [0], []⟩])
    (∃ c, CatchUp.openAt (Server.start 0) "account-1" (some 5) = (.ok c, Server.start 0) ∧
      (Reading.after ⟨Server.start 0, c, []⟩ [.serve closing, .poll]).delivered.map (·.position) =
        [0]) ∧
    (after ⟨Server.start 0, .catchUp (.stream "account-1") (some 5) 8 none, [], []⟩
      [.run, .serve closing, .run, .run] : Follow Domain.AccountEvent).emitted.map (·.1) = [0] :=
  ⟨⟨_, rfl, by decide +kernel⟩, by decide +kernel⟩

end Follow

end EventSourcing
