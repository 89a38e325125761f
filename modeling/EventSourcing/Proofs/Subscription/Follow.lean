import EventSourcing.Domain.Account
import EventSourcing.Proofs.Subscription.Emitted
import EventSourcing.Subscription.Basic

/-!
# Following the log

A catch-up subscription in a run: the server serves requests in any order between the steps of the
loop and those of the consumer, so connections break, feeds overrun and streams are deleted at any
moment. What the loop emits are the records of its scope, in order and without a hole
(`Follow.emitted_once`).
-/

namespace EventSourcing

variable {E : Type}

/-! ## Runs -/

/-- A catch-up subscription on a server, with all that it has emitted so far, each record with its
position, and what of it the consumer has received. -/
structure Follow (E : Type) where
  server : Server
  subscription : Subscription E
  emitted : List (Nat × Emission E) := []
  received : List (Emission E) := []

/-- What happens next. -/
inductive Follow.Move
  /-- Anybody asks the server for something. -/
  | serve (r : Request)
  /-- The loop takes a step, unless it has to wait. -/
  | run
  /-- The consumer asks for a record. -/
  | receive
  | close

namespace Follow

/-- What a step of the loop has put into the queue. -/
def put? (s s' : Subscription E) : Option (Nat × Emission E) :=
  match s.loop.place with
  | .emitting position emission =>
    if s.queue.length < s'.queue.length then some (position, emission) else none
  | _ => none

def act [DomainEvent E] (w : Follow E) : Move → Follow E
  | .serve r => { w with server := (w.server.serve r).2 }
  | .run =>
    match w.subscription.step w.server with
    | none => w
    | some (s, server) =>
      { w with
        server := server
        subscription := s
        emitted := w.emitted ++ (put? w.subscription s).toList }
  | .receive =>
    match w.subscription.receive with
    | (.record e, s) => { w with subscription := s, received := w.received ++ [e] }
    | (_, s) => { w with subscription := s }
  | .close => { w with subscription := w.subscription.close }

def after [DomainEvent E] (w : Follow E) (moves : List Move) : Follow E := moves.foldl act w

end Follow

/-! ## Loops without a connection -/

/-- The one loop goes on as the other, which holds no connection. -/
structure Loop.Disconnects (l l' : Loop E) : Prop where
  start : l'.start = l.start
  position : l'.position = l.position
  settles : l'.settles = l.settles
  isConnected : l'.isConnected = false

namespace Loop

theorem stop_disconnects (l : Loop E) : l.Disconnects l.stop := ⟨rfl, rfl, rfl, rfl⟩

theorem rested_disconnects (l : Loop E) : l.Disconnects l.rested := ⟨rfl, rfl, rfl, rfl⟩

theorem failed_disconnects (l : Loop E) (e : LogError) : l.Disconnects (l.failed e) := by
  unfold failed
  repeat' split
  all_goals exact ⟨rfl, rfl, rfl, rfl⟩

end Loop

/-- The consumer gets the first record of the queue, or nothing changes. -/
theorem Subscription.receive_eq (s : Subscription E) :
    (∃ e rest, s.queue = e :: rest ∧ s.receive = (.record e, { s with queue := rest })) ∨
    ((∀ e, s.receive.1 ≠ .record e) ∧ s.receive.2 = s) := by
  unfold receive
  split
  · exact .inr ⟨fun _ h => (by cases h), rfl⟩
  · split
    · rename_i e rest hq
      exact .inl ⟨e, rest, hq, rfl⟩
    · refine .inr ⟨fun e he => ?_, rfl⟩
      split at he <;> cases he

/-! ## The invariant -/

/-- What a reader has before it, after what the loop has taken from it but not dealt with. -/
structure CatchUp.Ahead (log : Log) (scope : Scope) (initial position : Nat) (ds : List Delivery)
    (c : CatchUp) : Prop where
  scope_eq : c.scope = scope
  next_le : c.next ≤ log.history.length
  pending : log.Pending scope initial position (ds ++ c.upcoming log)

theorem CatchUp.Ahead.grow {log log' : Log} {scope : Scope} {initial position : Nat}
    {ds : List Delivery} {c : CatchUp} (h : c.Ahead log scope initial position ds)
    (hl : log.Numbered) (hl' : log'.Numbered) (hs : scope.IsSteady)
    (hle : position ≤ log.size scope) (hdel : log.deleted ⊆ log'.deleted) {news : List Entry}
    (hn : log'.history = log.history ++ news) : c.Ahead log' scope initial position ds where
  scope_eq := h.scope_eq
  next_le := by
    rw [hn, List.length_append]
    exact Nat.le_add_right_of_le h.next_le
  pending := by
    rw [upcoming_grow hn h.next_le, ← List.append_assoc, h.scope_eq]
    exact h.pending.grow hl hl' hs hle hdel hn

theorem CatchUp.Consumes.ahead {log : Log} {scope : Scope} {initial position : Nat}
    {ds : List Delivery} {c c' : CatchUp} (hc : c.Consumes log ds c')
    (h : c.Ahead log scope initial position []) : c'.Ahead log scope initial position ds where
  scope_eq := hc.scope.trans h.scope_eq
  next_le := hc.next_le h.next_le
  pending := hc.upcoming ▸ h.pending

namespace Follow

/-- Whether the loop at this place has a connection that lets it go on at `position`. -/
def Connected [DomainEvent E] (log : Log) (scope : Scope) (initial position : Nat)
    (connection : Option Connection) : Place E → Prop
  | .reading => ∃ c, connection = some (.catchUp c) ∧ c.Ahead log scope initial position []
  | .emitting p emission => ∃ e ∈ log.history, scope.position? e = some p ∧
    ∃ record, Verdict.of E e.record = .deliver record ∧ emission = .first record e.record.id ∧
    ∃ c, connection = some (.catchUp c) ∧
      c.Ahead log scope initial position [.first p e.record]
  | .settling _ _ => False
  | _ => True

/-- The loop has dealt with all below `position`, and it goes on from there. -/
structure Faithful [DomainEvent E] (stream : String) (initial : Option Nat) (position : Nat)
    (w : Follow E) : Prop where
  coherent : w.server.log.Coherent
  stream_eq : w.subscription.stream = stream
  group_eq : w.subscription.group = none
  settles_eq : w.subscription.loop.settles = false
  start_eq : (w.subscription.loop.start = initial ∧ position = 0) ∨
    w.subscription.loop.start = some position
  position_eq : w.subscription.loop.position =
    match w.subscription.loop.start with
    | some (n + 1) => some n
    | _ => none
  le_size : position ≤ w.server.log.size (.ofName stream)
  emitted : w.server.log.Emitted (.ofName stream) (initial.getD 0) position w.emitted
  received : w.received ++ w.subscription.queue = w.emitted.map (·.2)
  connected : Connected w.server.log (.ofName stream) (initial.getD 0) position
    w.subscription.connection w.subscription.loop.place

namespace Faithful

variable [DomainEvent E] {stream : String} {initial : Option Nat} {position : Nat} {w : Follow E}

theorem connected_of_not {log : Log} {scope : Scope} {initial position : Nat}
    {connection : Option Connection} {l : Loop E} (h : l.isConnected = false) :
    Connected log scope initial position connection l.place := by
  unfold Loop.isConnected at h
  split at h
  · cases h
  · cases h
  · cases h
  · unfold Connected
    split <;> simp_all

/-- Without a connection nothing can go wrong. -/
theorem disconnected (h : w.Faithful stream initial position) {l : Loop E}
    (hl : w.subscription.loop.Disconnects l) {server : Server} (hlog : server.log = w.server.log)
    (connection : Option Connection) (wait : Option Wait) : Faithful stream initial position
      { w with
        server := server
        subscription := { w.subscription with loop := l, connection := connection, wait := wait } } where
  coherent := hlog ▸ h.coherent
  stream_eq := h.stream_eq
  group_eq := h.group_eq
  settles_eq := hl.settles.trans h.settles_eq
  start_eq := by
    simp only [hl.start]
    exact h.start_eq
  position_eq := by
    simp only [hl.start, hl.position]
    exact h.position_eq
  le_size := hlog ▸ h.le_size
  emitted := hlog ▸ h.emitted
  received := h.received
  connected := connected_of_not hl.isConnected

/-- The record that the loop has taken is dealt with. -/
theorem passed (h : w.Faithful stream initial position) (hs : (Scope.ofName stream).IsSteady)
    {e : Entry} {p : Nat} {c : CatchUp} (he : e ∈ w.server.log.history)
    (hpos : (Scope.ofName stream).position? e = some p)
    (hc : c.Ahead w.server.log (.ofName stream) (initial.getD 0) position [.first p e.record])
    {emitted : List (Nat × Emission E)} {queue : List (Emission E)}
    (hem : w.server.log.Emitted (.ofName stream) (initial.getD 0) (p + 1) emitted)
    (hrec : w.received ++ queue = emitted.map (·.2)) : Faithful stream initial (p + 1)
      { w with
        subscription := { w.subscription with
          queue := queue
          loop := w.subscription.loop.passed p
          connection := some (.catchUp c)
          wait := none }
        emitted := emitted } where
  coherent := h.coherent
  stream_eq := h.stream_eq
  group_eq := h.group_eq
  settles_eq := h.settles_eq
  start_eq := .inr rfl
  position_eq := rfl
  le_size := h.coherent.lt_size hs he hpos
  emitted := hem
  received := hrec
  connected := ⟨c, rfl, hc.scope_eq, hc.next_le, hc.pending.tail h.coherent.toNumbered hs⟩

/-! ## Steps -/

theorem serve (h : w.Faithful stream initial position) (hs : (Scope.ofName stream).IsSteady)
    (r : Request) : (w.act (.serve r)).Faithful stream initial position := by
  rcases w.server.serve_log r with hl | hl
  · refine { h with coherent := ?_, le_size := ?_, emitted := ?_, connected := ?_ }
    · exact hl ▸ h.coherent
    · exact hl ▸ h.le_size
    · exact hl ▸ h.emitted
    · exact hl ▸ h.connected
  · obtain ⟨news, hn, -⟩ := hl.entries
    have hc := h.coherent
    have hc' := hc.step hl
    have hn₀ := hc.toNumbered
    have hn₁ := hc'.toNumbered
    refine { h with coherent := hc', le_size := ?_, emitted := ?_, connected := ?_ }
    · exact Nat.le_trans h.le_size (hl.size_le _)
    · exact h.emitted.grow hn₀ hn₁ hs h.le_size hl.deleted hn
    · have hcon := h.connected
      show Connected _ _ _ _ w.subscription.connection w.subscription.loop.place
      cases hp : w.subscription.loop.place with
      | reading =>
          rw [hp] at hcon
          obtain ⟨c, hcc, ha⟩ := hcon
          exact ⟨c, hcc, ha.grow hn₀ hn₁ hs h.le_size hl.deleted hn⟩
      | emitting p emission =>
          rw [hp] at hcon
          obtain ⟨e, he, hpos, record, hv, hem, c, hcc, ha⟩ := hcon
          exact ⟨e, hl.history.subset he, hpos, record, hv, hem, c, hcc,
            ha.grow hn₀ hn₁ hs h.le_size hl.deleted hn⟩
      | settling p id =>
          rw [hp] at hcon
          exact hcon
      | opening => trivial
      | resting pause => trivial
      | finished result => trivial

theorem receive (h : w.Faithful stream initial position) :
    (w.act .receive).Faithful stream initial position := by
  have hr := h.received
  simp only [act]
  rcases w.subscription.receive_eq with ⟨e, rest, hq, he⟩ | ⟨hn, he⟩
  · simp only [he]
    rw [hq] at hr
    refine { h with received := ?_ }
    simpa using hr
  · split
    · rename_i e s hs
      exact absurd (congrArg Prod.fst hs) (hn e)
    · rename_i hs
      rw [hs] at he
      simp only at he
      rw [he]
      exact h

theorem close (h : w.Faithful stream initial position) :
    (w.act .close).Faithful stream initial position :=
  { h with }

/-- The loop asks its connection for a record. -/
theorem polled (h : w.Faithful stream initial position) (hs : (Scope.ofName stream).IsSteady)
    {c c' : CatchUp} {p : Poll} (hp : c.poll w.server = (p, c'))
    (hplace : w.subscription.loop.place = .reading)
    (hc : c.Ahead w.server.log (.ofName stream) (initial.getD 0) position []) :
    ∃ position', Faithful stream initial position' { w with
      server := (w.subscription.polled (p, .catchUp c', w.server)).2
      subscription := (w.subscription.polled (p, .catchUp c', w.server)).1 } := by
  cases p with
  | failed e =>
      exact ⟨position, h.disconnected (w.subscription.loop.failed_disconnects e) rfl _ _⟩
  | ended => exact ⟨position, h.disconnected w.subscription.loop.stop_disconnects rfl _ _⟩
  | pending =>
      obtain ⟨ds, hcon, ⟨d, hd, -⟩ | ⟨-, rfl⟩⟩ := CatchUp.poll_consumes hp fun _ h => (by cases h)
      · cases hd
      · refine ⟨position, { h with connected := ?_ }⟩
        show Connected _ _ _ _ (some (.catchUp c')) w.subscription.loop.place
        rw [hplace]
        exact ⟨c', rfl, hcon.ahead hc⟩
  | delivery d =>
      obtain ⟨ds, hcon, ⟨d', hd, rfl⟩ | ⟨hn, -⟩⟩ := CatchUp.poll_consumes hp fun _ h => (by cases h)
      · obtain rfl := Poll.delivery.inj hd
        have ha := hcon.ahead hc
        obtain ⟨e, he, q, hq, rfl⟩ := (Scope.ofName stream).mem_deliveries.1
          (ha.pending.sublist.subset List.mem_cons_self)
        simp only [Subscription.polled, Loop.polled, Loop.received]
        cases hv : (Verdict.of E (Delivery.first q e.record).record).delivered? with
        | some record =>
            refine ⟨position, { h with connected := ?_ }⟩
            exact ⟨e, he, hq, record, Verdict.eq_deliver hv, rfl, c', rfl, ha⟩
        | none =>
            simp only [h.settles_eq, if_false, Bool.false_eq_true]
            have hem := h.emitted.pass h.coherent.toNumbered hs ha.pending he hq hv
            exact ⟨q + 1, h.passed hs he hq ha hem h.received⟩
      · exact absurd rfl (hn d)

/-- The loop opens a connection. -/
theorem opened (h : w.Faithful stream initial position) {c : CatchUp} {server : Server}
    (hc : CatchUp.openAt w.server stream w.subscription.loop.start = (.ok c, server)) :
    Faithful stream initial position { w with
      server := server
      subscription := { w.subscription with connection := some (.catchUp c) }.moveTo
        w.subscription.loop.opened } := by
  obtain ⟨hlog, hscope, hnext, hup⟩ := CatchUp.openAt_eq_ok hc
  have hpending : w.server.log.Pending (.ofName stream) (initial.getD 0) position
      (c.upcoming w.server.log) := by
    rw [hup, hscope]
    rcases h.start_eq with ⟨hstart, rfl⟩ | hstart
    · rw [hstart]
      exact h.coherent.pending (Nat.zero_le _) (.inl rfl)
    · rw [hstart]
      exact h.coherent.pending (Nat.le_refl _) (.inr rfl)
  refine { h with coherent := ?_, le_size := ?_, emitted := ?_, connected := ?_ }
  · exact hlog ▸ h.coherent
  · exact hlog ▸ h.le_size
  · exact hlog ▸ h.emitted
  · exact hlog ▸ ⟨c, rfl, hscope, Nat.le_of_eq hnext, hpending⟩

/-- A record goes into the queue. -/
theorem queued (h : w.Faithful stream initial position) (hs : (Scope.ofName stream).IsSteady)
    {p : Nat} {emission : Emission E} (hplace : w.subscription.loop.place = .emitting p emission) :
    Faithful stream initial (p + 1) { w with
      subscription := { w.subscription with queue := w.subscription.queue ++ [emission] }.moveTo
        (w.subscription.loop.passed p)
      emitted := w.emitted ++ [(p, emission)] } := by
  have hcon := h.connected
  rw [hplace] at hcon
  obtain ⟨e, he, hpos, record, hv, rfl, c, hc, ha⟩ := hcon
  have hem := h.emitted.emit h.coherent.toNumbered hs ha.pending he hpos hv
  have hrec : w.received ++ (w.subscription.queue ++ [Emission.first record e.record.id]) =
      (w.emitted ++ [(p, Emission.first record e.record.id)]).map (·.2) := by
    rw [← List.append_assoc, h.received, List.map_append]
    rfl
  have hp := h.passed hs he hpos ha hem hrec
  rw [← hc] at hp
  exact hp

/-- A step that leaves the queue alone emits nothing. -/
theorem run_eq {s : Subscription E} {server : Server}
    (h : w.subscription.step w.server = some (s, server)) (hq : s.queue = w.subscription.queue) :
    w.act .run = { w with server := server, subscription := s } := by
  have hput : put? w.subscription s = none := by
    unfold put?
    split
    · rw [hq, if_neg (Nat.lt_irrefl _)]
    · rfl
  simp only [act, h, hput, Option.toList_none, List.append_nil]

theorem run_of_none (h : w.subscription.step w.server = none) : w.act .run = w := by
  simp only [act, h]

theorem run_opening (h : w.Faithful stream initial position)
    (hplace : w.subscription.loop.place = .opening) (hopen : w.subscription.closed = false) :
    (w.act .run).Faithful stream initial position := by
  cases hc : CatchUp.openAt w.server stream w.subscription.loop.start with
  | mk r server =>
      have hconnect : Broker.connect w.server w.subscription.stream w.subscription.group
          w.subscription.loop.start = (r.map .catchUp, server) := by
        simp only [Broker.connect, Connection.openOn, h.stream_eq, h.group_eq, hc]
      cases r with
      | ok c =>
          have hstep : w.subscription.step w.server =
              some ({ w.subscription with connection := some (.catchUp c) }.moveTo
                w.subscription.loop.opened, server) := by
            simp [Subscription.step, hplace, hopen, hconnect, Except.map]
          rw [run_eq hstep rfl]
          exact h.opened hc
      | error e =>
          have hstep : w.subscription.step w.server =
              some (w.subscription.moveTo (w.subscription.loop.failed e), server) := by
            simp [Subscription.step, hplace, hopen, hconnect, Except.map]
          have hlog := w.server.openAt_log stream w.subscription.loop.start
          rw [hc] at hlog
          rw [run_eq hstep rfl]
          exact h.disconnected (w.subscription.loop.failed_disconnects e) hlog _ _

theorem run_reading (h : w.Faithful stream initial position) (hs : (Scope.ofName stream).IsSteady)
    (hplace : w.subscription.loop.place = .reading) (hopen : w.subscription.closed = false) :
    ∃ position', (w.act .run).Faithful stream initial position' := by
  have hcon := h.connected
  rw [hplace] at hcon
  obtain ⟨c, hc, ha⟩ := hcon
  cases hp : c.poll w.server with
  | mk p c' =>
      have hask : Broker.ask w.server (.catchUp c) = (p, .catchUp c', w.server) := by
        simp only [Broker.ask, Connection.poll, hp]
      have hagain : Broker.askAgain w.server (.catchUp c) = (p, .catchUp c', w.server) := by
        simp only [Broker.askAgain, Connection.poll, hp]
      have hstep : w.subscription.step w.server = none ∨ w.subscription.step w.server =
          some (w.subscription.polled (p, .catchUp c', w.server)) := by
        cases hw : w.subscription.wait with
        | none =>
            right
            simp [Subscription.step, hplace, hopen, hc, hw, hask]
        | some wait =>
            by_cases hdue : wait.signal ≠ Broker.signal w.server ∨
                Subscription.isDue w.server wait
            · right
              simp only [Subscription.step, hplace, hopen, hc, hw, Bool.false_eq_true, if_false,
                if_pos hdue, hagain]
            · left
              simp only [Subscription.step, hplace, hopen, hc, hw, Bool.false_eq_true, if_false,
                if_neg hdue]
      rcases hstep with hstep | hstep
      · rw [run_of_none hstep]
        exact ⟨position, h⟩
      · have hq : (w.subscription.polled (p, .catchUp c', w.server)).1.queue =
            w.subscription.queue := by
          cases p <;> rfl
        rw [run_eq hstep hq]
        exact h.polled hs hp hplace ha

theorem run_emitting (h : w.Faithful stream initial position) (hs : (Scope.ofName stream).IsSteady)
    {p : Nat} {emission : Emission E} (hplace : w.subscription.loop.place = .emitting p emission)
    (hopen : w.subscription.closed = false) :
    ∃ position', (w.act .run).Faithful stream initial position' := by
  by_cases hroom : w.subscription.queue.length < w.subscription.capacity
  · have hstep : w.subscription.step w.server =
        some ({ w.subscription with queue := w.subscription.queue ++ [emission] }.moveTo
          (w.subscription.loop.passed p), w.server) := by
      simp [Subscription.step, hplace, hopen, hroom]
    refine ⟨p + 1, ?_⟩
    have hq := h.queued hs hplace
    simp only [act, hstep, put?, hplace, Subscription.moveTo, List.length_append]
    simpa [Subscription.moveTo] using hq
  · have hstep : w.subscription.step w.server = none := by
      simp [Subscription.step, hplace, hopen, hroom]
    rw [run_of_none hstep]
    exact ⟨position, h⟩

theorem run_resting (h : w.Faithful stream initial position) {pause : Nat}
    (hplace : w.subscription.loop.place = .resting pause) (hopen : w.subscription.closed = false) :
    (w.act .run).Faithful stream initial position := by
  cases hw : w.subscription.wait with
  | none =>
      have hstep : w.subscription.step w.server = some ({ w.subscription with
          wait := some ⟨Broker.signal w.server,
            some (Broker.now w.server + Backoff.spread pause)⟩ }, w.server) := by
        simp [Subscription.step, hplace, hopen, hw]
      rw [run_eq hstep rfl]
      exact { h with }
  | some wait =>
      by_cases hdue : Subscription.isDue w.server wait
      · have hstep : w.subscription.step w.server =
            some (w.subscription.moveTo w.subscription.loop.rested, w.server) := by
          simp [Subscription.step, hplace, hopen, hw, hdue]
        rw [run_eq hstep rfl]
        exact h.disconnected w.subscription.loop.rested_disconnects rfl _ _
      · rw [run_of_none (by simp [Subscription.step, hplace, hopen, hw, hdue])]
        exact h

theorem run_closed (h : w.Faithful stream initial position)
    (hplace : w.subscription.loop.result? = none) (hclosed : w.subscription.closed = true) :
    (w.act .run).Faithful stream initial position := by
  have hstep : w.subscription.step w.server =
      some (w.subscription.moveTo w.subscription.loop.stop, w.server) := by
    unfold Subscription.step
    split
    · rename_i result hfinished
      simp [Loop.result?, hfinished] at hplace
    · simp only [hclosed, if_true]
  rw [run_eq hstep rfl]
  exact h.disconnected w.subscription.loop.stop_disconnects rfl _ _

theorem run (h : w.Faithful stream initial position) (hs : (Scope.ofName stream).IsSteady) :
    ∃ position', (w.act .run).Faithful stream initial position' := by
  have hcon := h.connected
  cases hr : w.subscription.loop.result? with
  | some result =>
      have hplace : w.subscription.loop.place = .finished result := by
        unfold Loop.result? at hr
        split at hr
        · rwa [← Option.some.inj hr]
        · cases hr
      rw [run_of_none (by simp only [Subscription.step, hplace])]
      exact ⟨position, h⟩
  | none =>
      cases hclosed : w.subscription.closed with
      | true => exact ⟨position, h.run_closed hr hclosed⟩
      | false =>
          cases hplace : w.subscription.loop.place with
          | opening => exact ⟨position, h.run_opening hplace hclosed⟩
          | reading => exact h.run_reading hs hplace hclosed
          | settling p id =>
              rw [hplace] at hcon
              exact hcon.elim
          | emitting p emission => exact h.run_emitting hs hplace hclosed
          | resting pause => exact ⟨position, h.run_resting hplace hclosed⟩
          | finished result => simp [Loop.result?, hplace] at hr

/-- Whatever happens, the loop stays faithful. -/
theorem after (h : w.Faithful stream initial position) (hs : (Scope.ofName stream).IsSteady)
    (moves : List Move) : ∃ position', (w.after moves).Faithful stream initial position' := by
  induction moves generalizing w position with
  | nil => exact ⟨position, h⟩
  | cons move moves ih =>
      cases move with
      | serve r => exact ih (h.serve hs r)
      | run =>
          obtain ⟨position', h'⟩ := h.run hs
          exact ih h'
      | receive => exact ih h.receive
      | close => exact ih h.close

end Faithful

/-- A subscription that has not run yet is faithful. -/
theorem faithful_start [DomainEvent E] {server : Server} (hc : server.log.Coherent)
    (source : Source) (initial : Option Nat) (bufferSize : Nat) (retry : Option RetrySettings) :
    Faithful source.toStream initial 0
      (⟨server, .catchUp source initial bufferSize retry, [], []⟩ : Follow E) where
  coherent := hc
  stream_eq := rfl
  group_eq := rfl
  settles_eq := rfl
  start_eq := .inl ⟨rfl, rfl⟩
  position_eq := rfl
  le_size := Nat.zero_le _
  emitted := .nil _ _ _
  received := rfl
  connected := trivial

/-- Over all its connections, a catch-up subscription emits records of its scope in the order of
their positions. Whatever has happened so far, each record from `initial` up to its progress that
the consumer has to get was emitted exactly once, unless its stream was deleted. -/
theorem emitted_once [DomainEvent E] (now : Nat) (before : List Request) (source : Source)
    (hs : Text.hasPrefix tombstoneMark source.toStream = false) (initial : Option Nat)
    (bufferSize : Nat) (retry : Option RetrySettings) (moves : List Move) :
    let w : Follow E := Follow.after ⟨(Server.start now).after before,
      .catchUp source initial bufferSize retry, [], []⟩ moves
    (w.emitted.map (·.1)).Pairwise (· < ·) ∧
    w.received ++ w.subscription.queue = w.emitted.map (·.2) ∧
    (∀ x ∈ w.emitted, ∃ e ∈ w.server.log.history,
      (Scope.ofName source.toStream).position? e = some x.1 ∧
      ∃ record, Verdict.of E e.record = .deliver record ∧ x.2 = .first record e.record.id) ∧
    ∀ last, w.subscription.progress = some last → ∀ e ∈ w.server.log.history, ∀ p record,
      (Scope.ofName source.toStream).position? e = some p → initial.getD 0 ≤ p → p ≤ last →
      Verdict.of E e.record = .deliver record → e.record.stream ∉ w.server.log.deleted →
      w.emitted.filter (fun x => x.1 = p) = [(p, .first record e.record.id)] := by
  intro w
  have hstart := faithful_start (E := E) (Server.coherent_after now before) source initial
    bufferSize retry
  obtain ⟨position, h⟩ := hstart.after (Scope.isSteady_ofName hs) moves
  refine ⟨h.emitted.sorted, h.received, h.emitted.genuine, ?_⟩
  intro last hlast e he p record hp hi hle hv hd
  have hlt : p < position := by
    have hpos := h.position_eq
    rw [show w.subscription.loop.position = some last from hlast] at hpos
    rcases h.start_eq with ⟨hstart, -⟩ | hstart <;> rw [hstart] at hpos
    · cases initial with
      | none => cases hpos
      | some n =>
          cases n with
          | zero => cases hpos
          | succ n =>
              obtain rfl := Option.some.inj hpos
              exact absurd hi (by simp only [Option.getD_some]; omega)
    · cases position with
      | zero => cases hpos
      | succ n =>
          obtain rfl := Option.some.inj hpos
          exact Nat.lt_succ_of_le hle
  exact h.emitted.filter_eq (h.emitted.complete e he p record hp hi hlt hv hd)

/-- A record of a category is emitted, connections are dropped, and a record that is written in
between is emitted after the loop has connected again. -/
def accountRun : List Move :=
  let closing (stream : String) : Move :=
    .serve (.call (.append stream .any [⟨"AccountClosed", [0], []⟩]))
  [closing "account-1", .run, .run, .run, closing "account-2", .serve .disconnectAll, .run, .run,
    .serve (.elapse 1000), .run, .run, .run, .run]

theorem emitted_once_accountRun :
    Text.hasPrefix tombstoneMark (Source.category "account").toStream = false ∧
    ∃ w : Follow Domain.AccountEvent,
      w = after ⟨(Server.start 0).after [], .catchUp (.category "account") none 8 (some {}), [], []⟩
        accountRun ∧
      w.subscription.progress = some 1 ∧ w.emitted.map (·.1) = [0, 1] ∧
      ∀ e ∈ w.server.log.history, ∀ p record,
        (Scope.category "account").position? e = some p → p ≤ 1 →
        Verdict.of Domain.AccountEvent e.record = .deliver record →
        e.record.stream ∉ w.server.log.deleted →
        w.emitted.filter (fun x => x.1 = p) = [(p, .first record e.record.id)] := by
  have hs : Text.hasPrefix tombstoneMark (Source.category "account").toStream = false := by decide
  have h := emitted_once (E := Domain.AccountEvent) 0 [] (.category "account") hs none 8 (some {})
    accountRun
  refine ⟨hs, _, rfl, by decide +kernel, by decide +kernel, fun e he p record hp hle => ?_⟩
  exact h.2.2.2 1 (by decide +kernel) e he p record hp (Nat.zero_le p) hle

end Follow

end EventSourcing
