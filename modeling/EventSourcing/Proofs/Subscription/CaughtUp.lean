import EventSourcing.Proofs.Subscription.Start

/-!
# Coming to the end of what can be read

A catch-up subscription that is let in, and whose consumer goes on reading, comes to the end of what
its scope holds, and has emitted all that the consumer has to get (`Follow.caught_up`). It takes no
more than two steps for a record.
-/

namespace EventSourcing

variable {E : Type} [DomainEvent E]

/-! ## Readers with nothing but a backlog -/

/-- The reader has nothing before it but its backlog, and its connection stands. -/
structure CatchUp.Fresh (s : Server) (c : CatchUp) : Prop where
  epoch_eq : c.epoch = s.epoch
  next_eq : c.next = s.log.written.size

namespace CatchUp.Fresh

variable {s : Server} {c : CatchUp}

theorem poll_cons (h : c.Fresh s) {d : Delivery} {rest : List Delivery}
    (hb : c.backlog = d :: rest) : c.poll s = (.delivery d, { c with backlog := rest }) := by
  simp only [poll, Server.checkEpoch, h.epoch_eq, if_true, hb]

theorem poll_nil (h : c.Fresh s) (hopen : s.closed = false) (hb : c.backlog = []) :
    c.poll s = (.pending, c) := by
  obtain ⟨scope, backlog, next, epoch⟩ := c
  obtain ⟨rfl, rfl⟩ := h
  obtain rfl : backlog = [] := hb
  simp [poll, Server.checkEpoch, pollFeed, hopen]

theorem upcoming_eq (h : c.Fresh s) : c.upcoming s.log = c.backlog := by
  have hsize : s.log.history.length = s.log.written.size := Array.length_toList
  rw [upcoming, h.next_eq, List.drop_eq_nil_of_le (Nat.le_of_eq hsize)]
  exact List.append_nil _

end CatchUp.Fresh

/-! ## Subscriptions that work off a backlog -/

/-- The subscription is connected through a fresh reader, its queue is empty, and it takes no more
than `k` steps before it has to wait. -/
structure Subscription.Draining (server : Server) (s : Subscription E) (c : CatchUp) (k : Nat) :
    Prop where
  closed_eq : s.closed = false
  queue_eq : s.queue = []
  capacity_pos : 0 < s.capacity
  settles_eq : s.loop.settles = false
  connection_eq : s.connection = some (.catchUp c)
  fresh : c.Fresh server
  place : s.loop.place = .reading ∧ 2 * c.backlog.length ≤ k ∧ (s.wait = none ∨ c.backlog = []) ∨
    ∃ position emission, s.loop.place = .emitting position emission ∧ 2 * c.backlog.length < k

namespace Subscription.Draining

variable {server : Server} {s : Subscription E} {c : CatchUp} {k : Nat}

omit [DomainEvent E] in
/-- When no steps are left, the loop reads and has nothing before it. -/
theorem of_zero (h : s.Draining server c 0) : s.loop.place = .reading ∧ c.backlog = [] := by
  rcases h.place with ⟨hplace, hk, -⟩ | ⟨_, _, -, hk⟩
  · exact ⟨hplace, List.length_eq_zero_iff.1 (by omega)⟩
  · exact absurd hk (Nat.not_lt_zero _)

/-- A reading loop waits, or asks its reader. -/
theorem step_of_reading (h : s.Draining server c k) (hplace : s.loop.place = .reading) :
    s.step server = none ∧ s.wait ≠ none ∨ s.step server =
      some (s.polled ((c.poll server).1, .catchUp (c.poll server).2, server)) := by
  have hcon : s.loop.isConnected = true := by rw [Loop.isConnected, hplace]
  cases hs : s.step server with
  | none =>
      refine .inl ⟨rfl, fun hwait => ?_⟩
      rcases (step_eq_none_of_reading h.closed_eq hplace).1 hs with hno | ⟨w, hw, -⟩
      · rw [h.connection_eq] at hno
        cases hno
      · rw [hwait] at hw
        cases hw
  | some x =>
      obtain ⟨s', server'⟩ := x
      rcases (step_cases hs).of_connected h.closed_eq hcon with
        ⟨connection, r, -, hc, hr, rfl, rfl⟩ | ⟨_, _, _, _, hother, -⟩ | ⟨_, _, hother, -⟩
      · rw [h.connection_eq, Option.some.injEq] at hc
        subst hc
        have hr : r = ((c.poll server).1, .catchUp (c.poll server).2, server) := hr.elim id id
        rw [hr]
        exact .inr rfl
      · rw [hplace] at hother
        cases hother
      · rw [hplace] at hother
        cases hother

/-- A record is put before the consumer, or passed over at once. -/
theorem received (h : s.Draining server c k) {d : Delivery} {rest : List Delivery}
    (hb : c.backlog = d :: rest) (hk : 2 * c.backlog.length ≤ k) {s' : Subscription E}
    (hs : s' = (s.polled (.delivery d, .catchUp { c with backlog := rest }, server)).1) :
    Draining server { s' with queue := s'.queue.tail } { c with backlog := rest } (k - 1) := by
  rw [hb, List.length_cons] at hk
  subst hs
  simp only [polled, Loop.polled]
  cases hv : (Verdict.of E d.record).delivered? with
  | some record =>
      have hloop : s.loop.received d =
          { s.loop with place := .emitting d.position ⟨record, d.ackId, d.retryCount⟩ } := by
        simp only [Loop.received, hv]
      simp only [hloop]
      exact { h with
        queue_eq := by simp [moveTo, h.queue_eq]
        connection_eq := rfl
        fresh := ⟨h.fresh.epoch_eq, h.fresh.next_eq⟩
        place := .inr ⟨_, _, rfl, by simp only; omega⟩ }
  | none =>
      have hloop : s.loop.received d = s.loop.passed d.position := by
        simp only [Loop.received, hv, h.settles_eq, Bool.false_eq_true, if_false]
      simp only [hloop]
      exact { h with
        queue_eq := by simp [moveTo, h.queue_eq]
        connection_eq := rfl
        fresh := ⟨h.fresh.epoch_eq, h.fresh.next_eq⟩
        place := .inl ⟨rfl, by simp only; omega, .inl rfl⟩ }

/-- What the subscription is after a step and after its consumer has asked for a record. -/
theorem step (h : s.Draining server c k) (hopen : server.closed = false) :
    (s.step server = none ∧ s.Draining server c (k - 1)) ∨
    ∃ s' c', s.step server = some (s', server) ∧
      Draining server { s' with queue := s'.queue.tail } c' (k - 1) := by
  rcases h.place with ⟨hplace, hk, hwait⟩ | ⟨position, emission, hplace, hk⟩
  · cases hb : c.backlog with
    | nil =>
        have hidle : 2 * c.backlog.length ≤ k - 1 := by
          rw [hb]
          exact Nat.zero_le _
        rcases h.step_of_reading hplace with ⟨hs, -⟩ | hs
        · exact .inl ⟨hs, { h with place := .inl ⟨hplace, hidle, .inr hb⟩ }⟩
        · rw [h.fresh.poll_nil hopen hb] at hs
          refine .inr ⟨_, c, hs, ?_⟩
          exact { h with
            queue_eq := by simp [h.queue_eq]
            connection_eq := rfl
            place := .inl ⟨hplace, hidle, .inr hb⟩ }
    | cons d rest =>
        have hnone : s.wait = none := hwait.resolve_right (by rw [hb]; exact List.cons_ne_nil _ _)
        have hs := (h.step_of_reading hplace).resolve_left fun hw => hw.2 hnone
        rw [h.fresh.poll_cons hb] at hs
        exact .inr ⟨_, _, hs, h.received hb hk rfl⟩
  · have hroom : s.queue.length < s.capacity := by
      rw [h.queue_eq]
      exact h.capacity_pos
    refine .inr ⟨_, c, step_of_emitting h.closed_eq hplace hroom, ?_⟩
    exact { h with
      queue_eq := by simp [moveTo, h.queue_eq]
      connection_eq := h.connection_eq
      place := .inl ⟨rfl, by omega, .inl rfl⟩ }

end Subscription.Draining

/-! ## Consumers that go on reading -/

namespace Follow

omit [DomainEvent E] in
theorem receive_snd {s : Subscription E} (hopen : s.closed = false) :
    s.receive.2 = { s with queue := s.queue.tail } := by
  obtain ⟨_, _, _, _, queue, _, _, closed⟩ := s
  obtain rfl : closed = false := hopen
  cases queue <;> rfl

variable {w : Follow E}

theorem act_receive (hopen : w.subscription.closed = false) :
    (w.act .receive).server = w.server ∧ (w.act .receive).subscription =
      { w.subscription with queue := w.subscription.queue.tail } := by
  rw [← receive_snd hopen]
  simp only [act]
  split
  · rename_i h
    rw [h]
    exact ⟨rfl, rfl⟩
  · rename_i h
    rw [h]
    exact ⟨rfl, rfl⟩

/-- A loop that runs, and a consumer that asks for a record each time. -/
def readings (n : Nat) : List Move := (List.replicate n [Move.run, .receive]).flatten

theorem Draining.round {server : Server} {c : CatchUp} {k : Nat} (hw : w.server = server)
    (hopen : server.closed = false) (h : w.subscription.Draining server c k) :
    ((w.act .run).act .receive).server = server ∧ ∃ c',
      ((w.act .run).act .receive).subscription.Draining server c' (k - 1) := by
  subst hw
  rcases h.step hopen with ⟨hs, hdrain⟩ | ⟨s', c', hs, hdrain⟩
  · have hrun : w.act .run = w := by simp only [act, hs]
    obtain ⟨hserver, hsub⟩ := act_receive h.closed_eq
    have hsame : ({ w.subscription with queue := w.subscription.queue.tail } : Subscription E) =
        w.subscription := by
      rw [h.queue_eq, List.tail_nil, ← h.queue_eq]
    rw [hrun, hserver, hsub, hsame]
    exact ⟨rfl, c, hdrain⟩
  · have hrun : (w.act .run).server = w.server ∧ (w.act .run).subscription = s' := by
      simp only [act, hs]
      exact ⟨trivial, trivial⟩
    have hclosed : (w.act .run).subscription.closed = false := by
      rw [hrun.2]
      exact hdrain.closed_eq
    obtain ⟨hserver, hsub⟩ := act_receive hclosed
    rw [hserver, hsub, hrun.1, hrun.2]
    exact ⟨rfl, c', hdrain⟩

theorem Draining.readings {server : Server} {c : CatchUp} {k : Nat} (hw : w.server = server)
    (hopen : server.closed = false) (h : w.subscription.Draining server c k) (n : Nat) :
    (w.after (readings n)).server = server ∧ ∃ c',
      (w.after (Follow.readings n)).subscription.Draining server c' (k - n) := by
  induction n generalizing w c k with
  | zero => exact ⟨hw, c, h⟩
  | succ n ih =>
      obtain ⟨hserver, c', hround⟩ := Draining.round hw hopen h
      have hrest := ih hserver hround
      rw [Nat.sub_sub, Nat.add_comm] at hrest
      exact hrest

/-- A subscription that is let in has all that its scope holds before it. -/
theorem draining_opened {server : Server} (hin : server.turnAways = 0) (source : Source)
    (bufferSize : Nat) (retry : Option RetrySettings) :
    let w : Follow E := ⟨server, .catchUp source none bufferSize retry, [], []⟩
    ((w.act .run).act .receive).server = server ∧ ∃ c,
      ((w.act .run).act .receive).subscription.Draining server c
        (2 * (server.log.entriesFrom (.ofName source.toStream) 0).length) := by
  intro w
  let scope := Scope.ofName source.toStream
  let c : CatchUp := ⟨scope, (server.log.entriesFrom scope 0).map fun a => .first a.1 a.2.record,
    server.log.written.size, server.epoch⟩
  have hconnect : Broker.connect server source.toStream none none =
      (.ok (.catchUp c), server) := by
    simp only [Broker.connect, Connection.openOn, CatchUp.openAt, Server.letIn, hin]
    rfl
  have hstep : w.subscription.step w.server = some ({ w.subscription with
      connection := some (.catchUp c) }.moveTo w.subscription.loop.opened, server) := by
    simp [w, Subscription.step, Subscription.catchUp, Subscription.start, Loop.catchUp, hconnect]
  have hrun : (w.act .run).server = server ∧ (w.act .run).subscription = { w.subscription with
      connection := some (.catchUp c) }.moveTo w.subscription.loop.opened := by
    simp only [act, hstep]
    exact ⟨trivial, trivial⟩
  have hlength : 2 * c.backlog.length ≤ 2 * (server.log.entriesFrom scope 0).length := by
    rw [List.length_map]
  obtain ⟨hserver, hsub⟩ := act_receive (w := w.act .run) (by rw [hrun.2]; rfl)
  rw [hserver, hsub, hrun.1, hrun.2]
  refine ⟨rfl, c, ⟨rfl, rfl, ?_, rfl, rfl, ⟨rfl, rfl⟩, .inl ⟨rfl, hlength, .inl rfl⟩⟩⟩
  exact Nat.lt_of_lt_of_le Nat.one_pos (Nat.le_max_right bufferSize 1)

/-- A subscription that is let in comes to the end of what its scope holds, if its consumer goes on
reading, and the consumer has received all that it has to get, once each and in order. -/
theorem caught_up {server : Server} (hc : server.log.Coherent) (hin : server.turnAways = 0)
    (hopen : server.closed = false) (source : Source)
    (hs : Text.hasPrefix tombstoneMark source.toStream = false) (bufferSize : Nat)
    (retry : Option RetrySettings) {n : Nat}
    (hn : 2 * (server.log.entriesFrom (.ofName source.toStream) 0).length < n) :
    let w : Follow E :=
      after ⟨server, .catchUp source none bufferSize retry, [], []⟩ (readings n)
    w.received = w.emitted.map (·.2) ∧ (w.emitted.map (·.1)).Pairwise (· < ·) ∧
    ∀ e ∈ server.log.history, ∀ p record, (Scope.ofName source.toStream).position? e = some p →
      Verdict.of E e.record = .deliver record → e.record.stream ∉ server.log.deleted →
      w.emitted.filter (fun x => x.1 = p) = [(p, .first record e.record.id)] := by
  intro w
  obtain ⟨position, h⟩ := (faithful_start (E := E) hc source none bufferSize retry).after
    (Scope.isSteady_ofName hs) (readings n)
  have hend : w.server = server ∧ ∃ c, w.subscription.Draining server c 0 := by
    obtain ⟨m, rfl⟩ : ∃ m, n = m + 1 := ⟨n - 1, by omega⟩
    obtain ⟨hserver, c, hfirst⟩ := draining_opened (E := E) hin source bufferSize retry
    have hend := Draining.readings hserver hopen hfirst m
    rwa [Nat.sub_eq_zero_of_le (Nat.le_of_lt_succ hn)] at hend
  obtain ⟨hserver, c, hdrain⟩ := hend
  obtain ⟨hplace, hbacklog⟩ := hdrain.of_zero
  -- The reader has nothing before it, so that nothing is left beyond the position of the loop.
  have hcon := h.connected
  rw [show w.subscription.loop.place = .reading from hplace] at hcon
  obtain ⟨c', hc', hahead⟩ := hcon
  rw [show w.subscription.connection = some (.catchUp c) from hdrain.connection_eq] at hc'
  cases hc'
  have hnothing : c.upcoming w.server.log = [] := by
    rw [hserver, hdrain.fresh.upcoming_eq, hbacklog]
  have hpending := hahead.pending
  rw [hnothing, List.append_nil] at hpending
  have hreceived := h.received
  rw [show w.subscription.queue = [] from hdrain.queue_eq, List.append_nil] at hreceived
  refine ⟨hreceived, h.emitted.sorted, fun e he p record hp hv hd => ?_⟩
  rw [← hserver] at he hd
  have hlt : p < position := by
    by_contra hge
    exact absurd (hpending.covers e he p hp (Nat.zero_le _) (Nat.not_lt.1 hge) hd) List.not_mem_nil
  exact h.emitted.filter_eq (h.emitted.complete e he p record hp (Nat.zero_le _) hlt hv hd)

end Follow

end EventSourcing
