import EventSourcing.Proofs.Group.Retention
import EventSourcing.Proofs.Subscription.Crew

/-!
# Closing a subscription

A consumer of a group closes its subscription, or loses its connection, at any moment. What its loop
was handed and nobody has settled is still with the group then, and neither the handle nor the loop
can do anything about it any more (`Custody.closing_settles_nothing`). What is noted of a run for this
makes no difference to it (`Custody.bare_after`).
-/

namespace EventSourcing

variable {E : Type}

/-! ## Watched servers -/

/-- What asking a connection for a record asks of the server. -/
def Connection.pollRequest : Connection → Request
  | .catchUp reader => .pollReader reader
  | .member m => .pollMember m

/-- What opening a connection asks of the server. -/
def Connection.openRequest (stream : String) (start : Option Nat) : Option String → Request
  | none => .openReader stream start
  | some group => .join stream group

/-- A server with what has come out of one of its groups. -/
structure Watch (stream group : String) where
  server : Server
  history : GroupHistory := {}

namespace Watch

variable {stream group : String}

def serve (b : Watch stream group) (r : Request) : Watch stream group where
  server := (b.server.serve r).2
  history := Server.note stream group b.history b.server r

instance : Broker (Watch stream group) where
  createGroup b stream group settings := (.ok (), b.serve (.createGroup stream group settings))
  connect b stream group start :=
    ((Connection.openOn b.server stream group start).1,
      b.serve (Connection.openRequest stream start group))
  ask b c := ((c.poll b.server).1, (c.poll b.server).2.1, b.serve c.pollRequest)
  askAgain b c := ((c.poll b.server).1, (c.poll b.server).2.1, b.serve c.pollRequest)
  ack b m ids := ((m.ack b.server ids).1, b.serve (.ack m ids))
  nack b m ids action :=
    ((m.nack b.server ids action).1, (m.nack b.server ids action).2.1,
      b.serve (.nack m ids action))
  signal b := b.server.signal
  now b := b.server.now

/-- To a subscription, a watched server is the server. -/
theorem forgets_history : Broker.Forgets fun b : Watch stream group => b.server where
  connect b stream group start := by cases group <;> rfl
  ask b c := by cases c <;> rfl
  askAgain b c := by cases c <;> rfl
  ack b m ids := rfl
  nack b m ids action := rfl
  signal b := rfl
  now b := rfl

end Watch

/-! ## Subscriptions in custody -/

/-- A subscription to a group of a watched server, with what its loop was handed. -/
structure Custody (E : Type) (stream group : String) where
  journal : Journal (Watch stream group)
  subscription : Subscription E

/-- What happens next. -/
inductive Custody.Move
  /-- Anybody asks the server for something. -/
  | serve (r : Request)
  /-- The loop takes a step, unless it has to wait. -/
  | run
  /-- The loop of a closed handle goes on with what it was about. -/
  | lag
  | receive
  | close
  | ack (id : RecordId)
  | nack (id : RecordId) (action : Refusal)

namespace Custody

variable {stream group : String}

def Move.isServe : Move → Bool
  | .serve _ => true
  | _ => false

def start (server : Server) (source : Source) (group : String) (bufferSize : Nat)
    (retry : Option RetrySettings) : Custody E source.toStream group where
  journal := ⟨⟨server, {}⟩, [], [], []⟩
  subscription := .persistent source group bufferSize retry

def server (w : Custody E stream group) : Server := w.journal.client.server

def history (w : Custody E stream group) : GroupHistory := w.journal.client.history

/-- What is made of it by a loop that goes on, unless it has to wait. -/
def proceed [DomainEvent E] (w : Custody E stream group) (s : Subscription E) :
    Custody E stream group :=
  match s.step w.journal with
  | some (s', journal) => ⟨journal, { s' with closed := w.subscription.closed }⟩
  | none => w

def act [DomainEvent E] (w : Custody E stream group) : Move → Custody E stream group
  | .serve r => { w with journal := { w.journal with client := w.journal.client.serve r } }
  | .run => w.proceed w.subscription
  | .lag => w.proceed { w.subscription with closed := false }
  | .receive => { w with subscription := w.subscription.receive.2 }
  | .close => { w with subscription := w.subscription.close }
  | .ack id => { w with journal := (w.subscription.ack w.journal id).2 }
  | .nack id action =>
    let (_, s, journal) := w.subscription.nack w.journal id action
    ⟨journal, s⟩

def after [DomainEvent E] (w : Custody E stream group) (moves : List Move) :
    Custody E stream group :=
  moves.foldl act w

/-- Whether the handle is closed and its loop has come to its end. -/
def IsOver (w : Custody E stream group) : Prop :=
  w.subscription.closed = true ∧ w.subscription.loop.result?.isSome = true

/-! ## Without the notes -/

/-- A subscription and the server that it is over. -/
structure Bare (E : Type) where
  server : Server
  subscription : Subscription E

namespace Bare

def start (server : Server) (source : Source) (group : String) (bufferSize : Nat)
    (retry : Option RetrySettings) : Bare E :=
  ⟨server, .persistent source group bufferSize retry⟩

def proceed [DomainEvent E] (b : Bare E) (s : Subscription E) : Bare E :=
  match s.step b.server with
  | some (s', server) => ⟨server, { s' with closed := b.subscription.closed }⟩
  | none => b

def act [DomainEvent E] (b : Bare E) : Move → Bare E
  | .serve r => { b with server := (b.server.serve r).2 }
  | .run => b.proceed b.subscription
  | .lag => b.proceed { b.subscription with closed := false }
  | .receive => { b with subscription := b.subscription.receive.2 }
  | .close => { b with subscription := b.subscription.close }
  | .ack id => { b with server := (b.subscription.ack b.server id).2 }
  | .nack id action =>
    let (_, s, server) := b.subscription.nack b.server id action
    ⟨server, s⟩

def after [DomainEvent E] (b : Bare E) (moves : List Move) : Bare E := moves.foldl act b

end Bare

/-- What is there besides the notes. -/
def bare (w : Custody E stream group) : Bare E := ⟨w.server, w.subscription⟩

theorem forgets_ghosts : Broker.Forgets fun j : Journal (Watch stream group) => j.client.server :=
  Watch.forgets_history.comp Journal.forgets_notes

section Bare

variable [DomainEvent E] (w : Custody E stream group)

theorem bare_proceed (s : Subscription E) : (w.proceed s).bare = w.bare.proceed s := by
  have hstep : s.step w.bare.server = (s.step w.journal).map fun r => (r.1, r.2.client.server) :=
    s.step_forgets forgets_ghosts w.journal
  simp only [proceed, Bare.proceed, hstep]
  cases s.step w.journal <;> rfl

theorem bare_act (move : Move) : (w.act move).bare = w.bare.act move := by
  cases move with
  | serve r => rfl
  | run => exact w.bare_proceed w.subscription
  | lag => exact w.bare_proceed _
  | receive => rfl
  | close => rfl
  | ack id =>
      have hack := w.subscription.ack_forgets forgets_ghosts w.journal id
      simp only [act, Bare.act, bare, server, hack]
  | nack id action =>
      have hnack := w.subscription.nack_forgets forgets_ghosts w.journal id action
      simp only [act, Bare.act, bare, server, hnack]

/-- What is noted beside the server makes no difference to a run. -/
theorem bare_after (moves : List Move) : (w.after moves).bare = w.bare.after moves := by
  induction moves generalizing w with
  | nil => rfl
  | cons move moves ih =>
      show ((w.act move).after moves).bare = (w.bare.act move).after moves
      rw [ih, bare_act]

end Bare

end Custody

/-! ## The invariant -/

theorem Server.handedOut_subset_note (stream group : String) (h : GroupHistory) (s : Server)
    (r : Request) : h.handedOut ⊆ (note stream group h s r).handedOut := by
  unfold note
  split
  · split
    · unfold GroupHistory.note
      split
      · exact List.subset_append_left _ _
      · exact List.Subset.refl _
      · exact List.Subset.refl _
      · exact List.Subset.refl _
    · exact List.Subset.refl _
  · exact List.Subset.refl _

/-- What the loop has put into the queue, or is about to. -/
def Subscription.inHand (s : Subscription E) : List (Emission E) :=
  s.queue ++ s.loop.place.emission?.toList

theorem Loop.emission?_of_not_connected {l : Loop E} (h : l.isConnected = false) :
    l.place.emission? = none := by
  cases hp : l.place with
  | emitting position emission => simp [isConnected, hp] at h
  | _ => rfl

theorem Loop.emission?_polled [DomainEvent E] {l : Loop E} (hplace : l.place = .reading) {p : Poll}
    {x : Emission E} (hx : (l.polled p).place.emission? = some x) :
    ∃ d, p.delivery? = some d ∧ x.ackId = d.ackId := by
  cases p with
  | ended => cases hx
  | pending =>
      simp only [Loop.polled, hplace] at hx
      cases hx
  | failed e =>
      rw [Loop.polled, emission?_of_not_connected (l.failed_disconnects e).isConnected] at hx
      cases hx
  | delivery d =>
      simp only [Loop.polled, Loop.received] at hx
      cases hv : (Verdict.of E d.record).delivered? with
      | some record =>
          simp only [hv, Place.emission?, Option.some.injEq] at hx
          exact ⟨d, rfl, by rw [← hx]⟩
      | none =>
          simp only [hv] at hx
          cases hs : l.settles <;> simp [hs, Place.emission?, Loop.passed] at hx

namespace Custody

variable {stream group : String}

/-- The group retains what it has handed out, to the loop as well. -/
structure Kept (j : Journal (Watch stream group)) : Prop where
  retains : j.client.server.Retains stream group j.client.history
  delivered : ackIds j.deliveries ⊆ ackIds j.client.history.handedOut

namespace Kept

variable {j : Journal (Watch stream group)} (h : Kept j)

include h

theorem served (r : Request) (acks : List (List RecordId × Except LogError Unit)) :
    Kept { j with client := j.client.serve r, acks := acks } where
  retains := h.retains.serve r
  delivered := List.Subset.trans h.delivered (List.map_subset _ (Server.handedOut_subset_note ..))

theorem polled {m : Member} (hkey : m.stream = stream ∧ m.group = group) :
    Kept (j.note
      ((m.poll j.client.server).1, .member m, j.client.serve (.pollMember m))).2.2 where
  retains := by
    rw [j.note_client]
    exact h.retains.serve (.pollMember m)
  delivered := by
    have hhistory : (j.client.serve (.pollMember m)).history.handedOut =
        j.client.history.handedOut ++ (m.poll j.client.server).1.delivery?.toList :=
      congrArg GroupHistory.handedOut (Server.note_pollMember hkey)
    rw [j.note_client, j.note_deliveries, hhistory]
    simp only [ackIds, List.map_append]
    exact List.append_subset.2
      ⟨List.Subset.trans h.delivered (List.subset_append_left _ _), List.subset_append_right _ _⟩

end Kept

/-- All that is in the hands of a subscription to the group was handed out to its loop. -/
structure Sound (w : Custody E stream group) : Prop where
  kept : Kept w.journal
  reads : w.subscription.Reads stream group
  inHand : ∀ x ∈ w.subscription.inHand, x.ackId ∈ ackIds w.journal.deliveries

namespace Sound

variable {w : Custody E stream group} {s' : Subscription E} {j : Journal (Watch stream group)}

theorem served (h : w.Sound) (r : Request) (acks : List (List RecordId × Except LogError Unit)) :
    Sound { w with journal := { w.journal with client := w.journal.client.serve r, acks := acks } } :=
  { h with kept := h.kept.served r acks }

variable [DomainEvent E]

theorem stepped (h : w.Sound) (hs : w.subscription.Stepped w.journal s' j) :
    Sound (⟨j, s'⟩ : Custody E stream group) := by
  have hconnect : Broker.connect w.journal w.subscription.stream w.subscription.group
      w.subscription.loop.start = ((Member.connect w.server stream group).1.map .member,
        { w.journal with client := w.journal.client.serve (.join stream group) }) := by
    rw [h.reads.stream_eq, h.reads.group_eq]
    rfl
  suffices hnext : Kept j ∧ ∀ x ∈ s'.inHand, x.ackId ∈ ackIds j.deliveries from
    ⟨hnext.1, h.reads.stepped forgets_ghosts hs, hnext.2⟩
  have hqueue : ∀ x ∈ w.subscription.queue, x.ackId ∈ ackIds w.journal.deliveries :=
    fun x hx => h.inHand x (List.mem_append_left _ hx)
  -- A loop that moves to a place without a record in hand leaves the queue as it is.
  have hempty {l : Loop E} (hl : l.place.emission? = none) :
      ∀ x ∈ (w.subscription.moveTo l).inHand, x.ackId ∈ ackIds w.journal.deliveries := by
    intro x hx
    rw [Subscription.inHand, show (w.subscription.moveTo l).loop = l from rfl, hl,
      Option.toList_none, List.append_nil] at hx
    exact hqueue x hx
  cases hs with
  | stopped hclosed => exact ⟨h.kept, hempty rfl⟩
  | connected hplace hc =>
      obtain ⟨-, rfl⟩ := Prod.mk.inj (hconnect.symm.trans hc)
      exact ⟨h.kept.served _ _, hempty rfl⟩
  | refused hplace hc =>
      obtain ⟨-, rfl⟩ := Prod.mk.inj (hconnect.symm.trans hc)
      exact ⟨h.kept.served _ _, hempty (Loop.emission?_of_not_connected
        (w.subscription.loop.failed_disconnects _).isConnected)⟩
  | @polled _ r hplace hc hr =>
      obtain ⟨m, rfl, hkey⟩ := h.reads.member _ hc
      obtain rfl : r = w.journal.note
        ((m.poll w.server).1, .member m, w.journal.client.serve (.pollMember m)) := hr.elim id id
      rw [Subscription.polled_client]
      refine ⟨h.kept.polled hkey, fun x hx => ?_⟩
      rw [Journal.note_deliveries, ackIds, List.map_append, List.mem_append]
      rw [Subscription.inHand, Subscription.polled_queue, Subscription.polled_loop,
        (w.journal.note_poll _).1, List.mem_append, Option.mem_toList] at hx
      refine hx.imp (hqueue x) fun hx => ?_
      obtain ⟨d, hd, hid⟩ := Loop.emission?_polled hplace hx
      rw [hid, hd]
      exact List.mem_singleton_self d.ackId
  | @settled position id m _ _ hplace hm hr =>
      obtain ⟨rfl, rfl⟩ := Prod.mk.inj hr
      refine ⟨h.kept.served _ _, hempty ?_⟩
      rcases w.subscription.loop.settled_cases position _ with ⟨-, hl⟩ | ⟨-, hl⟩
      · rw [hl]
        rfl
      · exact Loop.emission?_of_not_connected hl.isConnected
  | @queued position emission hplace hroom =>
      refine ⟨h.kept, fun x hx => h.inHand x ?_⟩
      rw [Subscription.inHand, hplace]
      simpa [Subscription.inHand, Subscription.moveTo, Loop.passed, Place.emission?] using hx
  | paused hplace wait => exact ⟨h.kept, h.inHand⟩
  | rested hplace => exact ⟨h.kept, hempty rfl⟩

theorem proceed (h : w.Sound) (closed : Bool) :
    (w.proceed { w.subscription with closed := closed }).Sound := by
  have hstart : Sound { w with subscription := { w.subscription with closed := closed } } :=
    { h with reads := { h.reads with } }
  unfold Custody.proceed
  split
  · rename_i s j hstep
    have hnext := hstart.stepped (Subscription.step_cases hstep)
    exact { hnext with reads := { hnext.reads with } }
  · exact h

theorem ack (h : w.Sound) (id : RecordId) : (w.act (.ack id)).Sound := by
  rcases w.subscription.ack_eq w.journal id with ⟨e, he⟩ | ⟨m, -, he⟩
  · simp only [Custody.act, he]
    exact h
  · simp only [Custody.act, he]
    exact h.served (.ack m [id]) _

theorem nack (h : w.Sound) (id : RecordId) (action : Refusal) : (w.act (.nack id action)).Sound := by
  have hreads := h.reads.nack forgets_ghosts w.journal id action
  rcases w.subscription.nack_eq w.journal id action with ⟨e, he⟩ | ⟨m, -, he⟩
  · simp only [Custody.act, he]
    exact h
  · rw [he] at hreads
    simp only [Custody.act, he]
    exact { h.served (.nack m [id] action) w.journal.acks with reads := hreads }

theorem receive (h : w.Sound) : (w.act .receive).Sound := by
  rcases w.subscription.receive_eq with ⟨x, rest, hq, hr⟩ | ⟨-, hr⟩
  · simp only [Custody.act, hr]
    refine { h with reads := { h.reads with }, inHand := fun y hy => h.inHand y ?_ }
    rw [Subscription.inHand, hq]
    exact List.mem_cons_of_mem x hy
  · simp only [Custody.act, hr]
    exact h

theorem act (h : w.Sound) (move : Move) : (w.act move).Sound := by
  cases move with
  | serve r => exact h.served r w.journal.acks
  | run => exact h.proceed w.subscription.closed
  | lag => exact h.proceed false
  | receive => exact h.receive
  | close => exact { h with reads := { h.reads with } }
  | ack id => exact h.ack id
  | nack id action => exact h.nack id action

theorem after (h : w.Sound) (moves : List Move) : (w.after moves).Sound := by
  induction moves generalizing w with
  | nil => exact h
  | cons move moves ih => exact ih (h.act move)

end Sound

/-! ## Closed subscriptions -/

section Over

variable {w : Custody E stream group}

theorem sound_start (now : Nat) (before : List Request) (source : Source) (group : String)
    (bufferSize : Nat) (retry : Option RetrySettings) :
    (start ((Server.start now).after before) source group bufferSize retry :
      Custody E source.toStream group).Sound where
  kept := by
    have ht := (Server.timed_start source.toStream group now).after before
    exact ⟨⟨⟨_, ht⟩, fun id hid => by cases hid⟩, List.Subset.refl _⟩
  reads := ⟨rfl, rfl, fun c hc => by cases hc⟩
  inHand x hx := by cases hx

theorem IsOver.ackReader (h : w.IsOver) : w.subscription.ackReader = .error .closed :=
  if_pos h.1

theorem IsOver.receive (h : w.IsOver) : w.subscription.receive = (.ended, w.subscription) :=
  if_pos h.1

variable [DomainEvent E]

/-- A loop that has come to its end takes no step, whatever its handle says. -/
theorem IsOver.step_eq_none (h : w.IsOver) (closed : Bool) :
    ({ w.subscription with closed := closed } : Subscription E).step w.journal = none := by
  obtain ⟨result, hr⟩ := Option.isSome_iff_exists.1 h.2
  cases hp : w.subscription.loop.place with
  | finished r => simp only [Subscription.step, hp]
  | _ => simp [Loop.result?, hp] at hr

/-- The next step of a loop whose handle is closed is its last one. -/
theorem run_of_closed (h : w.subscription.closed = true) :
    (w.act .run).IsOver ∧ (w.act .run).journal = w.journal := by
  simp only [act, proceed]
  cases hr : w.subscription.loop.result? with
  | some result =>
      have hover : w.IsOver := ⟨h, by rw [hr]; rfl⟩
      rw [show w.subscription.step w.journal = none from hover.step_eq_none w.subscription.closed]
      exact ⟨hover, rfl⟩
  | none =>
      have hstep : w.subscription.step w.journal =
          some (w.subscription.moveTo w.subscription.loop.stop, w.journal) := by
        unfold Subscription.step
        split
        · rename_i result hp
          simp [Loop.result?, hp] at hr
        · rw [if_pos h]
      rw [hstep]
      exact ⟨⟨h, rfl⟩, rfl⟩

/-- Neither the handle nor the loop does anything any more. -/
theorem IsOver.act (h : w.IsOver) {move : Move} (hm : move.isServe = false) : w.act move = w := by
  cases move with
  | serve r => cases hm
  | run =>
      simp only [Custody.act, proceed]
      rw [show w.subscription.step w.journal = none from h.step_eq_none w.subscription.closed]
  | lag => simp only [Custody.act, proceed, h.step_eq_none]
  | receive => simp only [Custody.act, h.receive]
  | close =>
      have hclosed : w.subscription.close = w.subscription := by
        unfold Subscription.close
        rw [← h.1]
      simp only [Custody.act, hclosed]
  | ack id => simp only [Custody.act, Subscription.ack, h.ackReader]
  | nack id action => simp only [Custody.act, Subscription.nack, h.ackReader]

theorem IsOver.serve (h : w.IsOver) (r : Request) : (w.act (.serve r)).IsOver := h

theorem IsOver.after (h : w.IsOver) (later : List Move) :
    w.after later = w.after (later.filter Move.isServe) := by
  induction later generalizing w with
  | nil => rfl
  | cons move later ih =>
      cases hm : move.isServe with
      | true =>
          obtain ⟨r, rfl⟩ : ∃ r, move = .serve r := by
            cases move with
            | serve r => exact ⟨r, rfl⟩
            | _ => cases hm
          rw [List.filter_cons_of_pos hm]
          exact ih (h.serve r)
      | false =>
          rw [List.filter_cons_of_neg (by simp [hm])]
          have hsame : w.after (move :: later) = w.after later := congrArg (·.after later) (h.act hm)
          rw [hsame]
          exact ih h

end Over

/-! ## The main result -/

/-- A run is that of the subscription over the server, with notes of what has come of it. At any
moment, what the loop was handed and what waits in its queue is still with the group, unless somebody
has acknowledged or skipped it. Closing asks nothing of the server; once the loop
has ended, the handle answers that it is closed and only others make a difference. And who was
connected before connections were dropped settles nothing after it. -/
theorem closing_settles_nothing [DomainEvent E] (now : Nat) (before : List Request)
    (source : Source) (group : String) (bufferSize : Nat) (retry : Option RetrySettings)
    (moves : List Move) :
    let w : Custody E source.toStream group :=
      (start ((Server.start now).after before) source group bufferSize retry).after moves
    let closed := (w.act .close).act .run
    w.bare = (Bare.start ((Server.start now).after before) source group bufferSize retry).after
      moves ∧
    (∀ id ∈ ackIds w.journal.deliveries ++ w.subscription.queue.map (·.ackId),
      id ∈ w.history.acknowledged ∨ id ∈ w.history.skipped ∨
        w.server.Holds source.toStream group id) ∧
    (closed.IsOver ∧ closed.journal = w.journal ∧
      (w.act .close).act .close = w.act .close) ∧
    (w.IsOver → w.subscription.receive.1 = .ended ∧
      (∀ id, (w.subscription.ack w.journal id).1 = .error .closed ∧
        ∀ action, (w.subscription.nack w.journal id action).1 = .error .closed) ∧
      ∀ later, w.after later = w.after (later.filter Move.isServe)) ∧
    ∀ stream' group' m s', Member.connect w.server stream' group' = (.ok m, s') →
      ∀ rs later stopped,
        let lost : Member := { m with stopped := stopped }
        let t := s'.after (rs ++ .disconnectAll :: later)
        (∀ ids, lost.ack t ids = (.error (.subscriptionDropped "connection reset"), t)) ∧
        ∀ ids action,
          lost.nack t ids action = (.error (.subscriptionDropped "connection reset"), lost, t) := by
  intro w closed
  have hw : w.Sound := (sound_start now before source group bufferSize retry).after moves
  refine ⟨bare_after _ moves, fun id hid => ?_, ?_, fun hover => ?_, ?_⟩
  · have hdelivered : id ∈ ackIds w.journal.deliveries := by
      rcases List.mem_append.1 hid with hid | hid
      · exact hid
      · obtain ⟨x, hx, rfl⟩ := List.mem_map.1 hid
        exact hw.inHand x (List.mem_append_left _ hx)
    exact hw.kept.retains.retained id (hw.kept.delivered hdelivered)
  · have hclosed : (w.act .close).subscription.closed = true := rfl
    obtain ⟨hover, hjournal⟩ := run_of_closed hclosed
    exact ⟨hover, hjournal, rfl⟩
  · refine ⟨by rw [hover.receive], fun id => ⟨?_, fun action => ?_⟩, hover.after⟩
    · simp only [Subscription.ack, hover.ackReader]
    · simp only [Subscription.nack, hover.ackReader]
  · intro stream' group' m s' hc rs later stopped lost t
    have hepoch : m.epoch ≤ s'.epoch := Nat.le_of_eq (Server.connect_epoch hc)
    have hlost : lost.epoch < t.epoch := Server.lt_epoch_of_disconnectAll hepoch rs later
    exact ⟨fun ids => Server.ack_of_lost hlost ids,
      fun ids action => Server.nack_of_lost hlost ids action⟩

/-- A loop settles a record that does not decode, the consumer acknowledges the next one and leaves
one in the queue, and closes while the loop has a last one in hand. -/
def fullRun : List Move :=
  [.run, .run, .run, .run, .run, .receive, .ack 1, .run, .run, .run, .close, .run]

theorem closing_settles_nothing_fullRun :
    let before : List Request := [.createGroup "account-1" "readers" {},
      .call (.append "account-1" .any [⟨"Renamed", [], []⟩, ⟨"AccountClosed", [0], []⟩,
        ⟨"AccountClosed", [1], []⟩, ⟨"AccountClosed", [2], []⟩])]
    let w : Custody Domain.AccountEvent "account-1" "readers" :=
      (start ((Server.start 0).after before) (.stream "account-1") "readers" 1 none).after fullRun
    let m : Member := ⟨"account-1", "readers", 0, false⟩
    w.IsOver ∧ ackIds w.journal.deliveries = [0, 1, 2, 3] ∧
    w.subscription.queue.map (·.ackId) = [2] ∧ w.history.acknowledged = [0, 1] ∧
    w.history.skipped = [] ∧
    w.server.Holds "account-1" "readers" 2 ∧ w.server.Holds "account-1" "readers" 3 ∧
    w.after [.lag, .ack 2, .receive, .run] = w ∧
    (Member.connect w.server "account-1" "readers").1 = .ok m ∧
    (m.ack ((Member.connect w.server "account-1" "readers").2.after [.disconnectAll]) [2]).1 =
      .error (.subscriptionDropped "connection reset") := by
  intro before w m
  have h := closing_settles_nothing (E := Domain.AccountEvent) 0 before (.stream "account-1")
    "readers" 1 none fullRun
  have hover : w.IsOver := ⟨by decide +kernel, by decide +kernel⟩
  have hdelivered : ackIds w.journal.deliveries = [0, 1, 2, 3] := by decide +kernel
  have hqueue : w.subscription.queue.map (·.ackId) = [2] := by decide +kernel
  have hacknowledged : w.history.acknowledged = [0, 1] := by decide +kernel
  have hskipped : w.history.skipped = [] := by decide +kernel
  have hheld (id : RecordId) (hid : id ∈ [0, 1, 2, 3] ++ [2]) (hn : id ∉ [0, 1]) :
      w.server.Holds "account-1" "readers" id := by
    have hid : id ∈ w.history.acknowledged ∨ id ∈ w.history.skipped ∨
        w.server.Holds "account-1" "readers" id :=
      h.2.1 id (by rw [hdelivered, hqueue]; exact hid)
    rw [hacknowledged, hskipped] at hid
    exact (hid.resolve_left hn).resolve_left List.not_mem_nil
  have hidle : w.after [.lag, .ack 2, .receive, .run] = w.after [] :=
    (h.2.2.2.1 hover).2.2 [.lag, .ack 2, .receive, .run]
  have hconnect : (Member.connect w.server "account-1" "readers").1 = .ok m := by decide +kernel
  have hopen : Member.connect w.server "account-1" "readers" =
      (.ok m, (Member.connect w.server "account-1" "readers").2) :=
    (Prod.eta _).symm.trans (by rw [hconnect])
  have hlost := h.2.2.2.2 "account-1" "readers" m _ hopen [] [] false
  exact ⟨hover, hdelivered, hqueue, hacknowledged, hskipped,
    hheld 2 (by decide) (by decide), hheld 3 (by decide) (by decide),
    hidle.trans List.foldl_nil, hconnect, congrArg Prod.fst (hlost.1 [2])⟩

end Custody

end EventSourcing
