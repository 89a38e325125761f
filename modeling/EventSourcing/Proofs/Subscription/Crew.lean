import EventSourcing.Proofs.Group.History
import EventSourcing.Proofs.Subscription.Filtering

/-!
# The consumers of a group

Any number of consumers that read one group through subscriptions, while others use the same server
for anything but that group. What the group remembers as acknowledged was acknowledged by a consumer,
or did not decode and was settled by a loop; all else that it has reached stays with it
(`Crew.settled_by_consumers`).
-/

namespace EventSourcing

variable {E : Type}

/-! ## Crews -/

/-- What the consumers of a group, and others, have made of its server. -/
structure Ledger where
  /-- What the loops were handed, and what they have settled. -/
  journal : Journal Server
  /-- What consumers have acknowledged. -/
  acknowledged : List RecordId := []
  /-- What consumers have skipped. -/
  skipped : List RecordId := []

/-- A consumer, with what it has received. -/
structure Seat (E : Type) where
  subscription : Subscription E
  received : List (Emission E) := []

structure Crew (E : Type) where
  ledger : Ledger
  seats : List (Seat E) := []

/-- What a consumer or its loop does. -/
inductive Seat.Move
  /-- The loop takes a step, unless it has to wait. -/
  | run
  /-- The loop of a closed handle goes on with what it was about. -/
  | lag
  | receive
  | close
  | ack (id : RecordId)
  | nack (id : RecordId) (action : Refusal)

/-- What happens next. -/
inductive Crew.Move (stream group : String)
  /-- Something is asked of the server, but not for the group. -/
  | serve (r : Request) (foreign : r.IsForeign stream group)
  /-- One more consumer subscribes. -/
  | subscribe (bufferSize : Nat) (retry : Option RetrySettings)
  | seat (number : Nat) (move : Seat.Move)

namespace Ledger

def server (b : Ledger) : Server := b.journal.client

def setServer (b : Ledger) (server : Server) : Ledger :=
  { b with journal := { b.journal with client := server } }

end Ledger

/-- What a loop makes of a ledger when it goes on, unless it has to wait. -/
def Seat.proceed [DomainEvent E] (seat : Seat E) (b : Ledger) (s : Subscription E) :
    Seat E × Ledger :=
  match s.step b.journal with
  | some (s', journal) =>
    ({ seat with subscription := { s' with closed := seat.subscription.closed } },
      { b with journal := journal })
  | none => (seat, b)

def Seat.act [DomainEvent E] (seat : Seat E) (b : Ledger) : Move → Seat E × Ledger
  | .run => seat.proceed b seat.subscription
  | .lag => seat.proceed b { seat.subscription with closed := false }
  | .receive =>
    match seat.subscription.receive with
    | (.record e, s) => (⟨s, seat.received ++ [e]⟩, b)
    | (_, s) => ({ seat with subscription := s }, b)
  | .close => ({ seat with subscription := seat.subscription.close }, b)
  | .ack id =>
    let (r, server) := seat.subscription.ack b.server id
    (seat, { b.setServer server with
      acknowledged := b.acknowledged ++ if r.isOk then [id] else [] })
  | .nack id action =>
    let (r, s, server) := seat.subscription.nack b.server id action
    ({ seat with subscription := s }, { b.setServer server with
      skipped := b.skipped ++ if action = .skip ∧ r.isOk then [id] else [] })

namespace Crew

variable {stream group : String}

def start (now : Nat) : Crew E := ⟨⟨⟨Server.start now, [], [], []⟩, [], []⟩, []⟩

def act [DomainEvent E] (w : Crew E) : Move stream group → Crew E
  | .serve r _ => { w with ledger := w.ledger.setServer (w.ledger.server.serve r).2 }
  | .subscribe bufferSize retry =>
    { w with seats := w.seats ++ [⟨.persistent (.stream stream) group bufferSize retry, []⟩] }
  | .seat number move =>
    match w.seats[number]? with
    | some seat =>
      let (seat, ledger) := seat.act w.ledger move
      ⟨ledger, w.seats.set number seat⟩
    | none => w

def after [DomainEvent E] (w : Crew E) (moves : List (Move stream group)) : Crew E :=
  moves.foldl act w

end Crew

theorem Journal.note_deliveries {σ : Type} (j : Journal σ) (r : Poll × Connection × σ) :
    (j.note r).2.2.deliveries = j.deliveries ++ r.1.delivery?.toList := by
  obtain ⟨p, c, client⟩ := r
  cases p <;> simp [note, Poll.delivery?]

theorem Server.connection_of_connect {s : Server} {stream group : String} {c : Connection}
    (h : (Member.connect s stream group).1.map .member = .ok c) :
    ∃ m, c = .member m ∧ m.stream = stream ∧ m.group = group := by
  cases hm : (Member.connect s stream group).1 with
  | error e =>
      rw [hm] at h
      cases h
  | ok m =>
      rw [hm] at h
      exact ⟨m, (Except.ok.inj h).symm, connect_eq_ok hm⟩

/-! ## Readers of a group -/

/-- Whether a subscription is one to the group, and is connected to nothing else. -/
structure Subscription.Reads (stream group : String) (s : Subscription E) : Prop where
  stream_eq : s.stream = stream
  group_eq : s.group = some group
  member : ∀ c, s.connection = some c →
    ∃ m, c = .member m ∧ m.stream = stream ∧ m.group = group

namespace Subscription.Reads

variable {stream group : String} {s s' : Subscription E}

theorem stepped [DomainEvent E] {σ : Type} [Broker σ] {f : σ → Server} (hf : Broker.Forgets f)
    {client client' : σ} (h : s.Reads stream group) (hs : s.Stepped client s' client') :
    s'.Reads stream group := by
  obtain ⟨hstream, hgroup, -⟩ := hs.frame
  refine ⟨hstream.trans h.stream_eq, hgroup.trans h.group_eq, hs.connection h.member ?_ ?_⟩
  · intro c hc
    have hconnect := congrArg Prod.fst (hf.connect client stream (some group) s.loop.start)
    rw [h.stream_eq, h.group_eq, ← hconnect] at hc
    exact Server.connection_of_connect hc
  · rintro _ ⟨m, rfl, hkey⟩
    have hask := congrArg (·.2.1) (hf.ask client (.member m))
    have hagain := congrArg (·.2.1) (hf.askAgain client (.member m))
    exact ⟨⟨m, hask.symm, hkey⟩, ⟨m, hagain.symm, hkey⟩⟩

/-- The member through which a consumer settles records is one of the group. -/
theorem of_ackReader (h : s.Reads stream group) {m : Member} (hm : s.ackReader = .ok m) :
    m.stream = stream ∧ m.group = group := by
  obtain ⟨m', hm', hkey⟩ := h.member _ (connection_of_ackReader hm)
  obtain rfl := Connection.member.inj hm'
  exact hkey

theorem nack {σ : Type} [Broker σ] {f : σ → Server} (hf : Broker.Forgets f)
    (h : s.Reads stream group) (client : σ) (id : RecordId) (action : Refusal) :
    (s.nack client id action).2.1.Reads stream group := by
  rcases s.nack_eq client id action with ⟨e, he⟩ | ⟨m, hm, he⟩
  · rw [he]
    exact h
  · rw [he]
    refine { h with member := fun c hc => ?_ }
    obtain rfl := Option.some.inj hc
    have hnack : (m.nack (f client) [id] action).2.1 = (Broker.nack client m [id] action).2.1 :=
      congrArg (·.2.1) (hf.nack client m [id] action)
    obtain ⟨hstream, hgroup⟩ := (f client).nack_key m [id] action
    obtain ⟨hms, hmg⟩ := h.of_ackReader hm
    rw [hnack] at hstream hgroup
    exact ⟨_, rfl, hstream.trans hms, hgroup.trans hmg⟩

end Subscription.Reads

/-! ## The invariant -/

/-- Whether an emission shows a record that was written. -/
def Log.Shows [DomainEvent E] (log : Log) (x : Emission E) : Prop :=
  ∃ e ∈ log.history, e.record.id = x.ackId ∧ Verdict.of E e.record = .deliver x.record

/-- Whether the id is that of a record that no consumer gets. -/
def Log.Hides (E : Type) [DomainEvent E] (log : Log) (id : RecordId) : Prop :=
  ∃ e ∈ log.history, e.record.id = id ∧ (Verdict.of E e.record).isHidden = true

/-- Whether what a loop has in hand was written, and is dealt with as it has to be. -/
def Place.IsGenuine [DomainEvent E] (log : Log) : Place E → Prop
  | .emitting _ x => log.Shows x
  | .settling _ id => log.Hides E id
  | _ => True

section Invariant

variable [DomainEvent E] (stream group : String)

/-- The consumer reads the group, and has got just what it was to get. -/
structure Seat.Sound (log : Log) (seat : Seat E) : Prop where
  stream_eq : seat.subscription.stream = stream
  group_eq : seat.subscription.group = some group
  member : ∀ c, seat.subscription.connection = some c →
    ∃ m, c = .member m ∧ m.stream = stream ∧ m.group = group
  place : seat.subscription.loop.place.IsGenuine log
  shown : ∀ x ∈ seat.received ++ seat.subscription.queue, log.Shows x

/-- All that has come out of the group is in the ledger. -/
structure Ledger.Sound (E : Type) [DomainEvent E] (h : GroupHistory) (b : Ledger) : Prop where
  accounted : b.server.Accounted stream group h
  handedOut : h.handedOut = b.journal.deliveries
  acknowledged : ∀ id ∈ h.acknowledged, id ∈ b.acknowledged ∨
    ([id], .ok ()) ∈ b.journal.acks ∧ b.server.log.Hides E id
  skipped : h.skipped ⊆ b.skipped

structure Crew.Sound (w : Crew E) : Prop where
  ledger : ∃ h, w.ledger.Sound stream group E h
  seats : ∀ seat ∈ w.seats, seat.Sound stream group w.ledger.server.log

end Invariant

section Steps

variable [DomainEvent E] {stream group : String} {log log' : Log} {b : Ledger} {h : GroupHistory}

theorem Log.Shows.mono {x : Emission E} (hx : log.Shows x) (hl : log.history <+: log'.history) :
    log'.Shows x := by
  obtain ⟨e, he, hv⟩ := hx
  exact ⟨e, hl.subset he, hv⟩

theorem Log.Hides.mono {id : RecordId} (hid : log.Hides E id)
    (hl : log.history <+: log'.history) : log'.Hides E id := by
  obtain ⟨e, he, hv⟩ := hid
  exact ⟨e, hl.subset he, hv⟩

theorem Seat.Sound.mono {seat : Seat E} (hs : seat.Sound stream group log)
    (hl : log.history <+: log'.history) : seat.Sound stream group log' where
  stream_eq := hs.stream_eq
  group_eq := hs.group_eq
  member := hs.member
  place := by
    have hp := hs.place
    cases hplace : seat.subscription.loop.place with
    | emitting position x =>
        rw [hplace] at hp
        exact hp.mono hl
    | settling position id =>
        rw [hplace] at hp
        exact hp.mono hl
    | _ => trivial
  shown x hx := (hs.shown x hx).mono hl

theorem Loop.isGenuine_of_not_connected {l : Loop E} (hl : l.isConnected = false) :
    l.place.IsGenuine log := by
  cases hp : l.place with
  | emitting position x => simp [Loop.isConnected, hp] at hl
  | settling position id => simp [Loop.isConnected, hp] at hl
  | _ => trivial

/-- A loop takes a record that was written as it has to. -/
theorem Loop.isGenuine_polled {l : Loop E} {p : Poll} (hl : l.place.IsGenuine log)
    {scope : Scope} (hd : ∀ d, p.delivery? = some d → Group.IsGenuine log scope d) :
    (l.polled p).place.IsGenuine log := by
  cases p with
  | ended => trivial
  | failed e => exact isGenuine_of_not_connected (l.failed_disconnects e).isConnected
  | pending => exact hl
  | delivery d =>
      obtain ⟨e, he, -, hrecord, hid⟩ := hd d rfl
      simp only [Loop.polled, Loop.received]
      cases hv : (Verdict.of E d.record).delivered? with
      | some record =>
          rw [hrecord] at hv
          exact ⟨e, he, hid.symm, Verdict.eq_deliver hv⟩
      | none =>
          have hh : (Verdict.of E d.record).isHidden = true := (Delivery.emission?_eq_none hv).2
          rw [hrecord] at hh
          cases l.settles with
          | true => exact ⟨e, he, hid.symm, hh⟩
          | false => trivial

theorem isOk_mapError {ε ε' α : Type} (f : ε → ε') (r : Except ε α) :
    (r.mapError f).isOk = r.isOk := by
  cases r <;> rfl

namespace Ledger.Sound

/-- What is asked of the server, but not for the group, leaves the group's history as it is. -/
theorem serve_foreign (hb : b.Sound stream group E h) (hs : (Scope.ofName stream).IsSteady)
    {r : Request} (hr : r.IsForeign stream group) :
    (b.setServer (b.server.serve r).2).Sound stream group E h where
  accounted := by
    have ha := (hb.accounted.serve hs r).accounted
    rwa [Server.note_of_foreign hr] at ha
  handedOut := hb.handedOut
  acknowledged id hid :=
    (hb.acknowledged id hid).imp_right fun ⟨ha, hh⟩ =>
      ⟨ha, hh.mono (b.server.serve_before r).history⟩
  skipped := hb.skipped

variable {m : Member}

/-- A loop is handed a record that was written, if any. -/
theorem polled (hb : b.Sound stream group E h) (hs : (Scope.ofName stream).IsSteady)
    (hm : m.stream = stream ∧ m.group = group) :
    (∃ h', Sound stream group E h' { b with
      journal := (b.journal.note ((m.poll b.server).1, .member m, (m.poll b.server).2)).2.2 }) ∧
    ∀ d, (m.poll b.server).1.delivery? = some d →
      Group.IsGenuine b.server.log (Scope.ofName stream) d := by
  have ha := (hb.accounted.serve hs (.pollMember m)).accounted
  rw [Server.note_pollMember hm] at ha
  have hlog : (m.poll b.server).2.log = b.server.log := b.server.poll_log m
  set r : Poll × Connection × Server := ((m.poll b.server).1, .member m, (m.poll b.server).2)
  have hserver : server { b with journal := (b.journal.note r).2.2 } = (m.poll b.server).2 :=
    b.journal.note_client r
  have hhistory : h.handedOut ++ (m.poll b.server).1.delivery?.toList =
      (b.journal.note r).2.2.deliveries := by
    rw [Journal.note_deliveries, hb.handedOut]
  refine ⟨⟨{ h with handedOut := h.handedOut ++ (m.poll b.server).1.delivery?.toList },
    ⟨hserver ▸ ha, hhistory, fun id hid => ?_, hb.skipped⟩⟩, fun d hd => ?_⟩
  · rw [Journal.note_acks, hserver, hlog]
    exact hb.acknowledged id hid
  · have hmem : d ∈ h.handedOut ++ (m.poll b.server).1.delivery?.toList := by
      rw [hd]
      exact List.mem_append_right _ (List.mem_singleton_self d)
    cases hg : (m.poll b.server).2.group? stream group with
    | none =>
        have hnil := congrArg GroupHistory.handedOut (ha.absent hg)
        rw [show h.handedOut ++ (m.poll b.server).1.delivery?.toList = [] from hnil] at hmem
        cases hmem
    | some g =>
        obtain ⟨hscope, hc⟩ := ha.present g hg
        have hgen := hc.genuine d hmem
        rwa [hscope, show (b.server.serve (.pollMember m)).2.log = _ from hlog] at hgen

/-- A loop settles a record that no consumer gets. -/
theorem settled (hb : b.Sound stream group E h) (hs : (Scope.ofName stream).IsSteady)
    {id : RecordId} (hid : b.server.log.Hides E id) :
    ∃ h', Sound stream group E h' { b with journal := (Broker.ack b.journal m [id]).2 } := by
  have ha := (hb.accounted.serve hs (.ack m [id])).accounted
  obtain ⟨new, hn, hnew⟩ := Server.note_ack stream group h b.server m [id]
  rw [hn] at ha
  have hlog : (m.ack b.server [id]).2.log = b.server.log := b.server.ack_log m [id]
  refine ⟨_, ⟨ha, hb.handedOut, fun x hx => ?_, hb.skipped⟩⟩
  show x ∈ b.acknowledged ∨ _ ∈ b.journal.acks ++ _ ∧ Log.Hides E (m.ack b.server [id]).2.log x
  rw [hlog]
  rcases List.mem_append.1 hx with hx | hx
  · exact (hb.acknowledged x hx).imp_right fun hx => ⟨List.mem_append_left _ hx.1, hx.2⟩
  · obtain ⟨hxid, hok⟩ := hnew x hx
    obtain rfl := List.mem_singleton.1 hxid
    refine .inr ⟨List.mem_append_right _ (List.mem_singleton.2 ?_), hid⟩
    exact congrArg (Prod.mk [x]) hok.symm

/-- A consumer acknowledges a record. -/
theorem acked (hb : b.Sound stream group E h) (hs : (Scope.ofName stream).IsSteady)
    (id : RecordId) : ∃ h', Sound stream group E h'
      { b.setServer (m.ack b.server [id]).2 with
        acknowledged := b.acknowledged ++
          if (m.ack b.server [id]).1.isOk then [id] else [] } := by
  have ha := (hb.accounted.serve hs (.ack m [id])).accounted
  obtain ⟨new, hn, hnew⟩ := Server.note_ack stream group h b.server m [id]
  rw [hn] at ha
  have hlog : (m.ack b.server [id]).2.log = b.server.log := b.server.ack_log m [id]
  refine ⟨_, ⟨ha, hb.handedOut, fun x hx => ?_, hb.skipped⟩⟩
  show x ∈ b.acknowledged ++ _ ∨ _ ∈ b.journal.acks ∧ Log.Hides E (m.ack b.server [id]).2.log x
  rw [hlog]
  rcases List.mem_append.1 hx with hx | hx
  · exact (hb.acknowledged x hx).imp_left fun hx => List.mem_append_left _ hx
  · obtain ⟨hxid, hok⟩ := hnew x hx
    refine .inl (List.mem_append_right _ ?_)
    rw [hok]
    exact hxid

/-- A consumer hands a record back. -/
theorem nacked (hb : b.Sound stream group E h) (hs : (Scope.ofName stream).IsSteady)
    (id : RecordId) (action : Refusal) : ∃ h', Sound stream group E h'
      { b.setServer (m.nack b.server [id] action).2.2 with
        skipped := b.skipped ++
          if action = .skip ∧ (m.nack b.server [id] action).1.isOk then [id] else [] } := by
  have ha := (hb.accounted.serve hs (.nack m [id] action)).accounted
  obtain ⟨new, hn, hnew⟩ := Server.note_nack stream group h b.server m [id] action
  rw [hn] at ha
  have hlog : (m.nack b.server [id] action).2.2.log = b.server.log := b.server.nack_log m [id] action
  refine ⟨_, ⟨ha, hb.handedOut, fun x hx => ?_, ?_⟩⟩
  · show x ∈ b.acknowledged ∨
      _ ∈ b.journal.acks ∧ Log.Hides E (m.nack b.server [id] action).2.2.log x
    rw [hlog]
    exact hb.acknowledged x hx
  · refine List.append_subset.2 ⟨List.subset_append_of_subset_left _ hb.skipped, fun x hx => ?_⟩
    obtain ⟨hxid, hskip, hok⟩ := hnew x hx
    refine List.mem_append_right _ ?_
    rw [if_pos ⟨hskip, by rw [hok]; rfl⟩]
    exact hxid

end Ledger.Sound

namespace Seat.Sound

variable {s s' : Subscription E} {received : List (Emission E)}

theorem reads {seat : Seat E} (hseat : seat.Sound stream group log) :
    seat.subscription.Reads stream group :=
  ⟨hseat.stream_eq, hseat.group_eq, hseat.member⟩

/-- A step of a loop. -/
theorem stepped (hseat : Sound stream group b.server.log ⟨s, received⟩)
    (hb : b.Sound stream group E h) (hs : (Scope.ofName stream).IsSteady) {j : Journal Server}
    (hstep : s.Stepped b.journal s' j) :
    (∃ h', Ledger.Sound stream group E h' { b with journal := j }) ∧
    j.client.log = b.server.log ∧ Sound stream group b.server.log ⟨s', received⟩ := by
  have hconnect : Broker.connect b.journal s.stream s.group s.loop.start =
      ((Member.connect b.server stream group).1.map .member,
        { b.journal with client := (Member.connect b.server stream group).2 }) := by
    rw [hseat.stream_eq, hseat.group_eq]
    rfl
  have hjoin : (b.setServer (Member.connect b.server stream group).2).Sound stream group E h :=
    hb.serve_foreign hs (r := .join stream group) fun m hm => by cases hm
  have hlog := b.server.connect_log stream group
  have hreads := hseat.reads.stepped Journal.forgets_notes hstep
  -- What is left says what the loop has in hand, and what it has shown.
  suffices hnext : (∃ h', Ledger.Sound stream group E h' { b with journal := j }) ∧
      j.client.log = b.server.log ∧ s'.loop.place.IsGenuine b.server.log ∧
      ∀ x ∈ received ++ s'.queue, b.server.log.Shows x from
    ⟨hnext.1, hnext.2.1, hreads.stream_eq, hreads.group_eq, hreads.member, hnext.2.2.1,
      hnext.2.2.2⟩
  have hplace := hseat.place
  cases hstep with
  | stopped => exact ⟨⟨h, hb⟩, rfl, trivial, hseat.shown⟩
  | connected _ hc =>
      obtain ⟨-, rfl⟩ := Prod.mk.inj (hconnect.symm.trans hc)
      exact ⟨⟨h, hjoin⟩, hlog, trivial, hseat.shown⟩
  | refused _ hc =>
      obtain ⟨-, rfl⟩ := Prod.mk.inj (hconnect.symm.trans hc)
      exact ⟨⟨h, hjoin⟩, hlog,
        Loop.isGenuine_of_not_connected (s.loop.failed_disconnects _).isConnected, hseat.shown⟩
  | @polled connection r _ hc hr =>
      obtain ⟨m, rfl, hm⟩ := hseat.member _ hc
      obtain ⟨hledger, hgen⟩ := hb.polled hs hm
      have hr' : r = b.journal.note ((m.poll b.server).1, .member m, (m.poll b.server).2) := by
        rcases hr with rfl | rfl <;> rfl
      have hpoll := (b.journal.note_poll ((m.poll b.server).1, .member m, (m.poll b.server).2)).1
      have hclient := b.journal.note_client ((m.poll b.server).1, .member m, (m.poll b.server).2)
      rw [← hr'] at hledger hpoll hclient
      refine ⟨by rwa [Subscription.polled_client], ?_, ?_, by simpa using hseat.shown⟩
      · rw [Subscription.polled_client, hclient]
        exact b.server.poll_log m
      · rw [Subscription.polled_loop, hpoll]
        exact Loop.isGenuine_polled hplace hgen
  | @settled position id m r _ hsettling hm hr =>
      have hj : j = (Broker.ack b.journal m [id]).2 := by rw [hr]
      rw [hsettling] at hplace
      refine ⟨hj ▸ hb.settled hs hplace, hj ▸ b.server.ack_log m [id], ?_, hseat.shown⟩
      rcases s.loop.settled_cases position r with ⟨-, hl⟩ | ⟨-, hl⟩
      · show (s.loop.settled position r).place.IsGenuine _
        rw [hl]
        trivial
      · exact Loop.isGenuine_of_not_connected hl.isConnected
  | @queued position emission hemitting hroom =>
      rw [hemitting] at hplace
      refine ⟨⟨h, hb⟩, rfl, trivial, fun x hx => ?_⟩
      rcases List.mem_append.1 hx with hx | hx
      · exact hseat.shown x (List.mem_append_left _ hx)
      · rcases List.mem_append.1 hx with hx | hx
        · exact hseat.shown x (List.mem_append_right _ hx)
        · obtain rfl := List.mem_singleton.1 hx
          exact hplace
  | paused => exact ⟨⟨h, hb⟩, rfl, hplace, hseat.shown⟩
  | rested => exact ⟨⟨h, hb⟩, rfl, trivial, hseat.shown⟩

theorem proceed {seat : Seat E} (hseat : seat.Sound stream group b.server.log)
    (hb : b.Sound stream group E h) (hs : (Scope.ofName stream).IsSteady) (closed : Bool) :
    let next := seat.proceed b { seat.subscription with closed := closed }
    (∃ h', next.2.Sound stream group E h') ∧ next.2.server.log = b.server.log ∧
      next.1.Sound stream group b.server.log := by
  intro next
  have hstart : Sound stream group b.server.log
      ⟨{ seat.subscription with closed := closed }, seat.received⟩ := { hseat with }
  unfold next Seat.proceed
  split
  · rename_i s j hstep
    obtain ⟨hledger, hlog, hs'⟩ := hstart.stepped hb hs (Subscription.step_cases hstep)
    exact ⟨hledger, hlog, { hs' with }⟩
  · exact ⟨⟨h, hb⟩, rfl, hseat⟩

/-- Whatever a consumer or its loop does, the ledger goes on to hold all that has come out of the
group. -/
theorem act {seat : Seat E} (hseat : seat.Sound stream group b.server.log)
    (hb : b.Sound stream group E h) (hs : (Scope.ofName stream).IsSteady) (move : Move) :
    (∃ h', (seat.act b move).2.Sound stream group E h') ∧
    (seat.act b move).2.server.log = b.server.log ∧
    (seat.act b move).1.Sound stream group b.server.log := by
  cases move with
  | run => exact hseat.proceed hb hs seat.subscription.closed
  | lag => exact hseat.proceed hb hs false
  | receive =>
      rcases seat.subscription.receive_eq with ⟨x, rest, hq, hr⟩ | ⟨hnone, hr⟩
      · simp only [Seat.act, hr]
        refine ⟨⟨h, hb⟩, trivial, { hseat with shown := fun y hy => hseat.shown y ?_ }⟩
        rw [List.append_assoc] at hy
        rwa [hq]
      · simp only [Seat.act, hr]
        exact ⟨⟨h, hb⟩, trivial, hseat⟩
  | close => exact ⟨⟨h, hb⟩, rfl, { hseat with }⟩
  | ack id =>
      rcases seat.subscription.ack_eq b.server id with ⟨e, he⟩ | ⟨m, hm, he⟩
      · simp only [Seat.act, he]
        refine ⟨⟨h, { hb with acknowledged := ?_ }⟩, rfl, hseat⟩
        exact fun x hx => (hb.acknowledged x hx).imp_left fun hx => List.mem_append_left _ hx
      · simp only [Seat.act, he]
        refine ⟨?_, b.server.ack_log m [id], hseat⟩
        have ha := hb.acked (m := m) hs id
        rwa [← isOk_mapError] at ha
  | nack id action =>
      have hreads := hseat.reads.nack Broker.forgets_nothing b.server id action
      rcases seat.subscription.nack_eq b.server id action with ⟨e, he⟩ | ⟨m, hm, he⟩
      · simp only [Seat.act, he]
        exact ⟨⟨h, { hb with skipped := List.subset_append_of_subset_left _ hb.skipped }⟩, rfl,
          hseat⟩
      · simp only [Seat.act, he]
        refine ⟨?_, b.server.nack_log m [id] action, ?_⟩
        · have ha := hb.nacked (m := m) hs id action
          rwa [← isOk_mapError] at ha
        · rw [he] at hreads
          exact { hseat with member := hreads.member }

end Seat.Sound

namespace Crew

variable {w : Crew E}

theorem sound_start (stream group : String) (now : Nat) :
    (start now : Crew E).Sound stream group where
  ledger := by
    refine ⟨{}, ⟨Log.coherent_empty, fun _ => rfl, fun g hg => by cases hg⟩, rfl, ?_,
      List.Subset.refl _⟩
    exact fun id hid => by cases hid
  seats seat hseat := by cases hseat

theorem Sound.act (hw : w.Sound stream group) (hs : (Scope.ofName stream).IsSteady)
    (move : Move stream group) : (w.act move).Sound stream group := by
  obtain ⟨h, hb⟩ := hw.ledger
  cases move with
  | serve r foreign =>
      refine ⟨⟨h, hb.serve_foreign hs foreign⟩, fun seat hseat => ?_⟩
      exact (hw.seats seat hseat).mono (w.ledger.server.serve_before r).history
  | subscribe bufferSize retry =>
      refine ⟨⟨h, hb⟩, fun seat hseat => ?_⟩
      rcases List.mem_append.1 hseat with hseat | hseat
      · exact hw.seats seat hseat
      · obtain rfl := List.mem_singleton.1 hseat
        exact ⟨rfl, rfl, fun c hc => (by cases hc), trivial, fun x hx => (by cases hx)⟩
  | seat number move =>
      simp only [Crew.act]
      cases hn : w.seats[number]? with
      | none => exact hw
      | some seat =>
          obtain ⟨hledger, hlog, hseat⟩ :=
            (hw.seats seat (List.mem_of_getElem? hn)).act hb hs move
          refine ⟨hledger, fun x hx => ?_⟩
          show x.Sound stream group (seat.act w.ledger move).2.server.log
          rw [hlog]
          rcases List.mem_or_eq_of_mem_set hx with hx | rfl
          · exact hw.seats x hx
          · exact hseat

theorem Sound.after (hw : w.Sound stream group) (hs : (Scope.ofName stream).IsSteady)
    (moves : List (Move stream group)) : (w.after moves).Sound stream group := by
  induction moves generalizing w with
  | nil => exact hw
  | cons move moves ih => exact ih (hw.act hs move)

end Crew

end Steps

/-! ## The main result -/

/-- What a group that is read through subscriptions only remembers as acknowledged was acknowledged
by a consumer, or was settled by a loop and is no record for consumers. A record for consumers that
the group has handed out, or that is left in the log and has been passed by its cursor, stays with
the group until a consumer acknowledges or skips it; and consumers get records for consumers only. -/
theorem Crew.settled_by_consumers [DomainEvent E] (now : Nat) {stream : String}
    (hs : Text.hasPrefix tombstoneMark stream = false) (group : String)
    (moves : List (Move stream group)) :
    let w : Crew E := (start now).after moves
    let s := w.ledger.server
    (s.group? stream group = none → w.ledger.journal.deliveries = []) ∧
    (∀ g, s.group? stream group = some g →
      (∀ id ∈ g.acknowledged, id ∈ w.ledger.acknowledged ∨
        ([id], .ok ()) ∈ w.ledger.journal.acks ∧ s.log.Hides E id) ∧
      ∀ e ∈ s.log.history, (Verdict.of E e.record).isHidden = false →
        (e.record.id ∈ ackIds w.ledger.journal.deliveries ∨ e ∈ s.log.entries ∧
          ∃ p, (Scope.ofName stream).position? e = some p ∧ g.settings.startFrom ≤ p ∧
            p < g.cursor) →
        e.record.id ∉ w.ledger.acknowledged → e.record.id ∉ w.ledger.skipped →
        e.record.id ∈ ackIds g.inFlight ∨ e.record.id ∈ ackIds g.retry ∨
          e.record.id ∈ ackIds g.parked) ∧
    ∀ seat ∈ w.seats, ∀ x ∈ seat.received ++ seat.subscription.queue, s.log.Shows x := by
  intro w s
  have hsteady := Scope.isSteady_ofName hs
  have hw : w.Sound stream group := (sound_start stream group now).after hsteady moves
  obtain ⟨h, hb⟩ := hw.ledger
  refine ⟨fun hn => ?_, fun g hg => ⟨fun id hid => ?_, ?_⟩, fun seat hseat => ?_⟩
  · rw [← hb.handedOut, hb.accounted.absent hn]
  · obtain ⟨-, hc⟩ := hb.accounted.present g hg
    rw [hc.acknowledged_eq] at hid
    exact hb.acknowledged id (List.mem_of_mem_drop hid)
  · intro e he hshown hreached hack hskip
    obtain ⟨hscope, hc⟩ := hb.accounted.present g hg
    have hout : e.record.id ∈ ackIds h.handedOut := by
      rcases hreached with hd | ⟨hentry, p, hp, hfrom, hlt⟩
      · rwa [hb.handedOut]
      · exact hc.reached e hentry p (hscope ▸ hp) hfrom hlt
    have hplace := (hc.mem_places _).2 hout
    simp only [Group.places, Group.unsettled, List.mem_append, or_assoc] at hplace
    rcases hplace with hp | hp | hp | hp | hp
    · exact .inl hp
    · exact .inr (.inl hp)
    · exact .inr (.inr hp)
    · rcases hb.acknowledged _ hp with hp | ⟨-, e', he', hid, hh⟩
      · exact absurd hp hack
      · obtain rfl : e' = e := hb.accounted.coherent.id_unique he' he hid
        rw [hshown] at hh
        cases hh
    · exact absurd (hb.skipped hp) hskip
  · exact (hw.seats seat hseat).shown

namespace Crew

/-- The loop of a first consumer settles a record that does not decode, and the consumer acknowledges
the next one. A second consumer has got the last one when all connections are dropped. -/
def pairRun : List (Move "account-1" "readers") :=
  [.serve (.createGroup "account-1" "readers" {}) fun _ h => (by cases h),
    .serve (.call (.append "account-1" .any [⟨"Renamed", [], []⟩, ⟨"AccountClosed", [0], []⟩,
      ⟨"AccountClosed", [1], []⟩])) fun _ h => (by cases h),
    .subscribe 8 none, .subscribe 8 (some {}), .seat 0 .run, .seat 0 .run, .seat 0 .run, .seat 0 .run,
    .seat 0 .run, .seat 0 .receive, .seat 1 .run, .seat 1 .run, .seat 1 .run, .seat 1 .receive,
    .seat 0 (.ack 1), .serve .disconnectAll fun _ h => (by cases h)]

theorem settled_by_consumers_pairRun : Text.hasPrefix tombstoneMark "account-1" = false ∧
    ∃ w : Crew Domain.AccountEvent, w = (start 0).after pairRun ∧
      (w.ledger.server.group? "account-1" "readers").map (·.acknowledged) = some [0, 1] ∧
      w.ledger.acknowledged = [1] ∧
      w.seats.map (fun seat => seat.received.map (·.ackId)) = [[1], [2]] ∧
      ∀ g, w.ledger.server.group? "account-1" "readers" = some g →
        ∀ e ∈ w.ledger.server.log.history, e.record.id = 2 →
          (Verdict.of Domain.AccountEvent e.record).isHidden = false →
          2 ∈ ackIds g.inFlight ∨ 2 ∈ ackIds g.retry ∨ 2 ∈ ackIds g.parked := by
  have hs : Text.hasPrefix tombstoneMark "account-1" = false := by decide
  have h := settled_by_consumers (E := Domain.AccountEvent) 0 hs "readers" pairRun
  refine ⟨hs, _, rfl, by decide +kernel, by decide +kernel, by decide +kernel,
    fun g hg e he hid hv => ?_⟩
  have hheld := (h.2.1 g hg).2 e he hv
  rw [hid] at hheld
  exact hheld (.inl (by decide +kernel)) (by decide +kernel) (by decide +kernel)

end Crew

end EventSourcing
