import EventSourcing.Proofs.Subscription.Follow
import EventSourcing.Proofs.Subscription.Step

/-!
# What a loop makes of a connection

A loop over one connection, whatever the connection hands out and however settling is answered. The
client of the subscription writes down what it was asked and what came of that (`Journal`). Just the
deliveries whose records decode go to the consumer and just the others are settled, in order and once
each (`Pump.Exact`), and a loop whose consumer goes on reading comes to the end of what it was handed
(`Pump.filtering_exact`).
-/

namespace EventSourcing

variable {E σ : Type}

/-! ## Journals -/

/-- A client that writes down what was asked of its connection. -/
structure Journal (σ : Type) where
  client : σ
  deliveries : List Delivery := []
  /-- How the connection has come to its end. -/
  ends : List (Except LogError Unit) := []
  /-- What was settled, and the answers. -/
  acks : List (List RecordId × Except LogError Unit) := []

namespace Journal

/-- Writes down what asking for a record has come to. -/
def note (j : Journal σ) : Poll × Connection × σ → Poll × Connection × Journal σ
  | (.delivery d, c, client) =>
    (.delivery d, c, { j with client := client, deliveries := j.deliveries ++ [d] })
  | (.ended, c, client) => (.ended, c, { j with client := client, ends := j.ends ++ [.ok ()] })
  | (.failed e, c, client) =>
    (.failed e, c, { j with client := client, ends := j.ends ++ [.error e] })
  | (.pending, c, client) => (.pending, c, { j with client := client })

instance [Broker σ] : Broker (Journal σ) where
  createGroup j stream group settings :=
    let (r, client) := Broker.createGroup j.client stream group settings
    (r, { j with client := client })
  connect j stream group start :=
    let (r, client) := Broker.connect j.client stream group start
    (r, { j with client := client })
  ask j c := j.note (Broker.ask j.client c)
  askAgain j c := j.note (Broker.askAgain j.client c)
  ack j m ids :=
    let (r, client) := Broker.ack j.client m ids
    (r, { j with client := client, acks := j.acks ++ [(ids, r)] })
  nack j m ids action :=
    let (r, m, client) := Broker.nack j.client m ids action
    (r, m, { j with client := client })
  signal j := Broker.signal j.client
  now j := Broker.now j.client

section Notes

variable (j : Journal σ) (r : Poll × Connection × σ)

theorem note_poll : (j.note r).1 = r.1 ∧ (j.note r).2.1 = r.2.1 := by
  obtain ⟨p, c, client⟩ := r
  cases p <;> exact ⟨rfl, rfl⟩

theorem note_client : (j.note r).2.2.client = r.2.2 := by
  obtain ⟨p, c, client⟩ := r
  cases p <;> rfl

theorem note_acks : (j.note r).2.2.acks = j.acks := by
  obtain ⟨p, c, client⟩ := r
  cases p <;> rfl

end Notes

/-- To a subscription, a client that writes down is the client. -/
theorem forgets_notes [Broker σ] : Broker.Forgets fun j : Journal σ => j.client := by
  have hnote (j : Journal σ) (r : Poll × Connection × σ) :
      r = ((j.note r).1, (j.note r).2.1, (j.note r).2.2.client) := by
    rw [(j.note_poll r).1, (j.note_poll r).2, j.note_client]
  exact
    { connect := fun _ _ _ _ => rfl
      ask := fun j c => hnote j _
      askAgain := fun j c => hnote j _
      ack := fun _ _ _ => rfl
      nack := fun _ _ _ _ => rfl
      signal := fun _ => rfl
      now := fun _ => rfl }

end Journal

/-- Whether settling has failed because the connection is lost. -/
def IsLost (answer : Except LogError Unit) : Prop :=
  ∃ e, answer = .error e ∧ e.isLostConnection = true

/-! ## Pumps -/

/-- A loop over one connection, with what its consumer has received. -/
structure Pump (E σ : Type) where
  journal : Journal σ
  subscription : Subscription E
  received : List (Emission E) := []

/-- What happens next. -/
inductive Pump.Move (σ : Type)
  /-- The loop takes a step, unless it has to wait or has left the connection. -/
  | run
  /-- The consumer asks for a record. -/
  | receive
  /-- Others do something with the client. -/
  | turn (client : σ)

namespace Pump

variable [Broker σ]

/-- A loop that has just been connected. -/
def start (client : σ) (source : Source) (group : Option String) (bufferSize : Nat) (loop : Loop E)
    (connection : Connection) : Pump E σ where
  journal := ⟨client, [], [], []⟩
  subscription :=
    { Subscription.start source group bufferSize loop.opened with connection := some connection }

def act [DomainEvent E] (w : Pump E σ) : Move σ → Pump E σ
  | .run =>
    if w.subscription.loop.isConnected then
      match w.subscription.step w.journal with
      | some (s, j) => { w with journal := j, subscription := s }
      | none => w
    else w
  | .receive =>
    match w.subscription.receive with
    | (.record e, s) => { w with subscription := s, received := w.received ++ [e] }
    | (_, s) => { w with subscription := s }
  | .turn client => { w with journal := { w.journal with client := client } }

def after [DomainEvent E] (w : Pump E σ) (moves : List (Move σ)) : Pump E σ := moves.foldl act w

end Pump

/-! ## What becomes of a delivery -/

/-- How a delivery goes to the consumer; none if the consumer does not get it. -/
def Delivery.emission? (E : Type) [DomainEvent E] (d : Delivery) : Option (Emission E) :=
  (Verdict.of E d.record).delivered?.map fun record => ⟨record, d.ackId, d.retryCount⟩

/-- Whether the consumer does not get a delivery. -/
def Delivery.isHidden (E : Type) [DomainEvent E] (d : Delivery) : Bool :=
  (Verdict.of E d.record).isHidden

/-- The emission that waits for room. -/
def Place.emission? : Place E → Option (Emission E)
  | .emitting _ emission => some emission
  | _ => none

/-- What is about to be settled. -/
def Place.ackIds : Place E → List (List RecordId)
  | .settling _ id => [[id]]
  | _ => []

def Place.isReading : Place E → Bool
  | .reading => true
  | _ => false

section Delivery

variable [DomainEvent E] {d : Delivery}

theorem Delivery.emission?_eq_none (h : (Verdict.of E d.record).delivered? = none) :
    d.emission? E = none ∧ d.isHidden E = true := by
  unfold emission? isHidden
  rw [h]
  refine ⟨rfl, ?_⟩
  cases hv : Verdict.of E d.record with
  | deliver record =>
      rw [hv] at h
      cases h
  | _ => rfl

theorem Delivery.emission?_eq_some {record : Record E}
    (h : (Verdict.of E d.record).delivered? = some record) :
    d.emission? E = some ⟨record, d.ackId, d.retryCount⟩ ∧ d.isHidden E = false := by
  unfold emission? isHidden
  rw [h, Verdict.eq_deliver h]
  exact ⟨rfl, rfl⟩

theorem Verdict.of_eq_deliver {r : StoredRecord} {record : Record E}
    (h : Verdict.of E r = .deliver record) :
    r.isTombstone = false ∧ r.isSystem = false ∧ r.decode E = .event record := by
  unfold Verdict.of at h
  by_cases ht : r.isTombstone
  · rw [if_pos ht] at h
    cases h
  · by_cases hs : r.isSystem
    · rw [if_neg ht, if_pos hs] at h
      cases h
    · rw [if_neg ht, if_neg hs] at h
      refine ⟨Bool.eq_false_iff.2 ht, Bool.eq_false_iff.2 hs, ?_⟩
      cases hd : r.decode E with
      | event record' =>
          rw [hd] at h
          rw [Verdict.deliver.inj h]
      | skip =>
          rw [hd] at h
          cases h
      | error e =>
          rw [hd] at h
          cases h

/-- A consumer sees neither marks of deleted streams nor bookkeeping of the log. -/
theorem Verdict.visible_of_deliver {r : StoredRecord} {record : Record E}
    (h : Verdict.of E r = .deliver record) :
    record.isTombstone = false ∧ record.isSystem = false := by
  obtain ⟨ht, hs, hd⟩ := Verdict.of_eq_deliver h
  obtain ⟨event, rfl⟩ := Record.decode_eq_event hd
  exact ⟨ht, hs⟩

end Delivery

/-! ## The invariant -/

/-- What the loop has taken from its connection and has not dealt with: the record that it is at, or
the one at which it has lost the connection. -/
def Journal.Open (j : Journal σ) : Place E → List Delivery → Prop
  | .reading, rest => rest = []
  | .emitting position _, rest => ∃ d, rest = [d] ∧ d.position = position
  | .settling position id, rest => ∃ d, rest = [d] ∧ d.position = position ∧ d.ackId = id
  | _, rest => (rest = [] ∧ ∀ a ∈ j.acks, ¬ IsLost a.2) ∨
    ∃ d r, rest = [d] ∧ j.acks.getLast? = some ([d.ackId], r) ∧ IsLost r

/-- The journal accounts for what was shown to the consumer and for the loop, which has found
`first` as the last position. -/
structure Journal.Exact [DomainEvent E] (j : Journal σ) (first : Option Nat)
    (shown : List (Emission E)) (l : Loop E) : Prop where
  /-- All that decodes is shown, or waits to be. -/
  emitted : shown ++ l.place.emission?.toList = j.deliveries.filterMap (Delivery.emission? E)
  /-- All else is settled, or is about to be. -/
  settled : j.acks.map (·.1) ++ l.place.ackIds =
    if l.settles then (j.deliveries.filter (Delivery.isHidden E)).map fun d => [d.ackId] else []
  progress : ∃ dealt rest, j.deliveries = dealt ++ rest ∧
    l.position = (dealt.getLast?.map (·.position)).or first ∧ j.Open l.place rest
  /-- Nothing but an end of the connection or a lost one makes the loop leave it. -/
  connected_iff : l.isConnected = true ↔ j.ends = [] ∧ ∀ a ∈ j.acks, ¬ IsLost a.2

theorem Loop.place_of_not_connected {l : Loop E} (h : l.isConnected = false) (j : Journal σ) :
    l.place.emission? = none ∧ l.place.ackIds = [] ∧ ∀ rest,
      j.Open l.place rest ↔ (rest = [] ∧ ∀ a ∈ j.acks, ¬ IsLost a.2) ∨
        ∃ d r, rest = [d] ∧ j.acks.getLast? = some ([d.ackId], r) ∧ IsLost r := by
  unfold Loop.isConnected at h
  cases hp : l.place with
  | opening => exact ⟨rfl, rfl, fun _ => Iff.rfl⟩
  | resting pause => exact ⟨rfl, rfl, fun _ => Iff.rfl⟩
  | finished result => exact ⟨rfl, rfl, fun _ => Iff.rfl⟩
  | _ => simp [hp] at h

/-- Only a lost connection keeps the loop from going on after a record is settled. -/
theorem Loop.settled_cases (l : Loop E) (position : Nat) (r : Except LogError Unit) :
    (¬ IsLost r ∧ l.settled position r = l.passed position) ∨
    (IsLost r ∧ l.Disconnects (l.settled position r)) := by
  cases r with
  | ok _ => exact .inl ⟨fun ⟨_, he, _⟩ => (by cases he), rfl⟩
  | error e =>
      cases he : e.isLostConnection with
      | true =>
          refine .inr ⟨⟨e, rfl, he⟩, ?_⟩
          rw [show l.settled position (.error e) = l.failed e by simp only [settled, he, if_true]]
          exact l.failed_disconnects e
      | false =>
          refine .inl ⟨?_, by simp only [settled, he, Bool.false_eq_true, if_false]⟩
          rintro ⟨e', he', hlost⟩
          obtain rfl := Except.error.inj he'
          exact absurd hlost (by simp [he])

namespace Journal.Exact

variable [DomainEvent E] {j j' : Journal σ} {first : Option Nat} {shown : List (Emission E)}
  {l : Loop E} {d : Delivery}

theorem opened (client : σ) (l : Loop E) :
    (⟨client, [], [], []⟩ : Journal σ).Exact l.position [] l.opened where
  emitted := rfl
  settled := by
    show [] = if l.settles then [] else []
    split <;> rfl
  progress := ⟨[], [], rfl, rfl, rfl⟩
  connected_iff := iff_of_true rfl ⟨rfl, fun _ h => by cases h⟩

/-- The client itself is nobody's business. -/
theorem turn (h : j.Exact first shown l) (client : σ) :
    ({ j with client := client } : Journal σ).Exact first shown l where
  emitted := h.emitted
  settled := h.settled
  progress := by
    obtain ⟨dealt, rest, hd, hp, ho⟩ := h.progress
    refine ⟨dealt, rest, hd, hp, ?_⟩
    cases hplace : l.place <;> rw [hplace] at ho <;> exact ho
  connected_iff := h.connected_iff

section Reading

variable (h : j.Exact first shown l) (hplace : l.place = .reading)

include h hplace

theorem of_reading : shown = j.deliveries.filterMap (Delivery.emission? E) ∧
    (j.acks.map (·.1) =
      if l.settles then (j.deliveries.filter (Delivery.isHidden E)).map fun d => [d.ackId] else []) ∧
    l.position = (j.deliveries.getLast?.map (·.position)).or first ∧
    j.ends = [] ∧ ∀ a ∈ j.acks, ¬ IsLost a.2 := by
  have hem := h.emitted
  have hset := h.settled
  obtain ⟨dealt, rest, hd, hp, ho⟩ := h.progress
  rw [hplace] at hem hset ho
  obtain rfl : rest = [] := ho
  rw [List.append_nil] at hd
  refine ⟨(List.append_nil _).symm.trans hem, (List.append_nil _).symm.trans hset, hd ▸ hp, ?_⟩
  exact h.connected_iff.1 (by rw [Loop.isConnected, hplace])

/-- The connection has come to its end, or is lost. -/
theorem left {l' : Loop E} (hl : l.Disconnects l') (client : σ) (result : Except LogError Unit) :
    ({ j with client := client, ends := j.ends ++ [result] } : Journal σ).Exact first shown l' := by
  obtain ⟨hem, hset, hpos, -, hacks⟩ := h.of_reading hplace
  obtain ⟨he, ha, ho⟩ := Loop.place_of_not_connected hl.isConnected
    { j with client := client, ends := j.ends ++ [result] }
  refine ⟨?_, ?_, ⟨j.deliveries, [], (List.append_nil _).symm, hl.position.trans hpos, ?_⟩, ?_⟩
  · rw [he, Option.toList_none, List.append_nil]
    exact hem
  · rw [ha, List.append_nil, hl.settles]
    exact hset
  · exact (ho _).2 (.inl ⟨rfl, hacks⟩)
  · rw [hl.isConnected]
    exact iff_of_false Bool.false_ne_true fun hn => by simp at hn

/-- The connection has handed out a record. -/
theorem received (client : σ) (d : Delivery) :
    ({ j with client := client, deliveries := j.deliveries ++ [d] } : Journal σ).Exact first shown
      (l.received d) := by
  obtain ⟨hem, hset, hpos, hends, hacks⟩ := h.of_reading hplace
  unfold Loop.received
  cases hv : (Verdict.of E d.record).delivered? with
  | some record =>
      obtain ⟨he, hh⟩ := Delivery.emission?_eq_some hv
      refine ⟨?_, ?_, ⟨j.deliveries, [d], rfl, hpos, d, rfl, rfl⟩, iff_of_true rfl ⟨hends, hacks⟩⟩
      · simp [Place.emission?, he, hem]
      · simpa [Place.ackIds, hh] using hset
  | none =>
      obtain ⟨he, hh⟩ := Delivery.emission?_eq_none hv
      cases hs : l.settles with
      | true =>
          rw [hs, if_pos rfl] at hset
          refine ⟨?_, ?_, ⟨j.deliveries, [d], rfl, hpos, d, rfl, rfl, rfl⟩,
            iff_of_true rfl ⟨hends, hacks⟩⟩
          · simpa [Place.emission?, he] using hem
          · simp [Place.ackIds, hh, hset]
      | false =>
          rw [hs, if_neg Bool.false_ne_true] at hset
          refine ⟨?_, ?_, ⟨j.deliveries ++ [d], [], (List.append_nil _).symm, ?_, rfl⟩,
            iff_of_true rfl ⟨hends, hacks⟩⟩
          · simpa [Loop.passed, Place.emission?, he] using hem
          · simpa [Loop.passed, Place.ackIds, hs] using hset
          · simp [Loop.passed]

theorem polled [Broker σ] (p : Poll) (connection : Connection) (client : σ) :
    ∃ j', (j.note (p, connection, client)) = (p, connection, j') ∧
      j'.Exact first shown (l.polled p) := by
  cases p with
  | delivery d => exact ⟨_, rfl, h.received hplace client d⟩
  | ended => exact ⟨_, rfl, h.left hplace l.stop_disconnects client _⟩
  | failed e => exact ⟨_, rfl, h.left hplace (l.failed_disconnects e) client _⟩
  | pending => exact ⟨_, rfl, h.turn client⟩

end Reading

/-- The consumer gets a record that has waited. -/
theorem queued (h : j.Exact first shown l) {position : Nat} {emission : Emission E}
    (hplace : l.place = .emitting position emission) :
    j.Exact first (shown ++ [emission]) (l.passed position) := by
  have hem := h.emitted
  have hset := h.settled
  obtain ⟨dealt, rest, hd, -, ho⟩ := h.progress
  rw [hplace] at hem hset ho
  obtain ⟨d, rfl, rfl⟩ := ho
  refine ⟨?_, hset, ⟨j.deliveries, [], (List.append_nil _).symm, ?_, rfl⟩, ?_⟩
  · exact (List.append_nil _).trans hem
  · simp [Loop.passed, hd]
  · exact iff_of_true rfl (h.connected_iff.1 (by rw [Loop.isConnected, hplace]))

/-- A record that the consumer does not get is settled. -/
theorem acked (h : j.Exact first shown l) {position : Nat} {id : RecordId}
    (hplace : l.place = .settling position id) (client : σ) (r : Except LogError Unit) :
    ({ j with client := client, acks := j.acks ++ [([id], r)] } : Journal σ).Exact first shown
      (l.settled position r) := by
  have hem := h.emitted
  have hset := h.settled
  obtain ⟨hends, hacks⟩ := h.connected_iff.1 (by rw [Loop.isConnected, hplace])
  obtain ⟨dealt, rest, hd, hpos, ho⟩ := h.progress
  rw [hplace] at hem hset ho
  obtain ⟨d, rfl, rfl, rfl⟩ := ho
  have hids : (j.acks ++ [([d.ackId], r)]).map (·.1) =
      if l.settles then (j.deliveries.filter (Delivery.isHidden E)).map fun d => [d.ackId] else [] := by
    rw [List.map_append]
    exact hset
  rcases l.settled_cases d.position r with ⟨hr, hl⟩ | ⟨hr, hl⟩
  · rw [hl]
    refine ⟨hem, ?_, ⟨j.deliveries, [], (List.append_nil _).symm, ?_, rfl⟩,
      iff_of_true rfl ⟨hends, fun a ha => ?_⟩⟩
    · exact (List.append_nil _).trans hids
    · simp [Loop.passed, hd]
    · rcases List.mem_append.1 ha with ha | ha
      · exact hacks a ha
      · obtain rfl := List.mem_singleton.1 ha
        exact hr
  · obtain ⟨hnone, hack, hopen⟩ := Loop.place_of_not_connected hl.isConnected
      { j with client := client, acks := j.acks ++ [([d.ackId], r)] }
    refine ⟨?_, ?_, ⟨dealt, [d], hd, hl.position.trans hpos, ?_⟩, ?_⟩
    · rw [hnone]
      exact hem
    · rw [hack, List.append_nil, hl.settles]
      exact hids
    · exact (hopen _).2 (.inr ⟨d, r, rfl, List.getLast?_concat, hr⟩)
    · rw [hl.isConnected]
      refine iff_of_false Bool.false_ne_true fun hn => ?_
      exact hn.2 _ (List.mem_append_right _ (List.mem_singleton_self _)) hr

end Journal.Exact

/-! ## Runs -/

/-- Whether what has asked as a member goes on as one. -/
def Broker.KeepsMembers (σ : Type) [Broker σ] : Prop := ∀ (client : σ) (m : Member),
  (∃ m', (Broker.ask client (.member m)).2.1 = .member m') ∧
  ∃ m', (Broker.askAgain client (.member m)).2.1 = .member m'

theorem Broker.keepsMembers_server : Broker.KeepsMembers Server := fun _ m => ⟨⟨m, rfl⟩, m, rfl⟩

namespace Pump

section Runs

variable [DomainEvent E] [Broker σ] {w : Pump E σ} {first : Option Nat} {settles : Bool}

/-- The loop is open, its journal is exact, and it has what it needs to go on. -/
structure Sound (first : Option Nat) (settles : Bool) (w : Pump E σ) : Prop where
  closed_eq : w.subscription.closed = false
  settles_eq : w.subscription.loop.settles = settles
  exact : w.journal.Exact first (w.received ++ w.subscription.queue) w.subscription.loop
  capacity_pos : 0 < w.subscription.capacity
  length_le : w.subscription.queue.length ≤ w.subscription.capacity
  connection : w.subscription.loop.isConnected = true →
    ∃ c, w.subscription.connection = some c ∧ (settles = true → ∃ m, c = .member m)

omit [Broker σ] in
theorem sound_start (client : σ) (source : Source) (group : Option String) (bufferSize : Nat)
    (loop : Loop E) {connection : Connection}
    (hc : loop.settles = true → ∃ m, connection = .member m) :
    (start client source group bufferSize loop connection).Sound loop.position loop.settles where
  closed_eq := rfl
  settles_eq := rfl
  exact := .opened client loop
  capacity_pos := Nat.le_max_right _ _
  length_le := Nat.zero_le _
  connection _ := ⟨connection, rfl, hc⟩

/-- The consumer takes the first record of the queue. -/
theorem act_receive (hopen : w.subscription.closed = false) : w.act .receive =
    { w with
      subscription := { w.subscription with queue := w.subscription.queue.tail }
      received := w.received ++ w.subscription.queue.head?.toList } := by
  obtain ⟨j, s, received⟩ := w
  cases hq : s.queue with
  | nil =>
      have hs : { s with queue := [] } = s := by rw [← hq]
      have hr : s.receive = (if s.loop.result?.isSome then .ended else .pending, s) := by
        simp [Subscription.receive, show s.closed = false from hopen, hq]
      simp only [act, hr, List.tail_nil, List.head?_nil, Option.toList_none, List.append_nil, hs]
      split
      · rename_i he
        split at he <;> cases he
      · rename_i he
        rw [← (Prod.mk.inj he).2]
  | cons e rest =>
      have hr : s.receive = (.record e, { s with queue := rest }) := by
        simp [Subscription.receive, show s.closed = false from hopen, hq]
      simp only [act, hr]
      rfl

theorem act_run (hcon : w.subscription.loop.isConnected = true) :
    (w.subscription.step w.journal = none ∧ w.act .run = w) ∨
    ∃ s j, w.subscription.Stepped w.journal s j ∧
      w.act .run = { w with journal := j, subscription := s } := by
  simp only [act, hcon, if_true]
  cases hs : w.subscription.step w.journal with
  | none => exact .inl ⟨rfl, rfl⟩
  | some x => exact .inr ⟨x.1, x.2, Subscription.step_cases hs, rfl⟩

namespace Sound

theorem receive (h : w.Sound first settles) : (w.act .receive).Sound first settles := by
  rw [act_receive h.closed_eq]
  refine { h with exact := ?_, length_le := ?_ }
  · have hq : w.subscription.queue.head?.toList ++ w.subscription.queue.tail =
        w.subscription.queue := by
      cases w.subscription.queue <;> rfl
    have hx := h.exact
    rw [← hq, ← List.append_assoc] at hx
    exact hx
  · show w.subscription.queue.tail.length ≤ _
    rw [List.length_tail]
    exact Nat.le_trans (Nat.sub_le _ _) h.length_le

theorem turn (h : w.Sound first settles) (client : σ) :
    (w.act (.turn client)).Sound first settles :=
  { h with exact := h.exact.turn client }

theorem stepped (h : w.Sound first settles) (hb : Broker.KeepsMembers σ)
    (hcon : w.subscription.loop.isConnected = true) {s : Subscription E} {j : Journal σ}
    (hs : w.subscription.Stepped w.journal s j) :
    Sound first settles { w with journal := j, subscription := s } := by
  obtain ⟨-, -, hcap, hclosed, hset⟩ := hs.frame
  have hexact := h.exact
  rcases hs.of_connected h.closed_eq hcon with ⟨connection, r, hplace, hc, hr, rfl, rfl⟩ |
    ⟨position, id, m, r, hplace, hm, hr, rfl⟩ | ⟨position, emission, hplace, hroom, rfl, rfl⟩
  · obtain ⟨_, hc', hmember⟩ := h.connection hcon
    obtain rfl := Option.some.inj (hc.symm.trans hc')
    obtain ⟨q, hj, hkeeps⟩ : ∃ q : Poll × Connection × σ, r = w.journal.note q ∧
        (settles = true → ∃ m, q.2.1 = .member m) := by
      rcases hr with rfl | rfl
      · exact ⟨_, rfl, fun hs => by obtain ⟨m, rfl⟩ := hmember hs; exact (hb _ m).1⟩
      · exact ⟨_, rfl, fun hs => by obtain ⟨m, rfl⟩ := hmember hs; exact (hb _ m).2⟩
    obtain ⟨p, connection', client⟩ := q
    obtain ⟨j', hn, hx⟩ := hexact.polled hplace p connection' client
    rw [hn] at hj
    subst hj
    refine ⟨hclosed.trans h.closed_eq, hset.trans h.settles_eq, ?_, hcap ▸ h.capacity_pos, ?_, ?_⟩
    · simpa using hx
    · rw [hcap, Subscription.polled_queue]
      exact h.length_le
    · intro hcon'
      rw [Subscription.polled_loop] at hcon'
      rw [Subscription.polled_connection _ _ hplace, if_pos hcon']
      exact ⟨connection', rfl, hkeeps⟩
  · obtain ⟨rfl, rfl⟩ := Prod.mk.inj hr
    refine ⟨hclosed.trans h.closed_eq, hset.trans h.settles_eq, hexact.acked hplace _ _,
      h.capacity_pos, h.length_le, fun hcon' => ?_⟩
    obtain ⟨c, hc, hmember⟩ := h.connection hcon
    exact ⟨c, (if_pos hcon').trans hc, hmember⟩
  · refine ⟨hclosed.trans h.closed_eq, hset.trans h.settles_eq, ?_, h.capacity_pos, ?_,
      fun _ => h.connection hcon⟩
    · show w.journal.Exact first (w.received ++ (w.subscription.queue ++ [emission])) _
      rw [← List.append_assoc]
      exact hexact.queued hplace
    · show (w.subscription.queue ++ [emission]).length ≤ _
      rw [List.length_append]
      exact hroom

theorem run (h : w.Sound first settles) (hb : Broker.KeepsMembers σ) :
    (w.act .run).Sound first settles := by
  cases hcon : w.subscription.loop.isConnected with
  | false =>
      simp only [act, hcon, Bool.false_eq_true, if_false]
      exact h
  | true =>
      rcases act_run hcon with ⟨-, he⟩ | ⟨s, j, hs, he⟩
      · rw [he]
        exact h
      · rw [he]
        exact h.stepped hb hcon hs

theorem after (h : w.Sound first settles) (hb : Broker.KeepsMembers σ) (moves : List (Move σ)) :
    (w.after moves).Sound first settles := by
  induction moves generalizing w with
  | nil => exact h
  | cons move moves ih =>
      cases move with
      | run => exact ih (h.run hb)
      | receive => exact ih h.receive
      | turn client => exact ih (h.turn client)

end Sound

/-! ## Coming to an end -/

section Progress

/-- The loop has left its connection, or waits for it because it has found nothing. -/
def IsIdle (w : Pump E σ) : Prop :=
  w.subscription.loop.isConnected = false ∨
  w.subscription.loop.place = .reading ∧ w.subscription.wait.isSome ∧
    w.subscription.step w.journal = none

/-- A consumer that goes on reading. -/
def readings (n : Nat) : List (Move σ) := (List.replicate n [Move.receive, .run]).flatten

/-- Grows with each step that finds something. -/
def work (w : Pump E σ) : Nat :=
  2 * w.journal.deliveries.length + w.subscription.loop.place.isReading.toNat

theorem IsIdle.dealt (h : w.IsIdle) : w.subscription.loop.place.emission? = none ∧
    w.subscription.loop.place.ackIds = [] := by
  rcases h with h | ⟨h, -⟩
  · obtain ⟨he, ha, -⟩ := Loop.place_of_not_connected h w.journal
    exact ⟨he, ha⟩
  · rw [h]
    exact ⟨rfl, rfl⟩

theorem IsIdle.run (h : w.IsIdle) : w.act .run = w := by
  rcases h with h | ⟨-, -, h⟩
  · simp only [act, h, Bool.false_eq_true, if_false]
  · simp only [act, h, ite_self]

theorem IsIdle.receive (h : w.IsIdle) (hopen : w.subscription.closed = false) :
    (w.act .receive).IsIdle := by
  rw [act_receive hopen]
  rcases h with h | ⟨hplace, hwait, hstep⟩
  · exact .inl h
  · refine .inr ⟨hplace, hwait, ?_⟩
    rw [Subscription.step_eq_none_of_reading hopen hplace] at hstep
    exact (Subscription.step_eq_none_of_reading
      (s := { w.subscription with queue := w.subscription.queue.tail }) hopen hplace).2 hstep

/-- A loop that has room at its consumer can go on, unless it is idle. -/
theorem Sound.exists_step (h : w.Sound first settles)
    (hroom : w.subscription.queue.length < w.subscription.capacity) (hidle : ¬ w.IsIdle) :
    w.subscription.loop.isConnected = true ∧
      ∃ s j, w.subscription.step w.journal = some (s, j) := by
  have hcon : w.subscription.loop.isConnected = true :=
    Bool.not_eq_false _ ▸ fun hf => hidle (.inl hf)
  refine ⟨hcon, ?_⟩
  obtain ⟨c, hc, hmember⟩ := h.connection hcon
  cases hplace : w.subscription.loop.place with
  | reading =>
      cases hs : w.subscription.step w.journal with
      | some x => exact ⟨_, _, rfl⟩
      | none =>
          refine absurd (.inr ⟨hplace, ?_, hs⟩) hidle
          rcases (Subscription.step_eq_none_of_reading h.closed_eq hplace).1 hs with hn | ⟨x, hx, -⟩
          · exact absurd (hc.symm.trans hn) (by simp)
          · rw [hx]
            rfl
  | settling position id =>
      have hset := h.exact.settled
      rw [hplace, h.settles_eq] at hset
      cases settles with
      | false => simp [Place.ackIds] at hset
      | true =>
          obtain ⟨m, rfl⟩ := hmember rfl
          have hm : w.subscription.member? = some m := by rw [Subscription.member?, hc]
          exact ⟨_, _, Subscription.step_of_settling h.closed_eq hplace hm⟩
  | emitting position emission =>
      exact ⟨_, _, Subscription.step_of_emitting h.closed_eq hplace hroom⟩
  | opening => simp [Loop.isConnected, hplace] at hcon
  | resting pause => simp [Loop.isConnected, hplace] at hcon
  | finished result => simp [Loop.isConnected, hplace] at hcon

/-- A step finds something, or the loop is idle after it. -/
theorem stepped_works (hopen : w.subscription.closed = false)
    (hcon : w.subscription.loop.isConnected = true) {s : Subscription E} {j : Journal σ}
    (hs : w.subscription.Stepped w.journal s j) :
    IsIdle { w with journal := j, subscription := s } ∨
      w.work + 1 ≤ work { w with journal := j, subscription := s } := by
  rcases hs.of_connected hopen hcon with ⟨connection, r, hplace, hc, hr, rfl, rfl⟩ |
    ⟨position, id, m, r, hplace, hm, hr, rfl⟩ | ⟨position, emission, hplace, hroom, rfl, rfl⟩
  · have hloop := Subscription.polled_loop w.subscription r
    obtain ⟨⟨p, connection', client⟩, rfl⟩ : ∃ q : Poll × Connection × σ, r = w.journal.note q := by
      rcases hr with rfl | rfl <;> exact ⟨_, rfl⟩
    cases p with
    | delivery d =>
        have hlen : (w.journal.deliveries ++ [d]).length = w.journal.deliveries.length + 1 := by
          simp
        refine .inr ?_
        show 2 * _ + w.subscription.loop.place.isReading.toNat + 1 ≤
          2 * (w.journal.deliveries ++ [d]).length + _
        rw [hlen, hplace]
        exact Nat.le_add_right _ _
    | ended => exact .inl (.inl (hloop ▸ rfl))
    | failed e =>
        exact .inl (.inl (hloop ▸ (w.subscription.loop.failed_disconnects e).isConnected))
    | pending =>
        exact .inl (.inr ⟨hplace, rfl, Subscription.step_polled_pending hopen hplace connection' _⟩)
  · obtain ⟨rfl, rfl⟩ := Prod.mk.inj hr
    rcases w.subscription.loop.settled_cases position _ with ⟨-, hl⟩ | ⟨-, hl⟩
    · refine .inr (Nat.le_of_eq ?_)
      rw [hl]
      simp [work, hplace, Subscription.moveTo, Loop.passed, Place.isReading]
    · exact .inl (.inl hl.isConnected)
  · exact .inr (by simp [work, hplace, Subscription.moveTo, Loop.passed, Place.isReading])

theorem Sound.round (h : w.Sound first settles) (hb : Broker.KeepsMembers σ) :
    let w' := (w.act .receive).act .run
    w'.Sound first settles ∧ (w.IsIdle → w'.IsIdle) ∧ (w'.IsIdle ∨ w.work + 1 ≤ w'.work) := by
  intro w'
  have hr := h.receive
  refine ⟨hr.run hb, fun hi => ?_, ?_⟩
  · have hi' := hi.receive h.closed_eq
    rw [← hi'.run] at hi'
    exact hi'
  · by_cases hi : (w.act .receive).IsIdle
    · left
      rwa [show w' = w.act .receive from hi.run]
    · have hroom : (w.act .receive).subscription.queue.length <
          (w.act .receive).subscription.capacity := by
        have hle := h.length_le
        have hpos := h.capacity_pos
        rw [act_receive h.closed_eq]
        simp only [List.length_tail]
        omega
      obtain ⟨hcon, s, j, hs⟩ := hr.exists_step hroom hi
      have hwork : (w.act .receive).work = w.work := by rw [act_receive h.closed_eq]; rfl
      have hrun : w' = { w.act .receive with journal := j, subscription := s } := by
        simp only [w', act.eq_1, hcon, if_true, hs]
      rw [hrun, ← hwork]
      exact stepped_works hr.closed_eq hcon (Subscription.step_cases hs)

theorem Sound.readings (h : w.Sound first settles) (hb : Broker.KeepsMembers σ) (n : Nat) :
    (w.IsIdle → (w.after (readings n)).IsIdle) ∧
    ((w.after (readings n)).IsIdle ∨ w.work + n ≤ (w.after (readings n)).work) := by
  induction n generalizing w with
  | zero => exact ⟨id, .inr (Nat.le_refl _)⟩
  | succ n ih =>
      obtain ⟨h', hstays, hgoes⟩ := h.round hb
      obtain ⟨hstays', hgoes'⟩ := ih h'
      refine ⟨fun hi => hstays' (hstays hi), ?_⟩
      rcases hgoes with hi | hw
      · exact .inl (hstays' hi)
      · rcases hgoes' with hi | hw'
        · exact .inl hi
        · refine .inr (Nat.le_trans ?_ hw')
          omega

omit [DomainEvent E] [Broker σ] in
theorem work_bounds (w : Pump E σ) : 2 * w.journal.deliveries.length ≤ w.work ∧
    w.work ≤ 2 * w.journal.deliveries.length + 1 := by
  refine ⟨Nat.le_add_right _ _, Nat.add_le_add_left ?_ _⟩
  exact Bool.toNat_le _

end Progress

end Runs

/-! ## The main result -/

/-- A loop over any connection shows its consumer just the records that decode, and settles just the
others if it settles anything, in the order in which the connection has handed them out and once
each. Its progress is at the last record that it has dealt with. It goes on until the connection
ends or is lost: while its consumer reads, it takes no more than two rounds for a record before it
has to wait for the connection. -/
theorem filtering_exact [DomainEvent E] [Broker σ] (hb : Broker.KeepsMembers σ) (client : σ)
    (source : Source) (group : Option String) (bufferSize : Nat) (loop : Loop E)
    (connection : Connection) (hc : loop.settles = true → ∃ m, connection = .member m)
    (moves : List (Move σ)) :
    let w := (start client source group bufferSize loop connection).after moves
    let j := w.journal
    let place := w.subscription.loop.place
    let shown := w.received ++ w.subscription.queue
    shown ++ place.emission?.toList = j.deliveries.filterMap (Delivery.emission? E) ∧
    (j.acks.map (·.1) ++ place.ackIds =
      if loop.settles then (j.deliveries.filter (Delivery.isHidden E)).map fun d => [d.ackId]
      else []) ∧
    (∃ dealt rest, j.deliveries = dealt ++ rest ∧
      w.subscription.progress = (dealt.getLast?.map (·.position)).or loop.position ∧
      j.Open place rest) ∧
    (w.subscription.loop.isConnected = true ↔ j.ends = [] ∧ ∀ a ∈ j.acks, ¬ IsLost a.2) ∧
    (∀ x ∈ shown, x.record.isTombstone = false ∧ x.record.isSystem = false) ∧
    ∀ n, let v := w.after (readings n)
      (v.IsIdle ∧ v.subscription.loop.place.emission? = none ∧
        v.subscription.loop.place.ackIds = []) ∨
      n ≤ 2 * (v.journal.deliveries.length - j.deliveries.length) + 1 := by
  intro w j place shown
  have h : w.Sound loop.position loop.settles :=
    (sound_start client source group bufferSize loop hc).after hb moves
  refine ⟨h.exact.emitted, ?_, h.exact.progress, h.exact.connected_iff, fun x hx => ?_, fun n => ?_⟩
  · have hset := h.exact.settled
    rwa [h.settles_eq] at hset
  · have hmem : x ∈ j.deliveries.filterMap (Delivery.emission? E) :=
      h.exact.emitted ▸ List.mem_append_left _ hx
    obtain ⟨d, -, hd⟩ := List.mem_filterMap.1 hmem
    cases hv : (Verdict.of E d.record).delivered? with
    | none => simp [Delivery.emission?, hv] at hd
    | some record =>
        obtain rfl := Option.some.inj ((Delivery.emission?_eq_some hv).1.symm.trans hd)
        exact Verdict.visible_of_deliver (Verdict.eq_deliver hv)
  · intro v
    rcases (h.readings hb n).2 with hi | hw
    · exact .inl ⟨hi, hi.dealt⟩
    · have hlow : 2 * j.deliveries.length ≤ w.work := (work_bounds w).1
      have hwork : w.work + n ≤ v.work := hw
      have hhigh := (work_bounds v).2
      exact .inr (by omega)

/-- The server of a group that is to hand out the mark of a removed stream, a record that does not
decode, one of the log itself, and one that decodes. -/
def mixedServer : Server := (Server.start 0).after
  [.createGroup "$ce-account" "readers" {},
    .call (.append "account-2" .any [⟨"AccountClosed", [0], []⟩]),
    .call (.tombstone "account-2"),
    .call (.append "account-1" .any
      [⟨"Renamed", [], []⟩, ⟨"$metadata", [], []⟩, ⟨"AccountClosed", [0], []⟩])]

/-- A reader of that group that has settled all but the last record and received that one. -/
def mixedPump : Pump Domain.AccountEvent Server :=
  (start mixedServer (.category "account") (some "readers") 8 (.persistent none)
    (.member ⟨"$ce-account", "readers", 0, false⟩)).after
      (List.replicate 8 .run ++ [.receive])

theorem filtering_exact_mixedPump :
    ((Loop.persistent (E := Domain.AccountEvent) none).settles = true →
      ∃ m, Connection.member ⟨"$ce-account", "readers", 0, false⟩ = .member m) ∧
    Broker.KeepsMembers Server ∧
    mixedPump.journal.deliveries.map (fun d => (d.record.isTombstone, d.record.isSystem)) =
      [(true, true), (false, false), (false, true), (false, false)] ∧
    mixedPump.received.map (·.ackId) = [4] ∧
    mixedPump.journal.acks.map (·.1) = [[1], [2], [3]] ∧
    mixedPump.received ++ mixedPump.subscription.queue ++
        mixedPump.subscription.loop.place.emission?.toList =
      mixedPump.journal.deliveries.filterMap (Delivery.emission? Domain.AccountEvent) ∧
    ∀ x ∈ mixedPump.received ++ mixedPump.subscription.queue,
      x.record.isTombstone = false ∧ x.record.isSystem = false := by
  have hc : (Loop.persistent (E := Domain.AccountEvent) none).settles = true →
      ∃ m, Connection.member ⟨"$ce-account", "readers", 0, false⟩ = .member m := fun _ => ⟨_, rfl⟩
  have h := filtering_exact (E := Domain.AccountEvent) Broker.keepsMembers_server mixedServer
    (.category "account") (some "readers") 8 (.persistent none) _ hc
    (List.replicate 8 .run ++ [.receive])
  exact ⟨hc, Broker.keepsMembers_server, by decide +kernel, by decide +kernel, by decide +kernel,
    h.1, h.2.2.2.2.1⟩

end Pump

end EventSourcing
