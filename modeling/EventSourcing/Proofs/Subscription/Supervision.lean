import EventSourcing.Domain.Account
import EventSourcing.Proofs.Subscription.Step

/-!
# How often a connection is opened again

The client of a subscription writes down what came of its connections (`Chronicle`). Failures are
counted from the last connection that was opened, or from the beginning. As long as there are no
more of them than retries are configured, the loop goes on, and with one more it gives up
(`Supervised.retries_within_budget`).
-/

namespace EventSourcing

variable {E σ : Type}

/-! ## What comes of connections -/

inductive Connection.Outcome
  | opened
  /-- The connection could not be opened, or was lost. -/
  | failed (error : LogError)
  | ended
  deriving DecidableEq, Repr

namespace Connection.Outcome

/-- What an attempt to open a connection has come to. -/
def ofOpen : Except LogError Connection → Outcome
  | .ok _ => .opened
  | .error e => .failed e

/-- What asking a connection for a record tells about it. -/
def ofPoll? : Poll → Option Outcome
  | .failed e => some (.failed e)
  | .ended => some .ended
  | .delivery _ | .pending => none

/-- What the answer to settling a record tells about its connection. -/
def ofAck? : Except LogError Unit → Option Outcome
  | .ok _ => none
  | .error e => if e.isLostConnection then some (.failed e) else none

/-- The number of failures in a row when there were `count` before. -/
def next (count : Nat) : Outcome → Nat
  | .failed _ => count + 1
  | .opened | .ended => 0

/-- How many failures there were since a connection was opened, or since the beginning. -/
def streak (outcomes : List Outcome) : Nat := outcomes.foldl next 0

/-- How a loop ends after these outcomes that may open its connection again so many times in a row;
none if it goes on. -/
def verdict? (budget : Nat) (outcomes : List Outcome) : Option (Except SubscriptionError Unit) :=
  match outcomes.getLast? with
  | some (.failed e) =>
    if e.isLostConnection ∧ streak outcomes ≤ budget then none else some (.error (.log e))
  | some .ended => some (.ok ())
  | some .opened | none => none

theorem streak_append (outcomes : List Outcome) (o : Outcome) :
    streak (outcomes ++ [o]) = o.next (streak outcomes) := by
  simp [streak]

theorem verdict?_failed (budget : Nat) (outcomes : List Outcome) (e : LogError) :
    verdict? budget (outcomes ++ [.failed e]) =
      if e.isLostConnection ∧ streak outcomes + 1 ≤ budget then none
      else some (.error (.log e)) := by
  simp only [verdict?, List.getLast?_concat, streak_append, next]

end Connection.Outcome

open Connection (Outcome)

/-- A client that writes down what came of its connections. -/
structure Chronicle (σ : Type) where
  client : σ
  outcomes : List Outcome := []

namespace Chronicle

/-- Writes down what was told. -/
def note (c : Chronicle σ) (client : σ) (o : Option Outcome) : Chronicle σ :=
  ⟨client, c.outcomes ++ o.toList⟩

instance [Broker σ] : Broker (Chronicle σ) where
  createGroup c stream group settings :=
    let (r, client) := Broker.createGroup c.client stream group settings
    (r, { c with client := client })
  connect c stream group start :=
    let (r, client) := Broker.connect c.client stream group start
    (r, c.note client (some (.ofOpen r)))
  ask c connection :=
    let (p, connection, client) := Broker.ask c.client connection
    (p, connection, c.note client (Outcome.ofPoll? p))
  askAgain c connection :=
    let (p, connection, client) := Broker.askAgain c.client connection
    (p, connection, c.note client (Outcome.ofPoll? p))
  ack c m ids :=
    let (r, client) := Broker.ack c.client m ids
    (r, c.note client (Outcome.ofAck? r))
  nack c m ids action :=
    let (r, m, client) := Broker.nack c.client m ids action
    (r, m, { c with client := client })
  signal c := Broker.signal c.client
  now c := Broker.now c.client

theorem outcomes_connect [Broker σ] (c : Chronicle σ) (stream : String) (group : Option String)
    (start : Option Nat) : (Broker.connect c stream group start).2.outcomes =
      c.outcomes ++ [.ofOpen (Broker.connect c stream group start).1] := rfl

end Chronicle

/-! ## Supervised loops -/

/-- A subscription whose client writes down what came of its connections. -/
structure Supervised (E σ : Type) where
  chronicle : Chronicle σ
  subscription : Subscription E

/-- What happens next, as long as the consumer does not close its handle. -/
inductive Supervised.Move (σ : Type)
  /-- The loop takes a step, unless it has to wait. -/
  | run
  /-- The consumer asks for a record. -/
  | receive
  /-- The consumer hands a record back. -/
  | nack (id : RecordId) (action : Refusal)
  /-- Others do something with the client, or time goes by. -/
  | turn (client : σ)

namespace Supervised

variable [Broker σ]

/-- A subscription on its own, or in a group, whose loop has not run yet. -/
def start (client : σ) (source : Source) (group : Option String) (first : Option Nat)
    (bufferSize : Nat) (retry : Option RetrySettings) : Supervised E σ where
  chronicle := { client := client }
  subscription := match group with
    | none => .catchUp source first bufferSize retry
    | some group => .persistent source group bufferSize retry

def act [DomainEvent E] (w : Supervised E σ) : Move σ → Supervised E σ
  | .run =>
    match w.subscription.step w.chronicle with
    | some (s, c) => ⟨c, s⟩
    | none => w
  | .receive => { w with subscription := w.subscription.receive.2 }
  | .nack id action =>
    let (_, s, client) := w.subscription.nack w.chronicle.client id action
    ⟨{ w.chronicle with client := client }, s⟩
  | .turn client => { w with chronicle := { w.chronicle with client := client } }

def after [DomainEvent E] (w : Supervised E σ) (moves : List (Move σ)) : Supervised E σ :=
  moves.foldl act w

/-- How many times in a row a connection may be opened again. -/
def budget (retry : Option RetrySettings) : Nat := (retry.map (·.maxTimes)).getD 0

end Supervised

/-! ## The pauses of a loop -/

namespace Loop

theorem result?_of_connected {l : Loop E} (h : l.isConnected = true) : l.result? = none := by
  unfold isConnected at h
  unfold result?
  cases hplace : l.place with
  | finished r => simp [hplace] at h
  | _ => rfl

/-- The pauses that the loop has left. -/
def pauses (l : Loop E) : List Nat := (l.backoff.map Backoff.toList).getD []

/-- A loop starts with a pause for each time that its connection may be opened again. -/
theorem length_pauses_start {l : Loop E} {retry : Option RetrySettings}
    (h : l.backoff = retry.map Backoff.start) : l.pauses.length = Supervised.budget retry := by
  rw [pauses, h]
  cases retry with
  | none => rfl
  | some r => exact (Backoff.start r).length_toList

/-- After a failure the loop takes the first of its pauses or gives up. -/
theorem failed_cases (l : Loop E) (e : LogError) :
    (e.isLostConnection = true ∧ ∃ pause backoff, l.failed e =
      { l with place := .resting pause, backoff := some backoff } ∧
        l.pauses = pause :: backoff.toList) ∨
    ((e.isLostConnection = true → l.pauses = []) ∧
      l.failed e = { l with place := .finished (.error (.log e)) }) := by
  unfold failed pauses
  by_cases he : e.isLostConnection = true
  · rw [if_pos he]
    cases l.backoff with
    | none => exact .inr ⟨fun _ => rfl, rfl⟩
    | some b =>
        simp only [Option.bind_some, Option.map_some, Option.getD_some]
        cases hn : b.next? with
        | none =>
            have hnone : b.toList = [] :=
              List.length_eq_zero_iff.1 (b.length_toList.trans (b.next?_eq_none_iff.1 hn))
            exact .inr ⟨fun _ => hnone, rfl⟩
        | some taken => exact .inl ⟨he, taken.1, taken.2, rfl, Backoff.toList_of_next? hn⟩
  · rw [if_neg he]
    exact .inr ⟨fun h => absurd h he, rfl⟩

theorem received_frame [DomainEvent E] (l : Loop E) (d : Delivery) :
    (l.received d).retry = l.retry ∧ (l.received d).backoff = l.backoff ∧
      (l.received d).result? = none ∧ (l.received d).isConnected = true := by
  unfold received
  repeat' split
  all_goals exact ⟨rfl, rfl, rfl, rfl⟩

end Loop

/-! ## What a loop makes of the outcomes -/

/-- A loop that may open its connection again so many times in a row has come to where it is by
these outcomes. -/
structure Loop.Follows (l : Loop E) (retry : Option RetrySettings) (outcomes : List Outcome) :
    Prop where
  retry_eq : l.retry = retry
  result_eq : l.result? = Outcome.verdict? (Supervised.budget retry) outcomes
  /-- The loop has ended with the first outcome that ends it. -/
  before : ∀ earlier, earlier <+: outcomes → earlier ≠ outcomes →
    Outcome.verdict? (Supervised.budget retry) earlier = none
  /-- Each failure takes one pause. -/
  pauses_add : l.result? = none →
    l.pauses.length + Outcome.streak outcomes = Supervised.budget retry
  streak_le : Outcome.streak outcomes ≤ Supervised.budget retry + 1
  connected_iff : l.isConnected = true ↔ outcomes.getLast? = some .opened

namespace Loop.Follows

variable {l l' : Loop E} {retry : Option RetrySettings} {outcomes : List Outcome}

/-- A loop that keeps its pauses and its connection has come to the same. -/
theorem congr (h : l.Follows retry outcomes) (hretry : l'.retry = l.retry)
    (hbackoff : l'.backoff = l.backoff) (hresult : l'.result? = l.result?)
    (hcon : l'.isConnected = l.isConnected) : l'.Follows retry outcomes where
  retry_eq := hretry.trans h.retry_eq
  result_eq := hresult.trans h.result_eq
  before := h.before
  pauses_add hl := by
    rw [pauses, hbackoff]
    exact h.pauses_add (hresult ▸ hl)
  streak_le := h.streak_le
  connected_iff := hcon ▸ h.connected_iff

/-- A connected loop that has dealt with a record has come to the same. -/
theorem passed (h : l.Follows retry outcomes) (hcon : l.isConnected = true) (position : Nat) :
    (l.passed position).Follows retry outcomes :=
  h.congr rfl rfl (Loop.result?_of_connected hcon).symm hcon.symm

section Told

variable (h : l.Follows retry outcomes) (hl : l.result? = none)

include h hl

/-- A loop that has not ended has not been told anything that ends it. -/
theorem before_append (o : Outcome) (earlier : List Outcome) (hp : earlier <+: outcomes ++ [o])
    (hne : earlier ≠ outcomes ++ [o]) :
    Outcome.verdict? (Supervised.budget retry) earlier = none := by
  rcases List.prefix_concat_iff.1 hp with he | hp
  · exact absurd he hne
  · by_cases he : earlier = outcomes
    · rw [he, ← h.result_eq, hl]
    · exact h.before earlier hp he

theorem opened : l.opened.Follows retry (outcomes ++ [.opened]) where
  retry_eq := h.retry_eq
  result_eq := by simp [Loop.opened, Loop.result?, Outcome.verdict?]
  before := h.before_append hl .opened
  pauses_add _ := by
    rw [Outcome.streak_append, length_pauses_start (by rw [Loop.opened, h.retry_eq])]
    rfl
  streak_le := by
    rw [Outcome.streak_append]
    exact Nat.zero_le _
  connected_iff := by simp [Loop.opened, isConnected]

theorem stopped : l.stop.Follows retry (outcomes ++ [.ended]) where
  retry_eq := h.retry_eq
  result_eq := by simp [stop, Loop.result?, Outcome.verdict?]
  before := h.before_append hl .ended
  pauses_add hnone := by cases hnone
  streak_le := by
    rw [Outcome.streak_append]
    exact Nat.zero_le _
  connected_iff := by simp [stop, isConnected]

theorem failed (e : LogError) : (l.failed e).Follows retry (outcomes ++ [.failed e]) := by
  have hleft := h.pauses_add hl
  have hstreak := Outcome.streak_append outcomes (.failed e)
  simp only [Outcome.next] at hstreak
  rcases l.failed_cases e with ⟨he, pause, backoff, hf, hb⟩ | ⟨he, hf⟩
  · rw [hb, List.length_cons] at hleft
    have hle : Outcome.streak outcomes + 1 ≤ Supervised.budget retry := by omega
    rw [hf]
    refine ⟨h.retry_eq, ?_, h.before_append hl _, fun _ => ?_, by omega, ?_⟩
    · rw [Outcome.verdict?_failed, if_pos ⟨he, hle⟩]
      rfl
    · rw [hstreak]
      show backoff.toList.length + _ = _
      omega
    · simp [isConnected]
  · have hnot : ¬ (e.isLostConnection = true ∧
        Outcome.streak outcomes + 1 ≤ Supervised.budget retry) := by
      rintro ⟨hlost, hle⟩
      rw [he hlost, List.length_nil] at hleft
      omega
    rw [hf]
    refine ⟨h.retry_eq, ?_, h.before_append hl _, fun hnone => ?_, by omega, ?_⟩
    · rw [Outcome.verdict?_failed, if_neg hnot]
      rfl
    · cases hnone
    · simp [isConnected]

end Told

section Connected

variable [DomainEvent E] (h : l.Follows retry outcomes)

include h

theorem polled (hplace : l.place = .reading) (p : Poll) :
    (l.polled p).Follows retry (outcomes ++ (Outcome.ofPoll? p).toList) := by
  have hcon : l.isConnected = true := by rw [isConnected, hplace]
  have hl := Loop.result?_of_connected hcon
  cases p with
  | delivery d =>
      obtain ⟨hretry, hbackoff, hresult, hcon'⟩ := l.received_frame d
      simp only [Outcome.ofPoll?, Option.toList_none, List.append_nil]
      exact h.congr hretry hbackoff (hresult.trans hl.symm) (hcon'.trans hcon.symm)
  | ended => exact h.stopped hl
  | failed e => exact h.failed hl e
  | pending =>
      simp only [Outcome.ofPoll?, Option.toList_none, List.append_nil]
      exact h

omit [DomainEvent E] in
theorem settled {position : Nat} {id : RecordId} (hplace : l.place = .settling position id)
    (r : Except LogError Unit) :
    (l.settled position r).Follows retry (outcomes ++ (Outcome.ofAck? r).toList) := by
  have hcon : l.isConnected = true := by rw [isConnected, hplace]
  cases r with
  | ok _ =>
      simp only [Outcome.ofAck?, Option.toList_none, List.append_nil]
      exact h.passed hcon position
  | error e =>
      simp only [Outcome.ofAck?, Loop.settled]
      split
      · exact h.failed (Loop.result?_of_connected hcon) e
      · simp only [Option.toList_none, List.append_nil]
        exact h.passed hcon position

end Connected

end Loop.Follows

/-! ## Runs -/

namespace Subscription

section Handle

variable (s : Subscription E)

/-- The consumer's handle only takes records out of the queue. -/
theorem receive_frame : s.receive.2 = { s with queue := s.receive.2.queue } := by
  unfold receive
  repeat' split
  all_goals rfl

theorem nack_frame [Broker σ] (client : σ) (id : RecordId) (action : Refusal) :
    (s.nack client id action).2.1 =
      { s with connection := (s.nack client id action).2.1.connection } := by
  rcases s.nack_eq client id action with ⟨e, h⟩ | ⟨m, -, h⟩ <;> rw [h]

/-- The consumer is told that there is no more when the loop has ended and the queue is empty. -/
theorem receive_eq_ended_iff (hopen : s.closed = false) :
    s.receive.1 = .ended ↔ s.queue = [] ∧ s.loop.result?.isSome = true := by
  unfold receive
  rw [hopen]
  cases s.queue with
  | nil => cases s.loop.result? <;> simp
  | cons emission rest => simp

end Handle

section Resting

variable [DomainEvent E] [Broker σ] {client : σ} {s : Subscription E} (hopen : s.closed = false)

include hopen

theorem step_of_opening (hplace : s.loop.place = .opening) :
    s.step client = match Broker.connect client s.stream s.group s.loop.start with
      | (.ok connection, client) =>
        some ({ s with connection := some connection }.moveTo s.loop.opened, client)
      | (.error e, client) => some (s.moveTo (s.loop.failed e), client) := by
  simp only [step, hplace, hopen]
  rfl

/-- A loop that rests waits for the end of its pause. -/
theorem step_of_resting {pause : Nat} (hplace : s.loop.place = .resting pause) :
    s.step client = match s.wait with
      | none =>
        let due := Broker.now client + Backoff.spread pause
        some ({ s with wait := some ⟨Broker.signal client, some due⟩ }, client)
      | some w => if isDue client w then some (s.moveTo s.loop.rested, client) else none := by
  simp only [step, hplace, hopen]
  rfl

end Resting

end Subscription

namespace Supervised

variable [DomainEvent E] [Broker σ] {retry : Option RetrySettings} {w : Supervised E σ}

/-- The loop goes on as it was told to, and rests until some time. -/
structure Sound (retry : Option RetrySettings) (w : Supervised E σ) : Prop where
  closed_eq : w.subscription.closed = false
  follows : w.subscription.loop.Follows retry w.chronicle.outcomes
  due : ∀ pause wait, w.subscription.loop.place = .resting pause →
    w.subscription.wait = some wait → ∃ time, wait.due = some time

namespace Sound

/-- What a call for a record has told is written down. -/
theorem polled (h : w.Sound retry) (hplace : w.subscription.loop.place = .reading)
    {connection : Connection} {r : Poll × Connection × Chronicle σ}
    (hr : r = Broker.ask w.chronicle connection ∨ r = Broker.askAgain w.chronicle connection) :
    (w.subscription.polled r).1.loop.Follows retry (w.subscription.polled r).2.outcomes := by
  rw [Subscription.polled_loop, Subscription.polled_client]
  have hnoted : r.2.2.outcomes = w.chronicle.outcomes ++ (Outcome.ofPoll? r.1).toList := by
    rcases hr with rfl | rfl <;> rfl
  rw [hnoted]
  exact h.follows.polled hplace r.1

theorem stepped (h : w.Sound retry) {s : Subscription E} {c : Chronicle σ}
    (hs : w.subscription.Stepped w.chronicle s c) : s.loop.Follows retry c.outcomes := by
  have hf := h.follows
  cases hs with
  | stopped hclosed => exact absurd (hclosed.symm.trans h.closed_eq) (by simp)
  | connected hplace hc =>
      have hnoted := w.chronicle.outcomes_connect w.subscription.stream w.subscription.group
        w.subscription.loop.start
      rw [hc] at hnoted
      rw [hnoted]
      exact hf.opened (by rw [Loop.result?, hplace])
  | refused hplace hc =>
      have hnoted := w.chronicle.outcomes_connect w.subscription.stream w.subscription.group
        w.subscription.loop.start
      rw [hc] at hnoted
      rw [hnoted]
      exact hf.failed (by rw [Loop.result?, hplace]) _
  | polled hplace hc hr => exact h.polled hplace hr
  | settled hplace hm hr =>
      obtain ⟨rfl, rfl⟩ := Prod.mk.inj hr
      exact hf.settled hplace _
  | queued hplace hroom => exact hf.passed (by rw [Loop.isConnected, hplace]) _
  | paused hplace wait => exact hf
  | rested hplace =>
      refine hf.congr rfl rfl ?_ ?_
      · rw [Loop.result?, Loop.result?, hplace]
        rfl
      · rw [Loop.isConnected, Loop.isConnected, hplace]
        rfl

/-- Only a loop that begins to rest waits for the end of a pause. -/
theorem due_stepped (h : w.Sound retry) {s : Subscription E} {c : Chronicle σ}
    (hs : w.subscription.step w.chronicle = some (s, c)) {pause : Nat} {wait : Wait}
    (hplace : s.loop.place = .resting pause) (hwait : s.wait = some wait) :
    ∃ time, wait.due = some time := by
  -- A loop that moves to another place does not wait there yet.
  have hmoved {s' : Subscription E} {l : Loop E} (he : s = s'.moveTo l) : False := by
    rw [he] at hwait
    cases hwait
  by_cases hrest : ∃ pause, w.subscription.loop.place = .resting pause
  · obtain ⟨pause', hrest⟩ := hrest
    rw [Subscription.step_of_resting h.closed_eq hrest] at hs
    cases hw : w.subscription.wait with
    | none =>
        simp only [hw, Option.some.injEq, Prod.mk.injEq] at hs
        rw [← hs.1, Option.some.injEq] at hwait
        exact ⟨_, congrArg Wait.due hwait.symm⟩
    | some wait' =>
        simp only [hw] at hs
        split at hs
        · exact (hmoved (Prod.mk.inj (Option.some.inj hs)).1.symm).elim
        · cases hs
  · cases Subscription.step_cases hs with
    | @polled connection r hreading hc hr =>
        obtain ⟨p, connection', client⟩ := r
        cases p with
        | pending => cases hreading.symm.trans hplace
        | _ => exact (hmoved rfl).elim
    | paused hplace' => exact absurd ⟨_, hplace'⟩ hrest
    | rested hplace' => exact absurd ⟨_, hplace'⟩ hrest
    | _ => exact (hmoved rfl).elim

theorem run (h : w.Sound retry) : (w.act .run).Sound retry := by
  unfold act
  cases hs : w.subscription.step w.chronicle with
  | none => exact h
  | some x =>
      obtain ⟨s, c⟩ := x
      have hstepped := Subscription.step_cases hs
      exact ⟨hstepped.frame.2.2.2.1.trans h.closed_eq, h.stepped hstepped,
        fun _ _ => h.due_stepped hs⟩

theorem act (h : w.Sound retry) (move : Move σ) : (w.act move).Sound retry := by
  cases move with
  | run => exact h.run
  | receive =>
      have hframe := w.subscription.receive_frame
      simp only [Supervised.act]
      rw [hframe]
      exact ⟨h.closed_eq, h.follows, h.due⟩
  | nack id action =>
      have hframe := w.subscription.nack_frame w.chronicle.client id action
      simp only [Supervised.act]
      rw [hframe]
      exact ⟨h.closed_eq, h.follows, h.due⟩
  | turn client => exact ⟨h.closed_eq, h.follows, h.due⟩

theorem after (h : w.Sound retry) (moves : List (Move σ)) : (w.after moves).Sound retry := by
  induction moves generalizing w with
  | nil => exact h
  | cons move moves ih => exact ih (h.act move)

end Sound

omit [DomainEvent E] [Broker σ] in
theorem sound_start (client : σ) (source : Source) (group : Option String) (first : Option Nat)
    (bufferSize : Nat) (retry : Option RetrySettings) :
    (start client source group first bufferSize retry : Supervised E σ).Sound retry := by
  have hstart (l : Loop E) (hplace : l.place = .opening) (hretry : l.retry = retry)
      (hbackoff : l.backoff = retry.map .start) : l.Follows retry [] := by
    refine ⟨hretry, ?_, ?_, fun _ => ?_, Nat.zero_le _, ?_⟩
    · rw [Loop.result?, hplace]
      rfl
    · exact fun earlier hp hne => absurd (List.prefix_nil.1 hp) hne
    · exact Loop.length_pauses_start hbackoff
    · simp [Loop.isConnected, hplace]
  cases group <;>
    exact ⟨rfl, hstart _ rfl rfl rfl, fun _ _ hplace => by cases hplace⟩

/-! ## Opening the connection again -/

/-- The next outcome is that of a connection that the loop opens: at once, or when it has rested. -/
def Reopens (w : Supervised E σ) : Prop :=
  let opens (client : σ) := Broker.connect client w.subscription.stream w.subscription.group
    w.subscription.loop.start
  (w.subscription.loop.place = .opening ∧ (w.act .run).chronicle.outcomes =
    w.chronicle.outcomes ++ [.ofOpen (opens w.chronicle.client).1]) ∨
  ((∃ pause, w.subscription.loop.place = .resting pause) ∧
    ∃ due, ∀ client, due ≤ Broker.now client →
      ∃ n, (w.after (.run :: .turn client :: List.replicate n .run)).chronicle.outcomes =
        w.chronicle.outcomes ++ [.ofOpen (opens client).1])

section Opening

variable (hopen : w.subscription.closed = false)

include hopen

theorem run_opening (hplace : w.subscription.loop.place = .opening) :
    (w.act .run).chronicle.outcomes = w.chronicle.outcomes ++
      [.ofOpen (Broker.connect w.chronicle.client w.subscription.stream w.subscription.group
        w.subscription.loop.start).1] := by
  have hnoted := w.chronicle.outcomes_connect w.subscription.stream w.subscription.group
    w.subscription.loop.start
  unfold act
  rw [Subscription.step_of_opening hopen hplace]
  cases hc : Broker.connect w.chronicle w.subscription.stream w.subscription.group
      w.subscription.loop.start with
  | mk result c =>
      have hresult : (Broker.connect w.chronicle.client w.subscription.stream w.subscription.group
        w.subscription.loop.start).1 = result := congrArg Prod.fst hc
      rw [hc] at hnoted
      rw [hresult, ← hnoted]
      cases result <;> rfl

/-- The end of its pause lets the loop open a connection. -/
theorem run_due {pause : Nat} {wait : Wait} (hplace : w.subscription.loop.place = .resting pause)
    (hwait : w.subscription.wait = some wait)
    (hdue : Subscription.isDue w.chronicle.client wait = true) : w.act .run =
      { w with subscription := w.subscription.moveTo w.subscription.loop.rested } := by
  have hdue' : Subscription.isDue w.chronicle wait = true := hdue
  unfold act
  rw [Subscription.step_of_resting hopen hplace, hwait]
  simp only [hdue', if_true]

theorem run_run_due {pause : Nat} {wait : Wait}
    (hplace : w.subscription.loop.place = .resting pause) (hwait : w.subscription.wait = some wait)
    (hdue : Subscription.isDue w.chronicle.client wait = true) :
    ((w.act .run).act .run).chronicle.outcomes = w.chronicle.outcomes ++
      [.ofOpen (Broker.connect w.chronicle.client w.subscription.stream w.subscription.group
        w.subscription.loop.start).1] := by
  rw [run_due hopen hplace hwait hdue]
  exact run_opening (w := ⟨w.chronicle, w.subscription.moveTo w.subscription.loop.rested⟩)
    hopen rfl

end Opening

/-- A loop that rests knows the end of its pause when it has run, or the pause is over. -/
theorem Sound.run_resting (h : w.Sound retry) {pause : Nat}
    (hplace : w.subscription.loop.place = .resting pause) :
    (∃ wait time, wait.due = some time ∧ w.act .run = { w with subscription.wait := some wait }) ∨
      w.act .run = { w with subscription := w.subscription.moveTo w.subscription.loop.rested } := by
  have hopen := h.closed_eq
  cases hwait : w.subscription.wait with
  | none =>
      let time := Broker.now w.chronicle + Backoff.spread pause
      refine .inl ⟨⟨Broker.signal w.chronicle, some time⟩, time, rfl, ?_⟩
      simp only [Supervised.act, Subscription.step_of_resting hopen hplace, hwait, time]
  | some wait =>
      obtain ⟨time, htime⟩ := h.due pause wait hplace hwait
      by_cases hdue : Subscription.isDue w.chronicle wait = true
      · exact .inr (run_due hopen hplace hwait hdue)
      · have hrun : w.act .run = w := by
          simp only [Supervised.act, Subscription.step_of_resting hopen hplace, hwait, hdue]
          rfl
        exact .inl ⟨wait, time, htime, by rw [hrun, ← hwait]⟩

theorem Sound.reopens (h : w.Sound retry) (hresult : w.subscription.loop.result? = none)
    (hcon : w.subscription.loop.isConnected = false) : w.Reopens := by
  have hopen := h.closed_eq
  cases hplace : w.subscription.loop.place with
  | opening => exact .inl ⟨hplace, run_opening hopen hplace⟩
  | resting pause =>
      refine .inr ⟨⟨pause, hplace⟩, ?_⟩
      rcases h.run_resting hplace with ⟨wait, time, htime, hrun⟩ | hrun
      · refine ⟨time, fun client hle => ⟨2, ?_⟩⟩
        have hdue : Subscription.isDue client wait = true := by
          simp [Subscription.isDue, htime, hle]
        show ((((w.act .run).act (.turn client)).act .run).act .run).chronicle.outcomes = _
        rw [hrun]
        exact run_run_due (w := ⟨⟨client, w.chronicle.outcomes⟩,
          { w.subscription with wait := some wait }⟩) hopen hplace rfl hdue
      · refine ⟨0, fun client _ => ⟨1, ?_⟩⟩
        show (((w.act .run).act (.turn client)).act .run).chronicle.outcomes = _
        rw [hrun]
        exact run_opening (w := ⟨⟨client, w.chronicle.outcomes⟩,
          w.subscription.moveTo w.subscription.loop.rested⟩) hopen rfl
  | finished result => simp [Loop.result?, hplace] at hresult
  | _ => simp [Loop.isConnected, hplace] at hcon

/-! ## The main result -/

/-- Whatever a subscription is told by its client, it ends with the first failure that is not that
of a connection, or when more connections in a row have failed than it may open again, or when a
connection comes to its end, and else it opens its connection again. Its consumer is not told that
there is no more before that. -/
theorem retries_within_budget (client : σ) (source : Source) (group : Option String)
    (first : Option Nat) (bufferSize : Nat) (retry : Option RetrySettings) (moves : List (Move σ)) :
    let w : Supervised E σ := (start client source group first bufferSize retry).after moves
    let outcomes := w.chronicle.outcomes
    let result := w.subscription.loop.result?
    result = Outcome.verdict? (budget retry) outcomes ∧
    (∀ earlier, earlier <+: outcomes → earlier ≠ outcomes →
      Outcome.verdict? (budget retry) earlier = none) ∧
    Outcome.streak outcomes ≤ budget retry + 1 ∧
    (w.subscription.loop.isConnected = true ↔ outcomes.getLast? = some .opened) ∧
    (result = none → w.subscription.loop.isConnected = false → w.Reopens) ∧
    (w.subscription.receive.1 = .ended ↔ w.subscription.queue = [] ∧ result.isSome = true) := by
  intro w outcomes result
  have h : w.Sound retry := (sound_start client source group first bufferSize retry).after moves
  exact ⟨h.follows.result_eq, h.follows.before, h.follows.streak_le,
    h.follows.connected_iff, h.reopens, w.subscription.receive_eq_ended_iff h.closed_eq⟩

/-- A server that turns everybody away. -/
def turningAway (now : Nat) : Server := (Server.start now).turnAway 1

example :
    let w : Supervised Domain.AccountEvent Server :=
      (start (turningAway 0) (.stream "account-1") none none 8 (some { maxTimes := 1 })).after
        [.run, .run, .turn (turningAway 1000), .run, .run]
    w.chronicle.outcomes = List.replicate 2 (.failed (.connection "subscribe refused")) ∧
      w.subscription.loop.result? = some (.error (.log (.connection "subscribe refused"))) :=
  ⟨rfl, rfl⟩

end Supervised

end EventSourcing
