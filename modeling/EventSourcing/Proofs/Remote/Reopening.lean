import EventSourcing.Proofs.Subscription.Supervision
import EventSourcing.Remote.Line
import EventSourcing.Remote.Session

/-!
# Opening a subscription over a server again

Nobody asks a server whether a subscription can be opened. What is wrong shows when its first record
is asked for, and by then the loop has got all its pauses back. So the number of retries only tells
whether the loop tries again at all: one that may try again does so for ever
(`Supervised.retries_do_not_bound`).
-/

namespace EventSourcing

open Connection (Outcome)
open Remote (Item Line Responder Script ServerError readerError)

variable {E σ : Type}

/-! ## Failing in a row -/

/-- What comes of subscriptions that fail one after the other when a record is asked for. -/
def attempts (errors : List LogError) : List Outcome :=
  errors.flatMap fun e => [.opened, .failed e]

theorem attempts_append (errors errors' : List LogError) :
    attempts (errors ++ errors') = attempts errors ++ attempts errors' :=
  List.flatMap_append ..

/-- How a loop ends after failing in a row that has one retry at least, or none. -/
theorem verdict?_attempts (budget : Nat) (errors : List LogError) :
    Outcome.verdict? budget (attempts errors) = errors.getLast?.bind fun e =>
      if e.isLostConnection ∧ 0 < budget then none else some (.error (.log e)) := by
  rcases List.eq_nil_or_concat errors with rfl | ⟨errors, e, rfl⟩
  · rfl
  · have hsplit : attempts (errors ++ [e]) = (attempts errors ++ [.opened]) ++ [.failed e] := by
      rw [attempts_append]
      simp [attempts]
    rw [List.concat_eq_append, List.getLast?_concat, hsplit, Outcome.verdict?_failed,
      Outcome.streak_append]
    rfl

/-! ## Lines -/

namespace Remote

theorem isLostConnection_readerError (stream : String) (e : ServerError) :
    (readerError stream e).isLostConnection = true ↔ e ≠ .resourceDeleted := by
  cases e <;> simp [readerError, LogError.isLostConnection]

theorem Line.ask_ne_ended (l : Line σ) (c : Connection) : (l.ask c).1 ≠ .ended := by
  rcases l.ask_cases c with ⟨-, h⟩ | ⟨slot, items, -, h⟩ | ⟨e, items, -, h⟩ <;>
    rw [h] <;> exact nofun

end Remote

/-! ## Loops that are never out of pauses -/

/-- A loop has come to where it is by subscriptions that were opened every time. -/
structure Loop.Fresh (l : Loop E) (retry : RetrySettings) (outcomes : List Outcome) : Prop where
  retry_eq : l.retry = some retry
  backoff_eq : l.isConnected = true → l.backoff = some (.start retry)
  pause_eq : ∀ pause, l.place = .resting pause → pause = retry.minDelay
  outcomes_eq : ∃ errors, outcomes =
    attempts errors ++ if l.isConnected then [.opened] else []

/-- Opening a connection gives a loop its pauses back, so it rests when the connection fails. -/
theorem Loop.opened_failed {l : Loop E} {retry : RetrySettings} (h : l.retry = some retry)
    (hretry : 0 < retry.maxTimes) {e : LogError} (he : e.isLostConnection = true) :
    (l.opened.failed e).place = .resting retry.minDelay ∧
      (l.opened.failed e).position = l.position := by
  obtain ⟨times, htimes⟩ := Nat.exists_eq_add_of_lt hretry
  rw [failed, if_pos he, opened, h, Option.map_some, Option.bind_some, Backoff.start, htimes,
    Nat.zero_add]
  exact ⟨rfl, rfl⟩

namespace Loop.Fresh

variable {l l' : Loop E} {retry : RetrySettings} {outcomes : List Outcome}

theorem opened (h : l.Fresh retry outcomes) (hcon : l.isConnected = false) :
    l.opened.Fresh retry (outcomes ++ [.opened]) where
  retry_eq := h.retry_eq
  backoff_eq _ := by rw [Loop.opened, h.retry_eq, Option.map_some]
  pause_eq _ hplace := nomatch hplace
  outcomes_eq := by
    obtain ⟨errors, he⟩ := h.outcomes_eq
    exact ⟨errors, by rw [he, hcon]; simp [Loop.opened, isConnected]⟩

theorem rested (h : l.Fresh retry outcomes) (hcon : l.isConnected = false) :
    l.rested.Fresh retry outcomes where
  retry_eq := h.retry_eq
  backoff_eq hcon' := nomatch hcon'
  pause_eq _ hplace := nomatch hplace
  outcomes_eq := by
    obtain ⟨errors, he⟩ := h.outcomes_eq
    exact ⟨errors, by rw [he, hcon]; rfl⟩

section Connected

variable (h : l.Fresh retry outcomes) (hcon : l.isConnected = true)

include h hcon

/-- A connected loop that stays connected is as fresh as before. -/
theorem congr (hretry : l'.retry = l.retry) (hbackoff : l'.backoff = l.backoff)
    (hcon' : l'.isConnected = true) : l'.Fresh retry outcomes where
  retry_eq := hretry.trans h.retry_eq
  backoff_eq _ := hbackoff.trans (h.backoff_eq hcon)
  pause_eq _ hplace := by rw [isConnected, hplace] at hcon'; cases hcon'
  outcomes_eq := by
    obtain ⟨errors, he⟩ := h.outcomes_eq
    exact ⟨errors, by rw [he, hcon, hcon']⟩

theorem failed (e : LogError) : (l.failed e).Fresh retry (outcomes ++ [.failed e]) := by
  obtain ⟨errors, he⟩ := h.outcomes_eq
  have hall : outcomes ++ [.failed e] = attempts (errors ++ [e]) := by
    rw [he, hcon, attempts_append]
    simp [attempts]
  have hplaces : (∃ backoff, l.failed e =
      { l with place := .resting retry.minDelay, backoff := some backoff }) ∨
      l.failed e = { l with place := .finished (.error (.log e)) } := by
    unfold Loop.failed
    rw [h.backoff_eq hcon]
    obtain ⟨_, _, maxTimes⟩ := retry
    split
    · cases maxTimes with
      | zero => exact .inr rfl
      | succ times => exact .inl ⟨_, rfl⟩
    · exact .inr rfl
  rw [hall]
  rcases hplaces with ⟨backoff, hf⟩ | hf
  · rw [hf]
    exact ⟨h.retry_eq, nofun, fun _ hplace => (Place.resting.inj hplace).symm,
      errors ++ [e], (List.append_nil _).symm⟩
  · rw [hf]
    exact ⟨h.retry_eq, nofun, nofun, errors ++ [e], (List.append_nil _).symm⟩

theorem polled [DomainEvent E] {p : Poll} (hp : p ≠ .ended) :
    (l.polled p).Fresh retry (outcomes ++ (Outcome.ofPoll? p).toList) := by
  cases p with
  | delivery d =>
      obtain ⟨hretry, hbackoff, -, hcon'⟩ := l.received_frame d
      simp only [Outcome.ofPoll?, Option.toList_none, List.append_nil]
      exact h.congr hcon hretry hbackoff hcon'
  | ended => exact absurd rfl hp
  | failed e => exact h.failed hcon e
  | pending =>
      simp only [Outcome.ofPoll?, Option.toList_none, List.append_nil]
      exact h

theorem settled (position : Nat) (r : Except LogError Unit) :
    (l.settled position r).Fresh retry (outcomes ++ (Outcome.ofAck? r).toList) := by
  have hpassed : (l.passed position).Fresh retry outcomes := h.congr hcon rfl rfl rfl
  cases r with
  | ok _ =>
      simp only [Outcome.ofAck?, Option.toList_none, List.append_nil]
      exact hpassed
  | error e =>
      simp only [Outcome.ofAck?, Loop.settled]
      split
      · exact h.failed hcon e
      · simp only [Option.toList_none, List.append_nil]
        exact hpassed

end Connected

end Loop.Fresh

namespace Supervised

variable [DomainEvent E] [Responder σ] {retry : RetrySettings} {w : Supervised E (Line σ)}

/-- A subscription on its own over a server. -/
structure Fresh (retry : RetrySettings) (w : Supervised E (Line σ)) : Prop where
  sound : w.Sound (some retry)
  group_eq : w.subscription.group = none
  loop : w.subscription.loop.Fresh retry w.chronicle.outcomes

namespace Fresh

theorem stepped (h : w.Fresh retry) {s : Subscription E} {c : Chronicle (Line σ)}
    (hs : w.subscription.Stepped w.chronicle s c) : s.loop.Fresh retry c.outcomes := by
  have hl := h.loop
  have hcon {place : Place E} (hplace : w.subscription.loop.place = place) :
      w.subscription.loop.isConnected =
        { w.subscription.loop with place := place }.isConnected := by
    rw [← hplace]
  cases hs with
  | stopped hclosed => exact absurd (hclosed.symm.trans h.sound.closed_eq) (by simp)
  | connected hplace hc =>
      have hnoted := w.chronicle.outcomes_connect w.subscription.stream w.subscription.group
        w.subscription.loop.start
      rw [hc] at hnoted
      rw [hnoted]
      exact hl.opened (hcon hplace)
  | refused hplace hc =>
      rw [h.group_eq] at hc
      cases (Prod.mk.inj hc).1
  | @polled connection r hplace hc hr =>
      rw [Subscription.polled_loop, Subscription.polled_client]
      have hp := Line.ask_ne_ended w.chronicle.client connection
      rcases hr with rfl | rfl <;> exact hl.polled (hcon hplace) hp
  | @settled position id m r client' hplace hm hr =>
      obtain ⟨rfl, rfl⟩ := Prod.mk.inj hr
      exact hl.settled (hcon hplace) position (.error Remote.Pipe.closedError)
  | queued hplace hroom => exact hl.congr (hcon hplace) rfl rfl rfl
  | paused hplace wait => exact hl
  | rested hplace => exact hl.rested (hcon hplace)

theorem run (h : w.Fresh retry) : (w.act .run).Fresh retry := by
  have hsound := h.sound.run
  unfold Supervised.act at hsound ⊢
  cases hs : w.subscription.step w.chronicle with
  | none => exact h
  | some x =>
      obtain ⟨s, c⟩ := x
      have hstepped := Subscription.step_cases hs
      rw [hs] at hsound
      exact ⟨hsound, hstepped.frame.2.1.trans h.group_eq, h.stepped hstepped⟩

theorem act (h : w.Fresh retry) (move : Move (Line σ)) : (w.act move).Fresh retry := by
  have hsound := h.sound.act move
  cases move with
  | run => exact h.run
  | receive =>
      have hframe := w.subscription.receive_frame
      simp only [Supervised.act] at hsound ⊢
      rw [hframe] at hsound ⊢
      exact ⟨hsound, h.group_eq, h.loop⟩
  | nack id action =>
      have hframe := w.subscription.nack_frame w.chronicle.client id action
      simp only [Supervised.act] at hsound ⊢
      rw [hframe] at hsound ⊢
      exact ⟨hsound, h.group_eq, h.loop⟩
  | turn client => exact ⟨hsound, h.group_eq, h.loop⟩

theorem after (h : w.Fresh retry) (moves : List (Move (Line σ))) : (w.after moves).Fresh retry := by
  induction moves generalizing w with
  | nil => exact h
  | cons move moves ih => exact ih (h.act move)

end Fresh

omit [DomainEvent E] [Responder σ] in
theorem fresh_start (line : Line σ) (source : Source) (first : Option Nat) (bufferSize : Nat)
    (retry : RetrySettings) :
    (start line source none first bufferSize (some retry) : Supervised E (Line σ)).Fresh retry where
  sound := sound_start line source none first bufferSize (some retry)
  group_eq := rfl
  loop := ⟨rfl, nofun, nofun, [], rfl⟩

/-! ## Failing for ever -/

/-- What a loop over a server meets with. -/
inductive Turn
  /-- The loop takes a step, unless it has to wait. -/
  | run
  | elapse (time : Nat)
  /-- The server gives something to the latest subscription. -/
  | give (item : Item)

def turn (w : Supervised E (Line σ)) : Turn → Supervised E (Line σ)
  | .run => w.act .run
  | .elapse time => w.act (.turn (w.chronicle.client.elapse time))
  | .give item => w.act (.turn (w.chronicle.client.give item))

def afterTurns (w : Supervised E (Line σ)) (turns : List Turn) : Supervised E (Line σ) :=
  turns.foldl turn w

theorem afterTurns_append (w : Supervised E (Line σ)) (turns turns' : List Turn) :
    w.afterTurns (turns ++ turns') = (w.afterTurns turns).afterTurns turns' :=
  List.foldl_append

theorem Fresh.turn (h : w.Fresh retry) (t : Turn) : (w.turn t).Fresh retry := by
  cases t with
  | run => exact h.act .run
  | elapse time => exact h.act (.turn (w.chronicle.client.elapse time))
  | give item => exact h.act (.turn (w.chronicle.client.give item))

theorem Fresh.afterTurns (h : w.Fresh retry) (turns : List Turn) :
    (w.afterTurns turns).Fresh retry := by
  induction turns generalizing w with
  | nil => exact h
  | cons t turns ih => exact ih (h.turn t)

/-- The loop has got on from one state to another without a record, and has noted `outcomes`. -/
structure Fails (w w' : Supervised E (Line σ)) (outcomes : List Outcome) : Prop where
  outcomes_eq : w'.chronicle.outcomes = w.chronicle.outcomes ++ outcomes
  stream_eq : w'.subscription.stream = w.subscription.stream
  progress_eq : w'.subscription.progress = w.subscription.progress
  queue_eq : w'.subscription.queue = w.subscription.queue

omit [DomainEvent E] [Responder σ] in
theorem Fails.trans {w w' w'' : Supervised E (Line σ)} {outcomes outcomes' : List Outcome}
    (h : Fails w w' outcomes) (h' : Fails w' w'' outcomes') :
    Fails w w'' (outcomes ++ outcomes') where
  outcomes_eq := by rw [h'.outcomes_eq, h.outcomes_eq, List.append_assoc]
  stream_eq := h'.stream_eq.trans h.stream_eq
  progress_eq := h'.progress_eq.trans h.progress_eq
  queue_eq := h'.queue_eq.trans h.queue_eq

/-- A loop that is not connected comes to open a connection as time goes by. -/
theorem Fresh.exists_opening (h : w.Fresh retry) (hresult : w.subscription.loop.result? = none)
    (hcon : w.subscription.loop.isConnected = false) :
    ∃ turns, (∀ item, .give item ∉ turns) ∧
      (w.afterTurns turns).subscription.loop.place = .opening ∧
      Fails w (w.afterTurns turns) [] := by
  have hopen := h.sound.closed_eq
  cases hplace : w.subscription.loop.place with
  | opening => exact ⟨[], nofun, hplace, ⟨(List.append_nil _).symm, rfl, rfl, rfl⟩⟩
  | resting pause =>
      rcases h.sound.run_resting hplace with ⟨wait, time, htime, hrun⟩ | hrun
      · refine ⟨[.run, .elapse time, .run], by simp, ?_⟩
        have hdue : Subscription.isDue (w.chronicle.client.elapse time) wait = true := by
          simp [Subscription.isDue, htime, Line.elapse, Broker.now]
        have hrested := run_due (w := ⟨⟨w.chronicle.client.elapse time, w.chronicle.outcomes⟩,
          { w.subscription with wait := some wait }⟩) hopen hplace rfl hdue
        have hafter := congrArg (fun x => (x.turn (.elapse time)).act .run) hrun
        have hall : w.afterTurns [.run, .elapse time, .run] = _ := hafter.trans hrested
        rw [hall]
        exact ⟨rfl, (List.append_nil _).symm, rfl, rfl, rfl⟩
      · refine ⟨[.run], by simp, ?_⟩
        show (w.act .run).subscription.loop.place = _ ∧ Fails w (w.act .run) []
        rw [hrun]
        exact ⟨rfl, (List.append_nil _).symm, rfl, rfl, rfl⟩
  | finished result => simp [Loop.result?, hplace] at hresult
  | _ => simp [Loop.isConnected, hplace] at hcon

/-- A loop that reads and has just been told nothing asks for a record. -/
theorem run_reading {s : Subscription E} {c : Chronicle (Line σ)} {connection : Connection}
    (hopen : s.closed = false) (hplace : s.loop.place = .reading)
    (hc : s.connection = some connection) (hwait : s.wait = none) :
    (⟨c, s⟩ : Supervised E (Line σ)).act .run =
      ⟨(s.polled (Broker.ask c connection)).2, (s.polled (Broker.ask c connection)).1⟩ := by
  simp only [act, Subscription.step, hplace, hopen, hc, hwait]
  rfl

namespace Fresh

/-- The first step of a loop that opens a connection over a server. -/
theorem run_opening (h : w.Fresh retry) (hplace : w.subscription.loop.place = .opening) :
    let s := w.subscription
    w.act .run =
      ⟨⟨{ w.chronicle.client with
          client := w.chronicle.client.client.subscribe s.stream s.loop.start
          feed := ⟨s.stream, []⟩ }, w.chronicle.outcomes ++ [.opened]⟩,
        { s with connection := some (Line.connection s.stream) }.moveTo s.loop.opened⟩ := by
  intro s
  have hconnect : Broker.connect w.chronicle s.stream s.group s.loop.start =
      Broker.connect w.chronicle s.stream none s.loop.start := by rw [h.group_eq]
  unfold Supervised.act
  rw [Subscription.step_of_opening h.sound.closed_eq hplace, hconnect]
  rfl

/-- A loop that opens a connection and is told of an error rests, and can go on. -/
theorem opening_fails (h : w.Fresh retry) (hplace : w.subscription.loop.place = .opening)
    (hretry : 0 < retry.maxTimes) {e : ServerError} (he : e ≠ .resourceDeleted) :
    let w' := w.afterTurns [.run, .give (.error e), .run]
    w'.subscription.loop.place = .resting retry.minDelay ∧
      Fails w w' (attempts [readerError w.subscription.stream e]) := by
  intro w'
  have hlost := (Remote.isLostConnection_readerError w.subscription.stream e).2 he
  obtain ⟨hrests, hposition⟩ := Loop.opened_failed h.loop.retry_eq hretry hlost
  have hafter := congrArg (fun x => (x.turn (.give (.error e))).act .run) (h.run_opening hplace)
  have hread : w' = _ := hafter.trans (run_reading h.sound.closed_eq rfl rfl rfl)
  rw [hread]
  refine ⟨?_, ?_, rfl, ?_, rfl⟩
  · rw [Subscription.polled_loop]
    exact hrests
  · exact List.append_assoc ..
  · exact hposition

/-- However often it fails in a row, a loop over a server goes on. -/
theorem exists_failing (h : w.Fresh retry) (hresult : w.subscription.loop.result? = none)
    (hcon : w.subscription.loop.isConnected = false) (hretry : 0 < retry.maxTimes)
    (errors : List ServerError) (herrors : .resourceDeleted ∉ errors) :
    ∃ turns, (∀ item, .give item ∈ turns → ∃ e ∈ errors, item = .error e) ∧
      let w' := w.afterTurns turns
      Fails w w' (attempts (errors.map (readerError w.subscription.stream))) ∧
      w'.subscription.loop.result? = none ∧ w'.subscription.loop.isConnected = false := by
  induction errors generalizing w with
  | nil => exact ⟨[], nofun, ⟨(List.append_nil _).symm, rfl, rfl, rfl⟩, hresult, hcon⟩
  | cons e errors ih =>
      rw [List.mem_cons, not_or] at herrors
      obtain ⟨waiting, hnone, hplace, hwaiting⟩ := h.exists_opening hresult hcon
      have hopening := h.afterTurns waiting
      obtain ⟨hrests, hfails⟩ := hopening.opening_fails hplace hretry (Ne.symm herrors.1)
      have hrested := hopening.afterTurns [.run, .give (.error e), .run]
      obtain ⟨turns, hturns, hmore, hend⟩ := ih hrested (by rw [Loop.result?, hrests])
        (by rw [Loop.isConnected, hrests]) herrors.2
      have hsteps := (hwaiting.trans hfails).trans hmore
      refine ⟨waiting ++ [.run, .give (.error e), .run] ++ turns, fun item hitem => ?_, ?_⟩
      · simp only [List.mem_append, List.mem_cons, List.not_mem_nil, or_false] at hitem
        rcases hitem with (hitem | hitem | hitem | hitem) | hitem
        · exact absurd hitem (hnone item)
        · cases hitem
        · exact ⟨e, List.mem_cons_self, Turn.give.inj hitem⟩
        · cases hitem
        · obtain ⟨e', he', heq⟩ := hturns item hitem
          exact ⟨e', List.mem_cons_of_mem _ he', heq⟩
      · rw [afterTurns_append, afterTurns_append]
        refine ⟨?_, hend⟩
        rw [hfails.stream_eq, hwaiting.stream_eq] at hsteps
        exact hsteps

end Fresh

/-! ## The main result -/

/-- A loop over a server never runs out of retries, unless it has none: its subscriptions have all
been opened, and it has ended only if the last one failed for another reason than a lost connection,
or if it has no retries. Else it opens the next one after the least pause. With one retry or more it
goes on however often its subscriptions fail in a row before they give a record. -/
theorem retries_do_not_bound (line : Line σ) (source : Source) (first : Option Nat)
    (bufferSize : Nat) (retry : RetrySettings) (moves : List (Move (Line σ))) :
    let w : Supervised E (Line σ) :=
      (start line source none first bufferSize (some retry)).after moves
    let loop := w.subscription.loop
    (∃ errors : List LogError,
      w.chronicle.outcomes = attempts errors ++ (if loop.isConnected then [.opened] else []) ∧
      (loop.isConnected = false → loop.result? = errors.getLast?.bind fun e =>
        if e.isLostConnection ∧ 0 < retry.maxTimes then none else some (.error (.log e)))) ∧
    (∀ pause, loop.place = .resting pause → pause = retry.minDelay) ∧
    (loop.result? = none → loop.isConnected = false → w.Reopens ∧
      (0 < retry.maxTimes → ∀ errors : List ServerError, .resourceDeleted ∉ errors →
        ∃ turns, (∀ item, .give item ∈ turns → ∃ e ∈ errors, item = .error e) ∧
          let w' := w.afterTurns turns
          Fails w w' (attempts (errors.map (readerError w.subscription.stream))) ∧
          w'.subscription.loop.result? = none ∧ w'.subscription.loop.isConnected = false)) := by
  intro w loop
  have h : w.Fresh retry := (fresh_start line source first bufferSize retry).after moves
  obtain ⟨errors, herrors⟩ := h.loop.outcomes_eq
  refine ⟨⟨errors, herrors, fun hcon => ?_⟩, h.loop.pause_eq, fun hresult hcon =>
    ⟨h.sound.reopens hresult hcon, h.exists_failing hresult hcon⟩⟩
  rw [h.sound.follows.result_eq, herrors, hcon]
  exact (congrArg _ (List.append_nil _)).trans (verdict?_attempts retry.maxTimes errors)

/-- A loop that may try again once is told three times in a row that its connection is closed, and
goes on. -/
theorem tries_beyond_retries :
    let retry : RetrySettings := { minDelay := 10, maxDelay := 10, maxTimes := 1 }
    let w : Supervised Domain.AccountEvent (Line Script) :=
      (start (.start ⟨[], []⟩ 0) (.stream "account-1") none none 8 (some retry)).afterTurns
        [.run, .give (.error .connectionClosed), .run, .run, .elapse 15, .run,
          .run, .give (.error .connectionClosed), .run, .run, .elapse 15, .run,
          .run, .give (.error .connectionClosed), .run]
    w.chronicle.outcomes =
        attempts (List.replicate 3 (.subscriptionDropped "Connection is closed.")) ∧
      w.subscription.progress = none ∧ w.subscription.queue = [] ∧
      w.subscription.loop.result? = none :=
  ⟨rfl, rfl, rfl, rfl⟩

end Supervised

end EventSourcing
