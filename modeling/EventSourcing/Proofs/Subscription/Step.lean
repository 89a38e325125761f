import EventSourcing.Subscription.Basic

/-!
# The steps of a loop

What a loop can do when it takes a step, by the place where it has waited (`Subscription.step_cases`),
and when it cannot take one. The client is any that answers the calls of a subscription.
-/

namespace EventSourcing

variable {E σ : Type}

/-! ## Loops -/

namespace Loop

@[simp] theorem settles_failed (l : Loop E) (e : LogError) : (l.failed e).settles = l.settles := by
  unfold failed
  repeat' split
  all_goals rfl

@[simp] theorem settles_settled (l : Loop E) (position : Nat) (r : Except LogError Unit) :
    (l.settled position r).settles = l.settles := by
  cases r with
  | ok _ => rfl
  | error e =>
      show (if e.isLostConnection then l.failed e else l.passed position).settles = _
      split
      · exact l.settles_failed e
      · rfl

@[simp] theorem settles_polled [DomainEvent E] (l : Loop E) (p : Poll) :
    (l.polled p).settles = l.settles := by
  cases p with
  | delivery d =>
      show (l.received d).settles = l.settles
      unfold received
      repeat' split
      all_goals rfl
  | ended => rfl
  | failed e => exact l.settles_failed e
  | pending => rfl

end Loop

namespace Subscription

/-! ## What a call for the next record comes to -/

section Polled

variable [DomainEvent E] [Broker σ] (s : Subscription E) (r : Poll × Connection × σ)

@[simp] theorem polled_loop : (s.polled r).1.loop = s.loop.polled r.1 := by
  obtain ⟨p, c, client⟩ := r
  cases p <;> rfl

@[simp] theorem polled_queue : (s.polled r).1.queue = s.queue := by
  obtain ⟨p, c, client⟩ := r
  cases p <;> rfl

@[simp] theorem polled_client : (s.polled r).2 = r.2.2 := by
  obtain ⟨p, c, client⟩ := r
  cases p <;> rfl

theorem polled_connection (h : s.loop.place = .reading) : (s.polled r).1.connection =
    if (s.loop.polled r.1).isConnected then some r.2.1 else none := by
  obtain ⟨p, c, client⟩ := r
  cases p with
  | pending =>
      show some c = if s.loop.isConnected then some c else none
      rw [Loop.isConnected, h, if_pos rfl]
  | _ => rfl

end Polled

/-! ## The cases of a step -/

/-- What a step makes of a subscription and of its client. -/
inductive Stepped [DomainEvent E] [Broker σ] (client : σ) (s : Subscription E) :
    Subscription E → σ → Prop
  | stopped (hclosed : s.closed = true) : Stepped client s (s.moveTo s.loop.stop) client
  | connected {connection : Connection} {client' : σ} (hplace : s.loop.place = .opening)
      (hc : Broker.connect client s.stream s.group s.loop.start = (.ok connection, client')) :
      Stepped client s ({ s with connection := some connection }.moveTo s.loop.opened) client'
  | refused {e : LogError} {client' : σ} (hplace : s.loop.place = .opening)
      (hc : Broker.connect client s.stream s.group s.loop.start = (.error e, client')) :
      Stepped client s (s.moveTo (s.loop.failed e)) client'
  | polled {connection : Connection} {r : Poll × Connection × σ} (hplace : s.loop.place = .reading)
      (hc : s.connection = some connection)
      (hr : r = Broker.ask client connection ∨ r = Broker.askAgain client connection) :
      Stepped client s (s.polled r).1 (s.polled r).2
  | settled {position : Nat} {id : RecordId} {m : Member} {r : Except LogError Unit} {client' : σ}
      (hplace : s.loop.place = .settling position id) (hm : s.member? = some m)
      (hr : Broker.ack client m [id] = (r, client')) :
      Stepped client s (s.moveTo (s.loop.settled position r)) client'
  | queued {position : Nat} {emission : Emission E}
      (hplace : s.loop.place = .emitting position emission)
      (hroom : s.queue.length < s.capacity) :
      Stepped client s ({ s with queue := s.queue ++ [emission] }.moveTo (s.loop.passed position))
        client
  | paused {pause : Nat} (hplace : s.loop.place = .resting pause) (wait : Wait) :
      Stepped client s { s with wait := some wait } client
  | rested {pause : Nat} (hplace : s.loop.place = .resting pause) :
      Stepped client s (s.moveTo s.loop.rested) client

section Cases

variable [DomainEvent E] [Broker σ] {client client' : σ} {s s' : Subscription E}

theorem step_cases (h : s.step client = some (s', client')) : Stepped client s s' client' := by
  unfold step at h
  split at h
  · cases h
  · split at h
    · simp only [Option.some.injEq, Prod.mk.injEq] at h
      obtain ⟨rfl, rfl⟩ := h
      exact .stopped ‹_›
    · split at h
      · rename_i hplace
        split at h <;> rename_i hc
        · simp only [Option.some.injEq, Prod.mk.injEq] at h
          obtain ⟨rfl, rfl⟩ := h
          exact .connected hplace hc
        · simp only [Option.some.injEq, Prod.mk.injEq] at h
          obtain ⟨rfl, rfl⟩ := h
          exact .refused hplace hc
      · rename_i hplace
        split at h
        · cases h
        · rename_i hc _
          rw [Option.some.injEq] at h
          have hp : Stepped client s _ _ := .polled hplace hc (.inl rfl)
          rwa [h] at hp
        · rename_i hc _
          split at h
          · rw [Option.some.injEq] at h
            have hp : Stepped client s _ _ := .polled hplace hc (.inr rfl)
            rwa [h] at hp
          · cases h
      · rename_i hplace
        split at h
        · cases h
        · rename_i hm
          simp only [Option.some.injEq, Prod.mk.injEq] at h
          obtain ⟨rfl, rfl⟩ := h
          exact .settled hplace hm rfl
      · rename_i hplace
        split at h
        · simp only [Option.some.injEq, Prod.mk.injEq] at h
          obtain ⟨rfl, rfl⟩ := h
          exact .queued hplace ‹_›
        · cases h
      · rename_i hplace
        split at h
        · simp only [Option.some.injEq, Prod.mk.injEq] at h
          obtain ⟨rfl, rfl⟩ := h
          exact .paused hplace _
        · split at h
          · simp only [Option.some.injEq, Prod.mk.injEq] at h
            obtain ⟨rfl, rfl⟩ := h
            exact .rested hplace
          · cases h
      · cases h

/-- No step changes what the subscription is about. -/
theorem Stepped.frame (h : Stepped client s s' client') : s'.stream = s.stream ∧
    s'.group = s.group ∧ s'.capacity = s.capacity ∧ s'.closed = s.closed ∧
    s'.loop.settles = s.loop.settles := by
  cases h with
  | refused hplace hc => exact ⟨rfl, rfl, rfl, rfl, s.loop.settles_failed _⟩
  | settled hplace hm hr => exact ⟨rfl, rfl, rfl, rfl, s.loop.settles_settled _ _⟩
  | @polled connection r hplace hc hr =>
      obtain ⟨p, c, client⟩ := r
      have hl := s.loop.settles_polled p
      cases p <;> exact ⟨rfl, rfl, rfl, rfl, hl⟩
  | _ => exact ⟨rfl, rfl, rfl, rfl, rfl⟩

/-- What holds of a new connection, and goes on to hold when it is asked, holds of the connection
after a step. -/
theorem Stepped.connection {P : Connection → Prop} (h : Stepped client s s' client')
    (hold : ∀ c, s.connection = some c → P c)
    (hnew : ∀ c, (Broker.connect client s.stream s.group s.loop.start).1 = .ok c → P c)
    (hask : ∀ c, P c → P (Broker.ask client c).2.1 ∧ P (Broker.askAgain client c).2.1) :
    ∀ c, s'.connection = some c → P c := by
  have hmove {s : Subscription E} (l : Loop E) (hs : ∀ c, s.connection = some c → P c) :
      ∀ c, (s.moveTo l).connection = some c → P c := by
    intro c hc
    simp only [moveTo] at hc
    split at hc
    · exact hs c hc
    · cases hc
  cases h with
  | @connected connection client' hplace hc =>
      refine hmove (s := { s with connection := some connection }) _ fun c hc' => ?_
      obtain rfl := Option.some.inj hc'
      exact hnew connection (by rw [hc])
  | @polled connection r hplace hc hr =>
      obtain ⟨hfirst, hagain⟩ := hask connection (hold connection hc)
      intro c hc'
      rw [polled_connection _ _ hplace] at hc'
      split at hc'
      · obtain rfl := Option.some.inj hc'
        rcases hr with rfl | rfl
        · exact hfirst
        · exact hagain
      · cases hc'
  | paused hplace wait => exact hold
  | queued hplace hroom => exact hmove _ hold
  | _ => exact hmove _ hold

/-- An open loop that is connected deals with its connection, or with its consumer. -/
theorem Stepped.of_connected (h : Stepped client s s' client') (hopen : s.closed = false)
    (hcon : s.loop.isConnected = true) :
    (∃ connection r, s.loop.place = .reading ∧ s.connection = some connection ∧
      (r = Broker.ask client connection ∨ r = Broker.askAgain client connection) ∧
      s' = (s.polled r).1 ∧ client' = (s.polled r).2) ∨
    (∃ position id m r, s.loop.place = .settling position id ∧ s.member? = some m ∧
      Broker.ack client m [id] = (r, client') ∧ s' = s.moveTo (s.loop.settled position r)) ∨
    ∃ position emission, s.loop.place = .emitting position emission ∧
      s.queue.length < s.capacity ∧
      s' = { s with queue := s.queue ++ [emission] }.moveTo (s.loop.passed position) ∧
      client' = client := by
  cases h with
  | stopped hclosed => exact absurd (hclosed.symm.trans hopen) (by simp)
  | polled hplace hc hr => exact .inl ⟨_, _, hplace, hc, hr, rfl, rfl⟩
  | settled hplace hm hr => exact .inr (.inl ⟨_, _, _, _, hplace, hm, hr, rfl⟩)
  | queued hplace hroom => exact .inr (.inr ⟨_, _, hplace, hroom, rfl, rfl⟩)
  | connected hplace => simp [Loop.isConnected, hplace] at hcon
  | refused hplace => simp [Loop.isConnected, hplace] at hcon
  | paused hplace => simp [Loop.isConnected, hplace] at hcon
  | rested hplace => simp [Loop.isConnected, hplace] at hcon

/-! ## Loops that have to wait -/

section Open

variable (hopen : s.closed = false)

include hopen

theorem step_of_settling {position : Nat} {id : RecordId} {m : Member}
    (hplace : s.loop.place = .settling position id) (hm : s.member? = some m) :
    s.step client = some (s.moveTo (s.loop.settled position (Broker.ack client m [id]).1),
      (Broker.ack client m [id]).2) := by
  simp [step, hplace, hopen, hm]

theorem step_of_emitting {position : Nat} {emission : Emission E}
    (hplace : s.loop.place = .emitting position emission) (hroom : s.queue.length < s.capacity) :
    s.step client = some ({ s with queue := s.queue ++ [emission] }.moveTo (s.loop.passed position),
      client) := by
  simp [step, hplace, hopen, hroom]

/-- A loop that reads waits for the end of a call that has found nothing. -/
theorem step_eq_none_of_reading (hplace : s.loop.place = .reading) : s.step client = none ↔
    s.connection = none ∨ ∃ w, s.wait = some w ∧
      ¬ (w.signal ≠ Broker.signal client ∨ isDue client w) := by
  cases hc : s.connection with
  | none => simp [step, hplace, hopen, hc]
  | some c =>
      cases hw : s.wait with
      | none => simp [step, hplace, hopen, hc, hw]
      | some w =>
          by_cases hdue : w.signal ≠ Broker.signal client ∨ isDue client w
          · simp only [step, hplace, hopen, hc, hw, if_pos hdue]
            refine iff_of_false (Option.some_ne_none _) ?_
            rintro (h | ⟨w', hw', hn⟩)
            · cases h
            · obtain rfl := Option.some.inj hw'
              exact hn hdue
          · simp only [step, hplace, hopen, hc, hw, if_neg hdue]
            exact iff_of_true rfl (.inr ⟨w, rfl, hdue⟩)

/-- A call that has found nothing does not look again at once. -/
theorem step_polled_pending (hplace : s.loop.place = .reading) (connection : Connection)
    (client : σ) : (s.polled (.pending, connection, client)).1.step client = none := by
  refine (step_eq_none_of_reading (s := (s.polled (.pending, connection, client)).1) hopen
    hplace).2 (.inr ⟨_, rfl, ?_⟩)
  rintro (h | h)
  · exact h rfl
  · cases connection with
    | catchUp reader => cases h
    | member m =>
        have hle := of_decide_eq_true h
        unfold memberPause at hle
        omega

end Open

end Cases

/-! ## The consumer's handle -/

section Handle

variable [Broker σ] (client : σ) (s : Subscription E) (id : RecordId)

/-- The reader through which a consumer settles records is that of its loop. -/
theorem connection_of_ackReader {s : Subscription E} {m : Member} (h : s.ackReader = .ok m) :
    s.connection = some (.member m) := by
  unfold ackReader at h
  split at h
  · cases h
  · split at h
    · rename_i m' hm
      obtain rfl := Except.ok.inj h
      unfold member? at hm
      split at hm
      · rename_i hc
        rw [hc, Option.some.inj hm]
      · cases hm
    · cases h

/-- A consumer settles a record through the reader of its loop, or not at all. -/
theorem ack_eq : (∃ e, s.ack client id = (.error e, client)) ∨
    ∃ m, s.ackReader = .ok m ∧ s.ack client id =
      ((Broker.ack client m [id]).1.mapError .log, (Broker.ack client m [id]).2) := by
  unfold ack
  cases hm : s.ackReader with
  | error e => exact .inl ⟨e, rfl⟩
  | ok m => exact .inr ⟨m, rfl, rfl⟩

theorem nack_eq (action : Refusal) : (∃ e, s.nack client id action = (.error e, s, client)) ∨
    ∃ m, s.ackReader = .ok m ∧ s.nack client id action =
      ((Broker.nack client m [id] action).1.mapError .log,
        { s with connection := some (.member (Broker.nack client m [id] action).2.1) },
        (Broker.nack client m [id] action).2.2) := by
  unfold nack
  cases hm : s.ackReader with
  | error e => exact .inl ⟨e, rfl⟩
  | ok m => exact .inr ⟨m, rfl, rfl⟩

end Handle

end Subscription

/-! ## Clients that know more -/

/-- Whether `f` forgets nothing of a client but what no answer depends on. -/
structure Broker.Forgets {τ : Type} [Broker σ] [Broker τ] (f : σ → τ) : Prop where
  connect : ∀ client stream group start, Broker.connect (f client) stream group start =
    ((Broker.connect client stream group start).1, f (Broker.connect client stream group start).2)
  ask : ∀ client c, Broker.ask (f client) c =
    ((Broker.ask client c).1, (Broker.ask client c).2.1, f (Broker.ask client c).2.2)
  askAgain : ∀ client c, Broker.askAgain (f client) c =
    ((Broker.askAgain client c).1, (Broker.askAgain client c).2.1, f (Broker.askAgain client c).2.2)
  ack : ∀ client m ids, Broker.ack (f client) m ids =
    ((Broker.ack client m ids).1, f (Broker.ack client m ids).2)
  nack : ∀ client m ids action, Broker.nack (f client) m ids action =
    ((Broker.nack client m ids action).1, (Broker.nack client m ids action).2.1,
      f (Broker.nack client m ids action).2.2)
  signal : ∀ client, Broker.signal (f client) = Broker.signal client
  now : ∀ client, Broker.now (f client) = Broker.now client

theorem Broker.forgets_nothing [Broker σ] : Forgets fun client : σ => client :=
  ⟨fun _ _ _ _ => rfl, fun _ _ => rfl, fun _ _ => rfl, fun _ _ _ => rfl, fun _ _ _ _ => rfl,
    fun _ => rfl, fun _ => rfl⟩

theorem Broker.Forgets.comp {τ υ : Type} [Broker σ] [Broker τ] [Broker υ] {f : σ → τ} {g : τ → υ}
    (hg : Forgets g) (hf : Forgets f) : Forgets fun client => g (f client) where
  connect client stream group start := by rw [hg.connect, hf.connect]
  ask client c := by rw [hg.ask, hf.ask]
  askAgain client c := by rw [hg.askAgain, hf.askAgain]
  ack client m ids := by rw [hg.ack, hf.ack]
  nack client m ids action := by rw [hg.nack, hf.nack]
  signal client := (hg.signal _).trans (hf.signal _)
  now client := (hg.now _).trans (hf.now _)

namespace Subscription

variable {τ : Type} [Broker σ] [Broker τ] {f : σ → τ} (hf : Broker.Forgets f) (client : σ)
  (s : Subscription E)

include hf

theorem polled_forgets [DomainEvent E] (r : Poll × Connection × σ) :
    s.polled (r.1, r.2.1, f r.2.2) = ((s.polled r).1, f (s.polled r).2) := by
  obtain ⟨p, c, client⟩ := r
  cases p with
  | pending => simp only [polled, hf.signal, hf.now]
  | _ => rfl

/-- A loop goes on in the same way. -/
theorem step_forgets [DomainEvent E] :
    s.step (f client) = (s.step client).map fun r => (r.1, f r.2) := by
  have hdue (w : Wait) : isDue (f client) w = isDue client w := by simp only [isDue, hf.now]
  unfold step
  cases s.closed with
  | true => cases s.loop.place <;> rfl
  | false =>
      simp only [Bool.false_eq_true, if_false]
      cases s.loop.place with
      | finished result => rfl
      | opening =>
          simp only [hf.connect]
          cases Broker.connect client s.stream s.group s.loop.start with
          | mk r client' => cases r <;> rfl
      | reading =>
          cases s.connection with
          | none => rfl
          | some c =>
              cases s.wait with
              | none => simp only [hf.ask, polled_forgets hf, Option.map_some]
              | some w =>
                  simp only [hf.signal, hdue, hf.askAgain, polled_forgets hf]
                  split <;> rfl
      | settling position id =>
          cases s.member? with
          | none => rfl
          | some m =>
              simp only [hf.ack]
              rfl
      | emitting position emission =>
          by_cases hroom : s.queue.length < s.capacity
          · simp only [if_pos hroom, Option.map_some]
          · simp only [if_neg hroom, Option.map_none]
      | resting pause =>
          cases s.wait with
          | none => simp only [hf.now, hf.signal, Option.map_some]
          | some w =>
              simp only [hdue]
              split <;> rfl

theorem ack_forgets (id : RecordId) :
    s.ack (f client) id = ((s.ack client id).1, f (s.ack client id).2) := by
  unfold ack
  cases s.ackReader with
  | error e => rfl
  | ok m => simp only [hf.ack]

theorem nack_forgets (id : RecordId) (action : Refusal) : s.nack (f client) id action =
    ((s.nack client id action).1, (s.nack client id action).2.1,
      f (s.nack client id action).2.2) := by
  unfold nack
  cases s.ackReader with
  | error e => rfl
  | ok m => simp only [hf.nack]

end Subscription

end EventSourcing
