import EventSourcing.Log.CatchUp
import EventSourcing.Log.Member
import Mathlib.Logic.Relation

/-!
# Requests to a log server

All that clients ask of a server, as values, so that a run is a list of requests. Whatever is asked,
the log moves by whole appends and deletions only (`Server.serve_log`).
-/

namespace EventSourcing

/-! ## Calls on streams -/

/-- A call on the records of a stream. -/
inductive StreamCall
  | append (stream : String) (expected : Expectation) (events : List EncodedEvent)
  | read (stream : String) (start : Nat)
  | version (stream : String)
  | tombstone (stream : String)

/-- The stream that is called on. -/
def StreamCall.stream : StreamCall → String
  | .append stream _ _ | .read stream _ | .version stream | .tombstone stream => stream

/-- The answer to a call on a stream; a record is told as a `ρ`. -/
inductive StreamAnswer (ρ : Type)
  | appended (result : Except LogError Nat)
  | records (result : Except LogError (List ρ))
  | version (result : Except LogError (Option Nat))
  | deleted (result : Except LogError Unit)

/-- The same answer with its records told in another way. -/
def StreamAnswer.map {ρ σ : Type} (f : ρ → σ) : StreamAnswer ρ → StreamAnswer σ
  | .appended r => .appended r
  | .records r => .records (r.map (List.map f))
  | .version r => .version r
  | .deleted r => .deleted r

/-- The answer that a call fails with `error`. -/
def StreamCall.failed {ρ : Type} (c : StreamCall) (error : LogError) : StreamAnswer ρ :=
  match c with
  | .append _ _ _ => .appended (.error error)
  | .read _ _ => .records (.error error)
  | .version _ => .version (.error error)
  | .tombstone _ => .deleted (.error error)

/-! ## Requests -/

/-- What is asked of a server, or happens to it. Readers and members come with the state that their
client keeps for them. -/
inductive Request
  | call (c : StreamCall)
  | createGroup (stream group : String) (settings : GroupSettings)
  | openReader (stream : String) (start : Option Nat)
  | pollReader (reader : CatchUp)
  | join (stream group : String)
  | pollMember (member : Member)
  | ack (member : Member) (ids : List RecordId)
  | nack (member : Member) (ids : List RecordId) (action : Refusal)
  | disconnectAll
  | turnAway (count : Nat)
  /-- Time goes by. -/
  | elapse (milliseconds : Nat)

/-- What comes back, with the new state of the reader or member. -/
inductive Reply
  | answered (answer : StreamAnswer StoredRecord)
  | opened (result : Except LogError CatchUp)
  | reader (poll : Poll) (reader : CatchUp)
  | joined (result : Except LogError Member)
  | member (poll : Poll)
  | settled (result : Except LogError Unit) (member : Member)
  | done

namespace Server

/-- A call on a stream. -/
def call (s : Server) : StreamCall → StreamAnswer StoredRecord × Server
  | .append stream expected events =>
    let (r, s) := s.append stream expected events
    (.appended r, s)
  | .read stream start =>
    let (r, s) := s.read stream start
    (.records r, s)
  | .version stream =>
    let (r, s) := s.version? stream
    (.version r, s)
  | .tombstone stream =>
    let (r, s) := s.tombstone stream
    (.deleted r, s)

/-- Serves one request. -/
def serve (s : Server) : Request → Reply × Server
  | .call c =>
    let (a, s) := s.call c
    (.answered a, s)
  | .createGroup stream group settings => (.done, s.createGroup stream group settings)
  | .openReader stream start =>
    let (r, s) := CatchUp.openAt s stream start
    (.opened r, s)
  | .pollReader c =>
    let (p, c) := c.poll s
    (.reader p c, s)
  | .join stream group =>
    let (r, s) := Member.connect s stream group
    (.joined r, s)
  | .pollMember m =>
    let (p, s) := m.poll s
    (.member p, s)
  | .ack m ids =>
    let (r, s) := m.ack s ids
    (.settled r m, s)
  | .nack m ids action =>
    let (r, m, s) := m.nack s ids action
    (.settled r m, s)
  | .disconnectAll => (.done, s.disconnectAll)
  | .turnAway count => (.done, s.turnAway count)
  | .elapse milliseconds => (.done, { s with now := s.now + milliseconds })

/-- The server when all these requests have been served. -/
def after (s : Server) (requests : List Request) : Server :=
  requests.foldl (fun s r => (s.serve r).2) s

end Server

/-! ## What a request does to the log -/

/-- A whole append or a deletion turns the one log into the other. -/
inductive Log.Step (log : Log) : Log → Prop
  | append {stream : String} {expected : Expectation} {events : List EncodedEvent} {time : Int}
      {version : Nat} {log' : Log} (h : log.append stream expected events time = .ok (version, log')) :
      Step log log'
  | tombstone {stream : String} {time : Int} {log' : Log} (h : log.tombstone stream time = .ok log') :
      Step log log'

/-- The one log came before the other. -/
abbrev Log.Before : Log → Log → Prop := Relation.ReflTransGen Log.Step

/-- The answer of a log to a call on a stream, and the log after it. -/
def Log.call (log : Log) (time : Int) : StreamCall → StreamAnswer StoredRecord × Log
  | .append stream expected events =>
    match log.append stream expected events time with
    | .ok (version, log) => (.appended (.ok version), log)
    | .error e => (.appended (.error e), log)
  | .read stream start => (.records (log.read stream start), log)
  | .version stream => (.version (log.version? stream), log)
  | .tombstone stream =>
    match log.tombstone stream time with
    | .ok log => (.deleted (.ok ()), log)
    | .error e => (.deleted (.error e), log)

theorem Log.call_log (log : Log) (time : Int) (c : StreamCall) :
    (log.call time c).2 = log ∨ log.Step (log.call time c).2 := by
  cases c with
  | append stream expected events =>
      simp only [call]
      split
      · rename_i version log h
        exact .inr (.append h)
      · exact .inl rfl
  | read stream start => exact .inl rfl
  | version stream => exact .inl rfl
  | tombstone stream =>
      simp only [call]
      split
      · rename_i log h
        exact .inr (.tombstone h)
      · exact .inl rfl

namespace Server

theorem letIn_log (s : Server) : s.letIn.2.log = s.log := by
  unfold letIn
  split <;> rfl

theorem createGroup_log (s : Server) (stream group : String) (settings : GroupSettings) :
    (s.createGroup stream group settings).log = s.log := by
  unfold createGroup
  split <;> rfl

theorem openAt_log (s : Server) (stream : String) (start : Option Nat) :
    (CatchUp.openAt s stream start).2.log = s.log := by
  have h := s.letIn_log
  unfold CatchUp.openAt
  split <;> rename_i hl <;> rw [hl] at h <;> exact h

theorem connect_log (s : Server) (stream group : String) :
    (Member.connect s stream group).2.log = s.log := by
  have h := s.letIn_log
  unfold Member.connect
  split <;> rename_i hl <;> rw [hl] at h
  · exact h
  · split <;> exact h

theorem poll_log (s : Server) (m : Member) : (m.poll s).2.log = s.log := by
  unfold Member.poll
  repeat' split
  all_goals rfl

theorem ack_log (s : Server) (m : Member) (ids : List RecordId) :
    (m.ack s ids).2.log = s.log := by
  unfold Member.ack
  repeat' split
  all_goals rfl

theorem nack_log (s : Server) (m : Member) (ids : List RecordId) (action : Refusal) :
    (m.nack s ids action).2.2.log = s.log := by
  unfold Member.nack
  repeat' split
  all_goals rfl

/-- A server answers a call on a stream as its log does. -/
theorem call_eq (s : Server) (c : StreamCall) :
    (s.call c).1 = (s.log.call s.time c).1 ∧ (s.call c).2.log = (s.log.call s.time c).2 := by
  cases c with
  | append stream expected events =>
      simp only [call, append, Log.call, time_calls]
      cases s.log.append stream expected events s.time <;> exact ⟨rfl, rfl⟩
  | read stream start => exact ⟨rfl, rfl⟩
  | version stream => exact ⟨rfl, rfl⟩
  | tombstone stream =>
      simp only [call, tombstone, Log.call, time_calls]
      cases s.log.tombstone stream s.time <;> exact ⟨rfl, rfl⟩

theorem serve_log_of_ne_call (s : Server) {r : Request} (h : ∀ c, r ≠ .call c) :
    (s.serve r).2.log = s.log := by
  cases r with
  | call c => exact absurd rfl (h c)
  | createGroup stream group settings => exact s.createGroup_log stream group settings
  | openReader stream start => exact s.openAt_log stream start
  | pollReader c => rfl
  | join stream group => exact s.connect_log stream group
  | pollMember m => exact s.poll_log m
  | ack m ids => exact s.ack_log m ids
  | nack m ids action => exact s.nack_log m ids action
  | disconnectAll => rfl
  | turnAway count => rfl
  | elapse milliseconds => rfl

/-- Whatever is asked, the log stays or takes a step. -/
theorem serve_log (s : Server) (r : Request) :
    (s.serve r).2.log = s.log ∨ s.log.Step (s.serve r).2.log := by
  by_cases h : ∃ c, r = .call c
  · obtain ⟨c, rfl⟩ := h
    have hl : (s.serve (.call c)).2.log = (s.log.call s.time c).2 := (s.call_eq c).2
    rw [hl]
    exact s.log.call_log s.time c
  · exact .inl (s.serve_log_of_ne_call fun c hc => h ⟨c, hc⟩)

theorem serve_before (s : Server) (r : Request) : s.log.Before (s.serve r).2.log := by
  rcases s.serve_log r with h | h
  · rw [h]
  · exact .single h

theorem after_append (s : Server) (rs qs : List Request) :
    s.after (rs ++ qs) = (s.after rs).after qs := List.foldl_append

theorem after_before (s : Server) (rs : List Request) : s.log.Before (s.after rs).log := by
  induction rs generalizing s with
  | nil => exact .refl
  | cons r rs ih => exact (s.serve_before r).trans (ih _)

/-- No request ends a server. -/
theorem closed_serve (s : Server) (r : Request) : (s.serve r).2.closed = s.closed := by
  have hlet (s : Server) : s.letIn.2.closed = s.closed := by
    unfold letIn
    split <;> rfl
  cases r with
  | call c =>
      cases c with
      | append stream expected events =>
          simp only [serve, call, append]
          split <;> rfl
      | tombstone stream =>
          simp only [serve, call, tombstone]
          split <;> rfl
      | _ => rfl
  | createGroup stream group settings =>
      simp only [serve, createGroup]
      split <;> rfl
  | openReader stream start =>
      have h := hlet s
      simp only [serve, CatchUp.openAt]
      split <;> rename_i hl <;> rw [hl] at h <;> exact h
  | join stream group =>
      have h := hlet s
      simp only [serve, Member.connect]
      split <;> rename_i hl <;> rw [hl] at h
      · exact h
      · split <;> exact h
  | pollMember m =>
      simp only [serve, Member.poll]
      repeat' split
      all_goals rfl
  | ack m ids =>
      simp only [serve, Member.ack]
      repeat' split
      all_goals rfl
  | nack m ids action =>
      simp only [serve, Member.nack]
      repeat' split
      all_goals rfl
  | _ => rfl

/-- The one server is the other one when it has served some requests. -/
def Becomes (s s' : Server) : Prop := ∃ requests, s' = s.after requests

namespace Becomes

theorem refl (s : Server) : s.Becomes s := ⟨[], rfl⟩

theorem trans {s s' s'' : Server} (h : s.Becomes s') (h' : s'.Becomes s'') : s.Becomes s'' := by
  obtain ⟨requests, rfl⟩ := h
  obtain ⟨more, rfl⟩ := h'
  exact ⟨requests ++ more, (s.after_append requests more).symm⟩

theorem serve (s : Server) (r : Request) : s.Becomes (s.serve r).2 := ⟨[r], rfl⟩

theorem closed_eq {s s' : Server} (h : s.Becomes s') : s'.closed = s.closed := by
  obtain ⟨requests, rfl⟩ := h
  induction requests generalizing s with
  | nil => rfl
  | cons r requests ih => exact (ih (s := (s.serve r).2)).trans (s.closed_serve r)

theorem before {s s' : Server} (h : s.Becomes s') : s.log.Before s'.log := by
  obtain ⟨requests, rfl⟩ := h
  exact s.after_before requests

end Becomes

end Server

end EventSourcing
