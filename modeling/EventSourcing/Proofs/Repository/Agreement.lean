import EventSourcing.Domain.Catalog
import EventSourcing.Proofs.Repository.Broadcast
import EventSourcing.Proofs.Subscription.Live
import Mathlib.Data.List.Sort

/-!
# Loading and following agree

A repository replays the records of a stream that decode. A catch-up subscription on the stream
leaves out marks and bookkeeping before it decodes anything, and its progress goes past all that it
leaves out. Still it hands over just the records that are replayed, in the same order, and it stands
at the last position when it is through (`Kind.replays_what_is_emitted`).
-/

namespace EventSourcing

variable {A E : Type} [DomainEvent E]

/-! ## Records that decode -/

/-- Whether no type of the log's own bookkeeping is one of an event. -/
def PlainTyped (E : Type) [DomainEvent E] : Prop :=
  ∀ (eventType : String) (data : Bytes) (event : E),
    DomainEvent.decode eventType data = .event event → IsPlainName eventType

theorem Record.exists_of_decode {r : StoredRecord} {record : Record E}
    (h : r.decode E = .event record) : ∃ eventType event, r.effectiveType? = some eventType ∧
      DomainEvent.decode eventType r.data = .event (event : E) := by
  unfold Record.decode at h
  split at h
  · cases h
  · rename_i eventType htype
    split at h
    · cases h
    · split at h
      · exact ⟨eventType, _, htype, ‹_›⟩
      · cases h
      · cases h

/-- On a stream with a plain name, a subscription hands over what decodes. -/
theorem Verdict.deliver_iff_decode (hE : PlainTyped E) {r : StoredRecord}
    (hr : IsPlainName r.stream) {record : Record E} :
    Verdict.of E r = .deliver record ↔ r.decode E = .event record := by
  refine ⟨fun h => (of_eq_deliver h).2.2, fun h => ?_⟩
  have hmark : r.isTombstone = false := hr.not_tombstone
  have hsystem : r.isSystem = false := by
    obtain ⟨eventType, event, htype, hdecode⟩ := Record.exists_of_decode h
    have hplain := hE eventType r.data event hdecode
    by_cases hblank : r.eventType = ""
    · rw [Record.isSystem, hblank]
      rfl
    · rw [Record.effectiveType?, if_pos hblank, Option.some.injEq] at htype
      rw [Record.isSystem, htype]
      exact hplain
  simp only [Verdict.of, hmark, hsystem, h, Bool.false_eq_true, if_false]

theorem plainTyped_of_ne
    (h : ∀ (eventType : String) (data : Bytes) (event : E),
      (∀ name, IsPlainName name → eventType ≠ name) →
      DomainEvent.decode eventType data ≠ .event event) : PlainTyped E := by
  intro eventType data event hdecode
  by_contra hplain
  exact h eventType data event (fun name hname he => hplain (he ▸ hname)) hdecode

namespace Domain

theorem OrderEvent.plainTyped : PlainTyped OrderEvent := by
  refine plainTyped_of_ne fun eventType data event hne h => ?_
  simp only [DomainEvent.decode, OrderEvent.decode, hne "OrderPlaced" (by decide),
    hne "ItemAdded" (by decide), hne "OrderShipped" (by decide), hne "OrderDeleted" (by decide),
    hne "LegacyNote" (by decide), if_false] at h
  cases h

theorem AccountEvent.plainTyped : PlainTyped AccountEvent := by
  refine plainTyped_of_ne fun eventType data event hne h => ?_
  simp only [DomainEvent.decode, AccountEvent.decode, hne "AccountOpened" (by decide),
    hne "MoneyDeposited" (by decide), hne "MoneyWithdrawn" (by decide),
    hne "AccountClosed" (by decide), if_false] at h
  cases h

theorem NoteEvent.plainTyped : PlainTyped NoteEvent := by
  refine plainTyped_of_ne fun eventType data event hne h => ?_
  simp only [DomainEvent.decode, NoteEvent.decode, hne "Note" (by decide),
    hne "Poison" (by decide), if_false] at h
  cases h

end Domain

/-- No kind of aggregate has events of the log's own types. -/
theorem Kind.plainTyped : (k : Kind) → PlainTyped k.Event
  | .order | .ledger => Domain.OrderEvent.plainTyped
  | .account => Domain.AccountEvent.plainTyped
  | .notebook => Domain.NoteEvent.plainTyped

/-! ## Records of a stream -/

namespace Log

variable {log : Log} {x : String}

theorem mem_recordsOf {r : StoredRecord} :
    r ∈ log.recordsOf x ↔ ∃ e ∈ log.history, e.record.stream = x ∧ e.record = r := by
  simp only [recordsOf, historyOf, List.mem_map, List.mem_filter, decide_eq_true_eq, and_assoc]

theorem Coherent.exists_last (hc : log.Coherent) (hx : IsPlainName x) (hne : log.recordsOf x ≠ []) :
    ∃ r ∈ log.recordsOf x, r.position + 1 = (log.recordsOf x).length := by
  have hlength := List.length_pos_of_ne_nil hne
  have hmem : (log.recordsOf x).length - 1 ∈ (log.recordsOf x).map (·.position) := by
    rw [hc.position_recordsOf hx, List.mem_range]
    omega
  obtain ⟨r, hr, hp⟩ := List.mem_map.1 hmem
  exact ⟨r, hr, by omega⟩

theorem Coherent.decodeAll_increasing (hc : log.Coherent) (hx : IsPlainName x) :
    (Repository.decodeAll (E := E) (log.recordsOf x)).Pairwise
      fun a b => a.position < b.position := by
  have hrange : ((log.recordsOf x).map (·.position)).Pairwise (· < ·) := by
    rw [hc.position_recordsOf hx]
    exact List.pairwise_lt_range
  exact List.pairwise_map.1 (hrange.sublist (Repository.position_decodeAll _))

end Log

theorem Repository.mem_decodeAll {records : List StoredRecord} {record : Record E} :
    record ∈ decodeAll records ↔ ∃ r ∈ records, r.decode E = .event record := by
  rw [decodeAll, List.mem_filterMap]
  refine exists_congr fun r => and_congr_right fun _ => ?_
  cases hd : r.decode E <;> simp

/-! ## Subscriptions that are through -/

namespace Follow

/-- The progress of the subscription is past all records of its stream. -/
def HasConsumed (w : Follow E) (stream : String) : Prop :=
  ∀ r ∈ w.server.log.recordsOf stream,
    ∃ last, w.subscription.progress = some last ∧ r.position ≤ last

/-- The loop asks for a record, and its reader has none. -/
def IsIdle (w : Follow E) : Prop :=
  w.subscription.loop.place = .reading ∧
    ∃ c, w.subscription.connection = some (.catchUp c) ∧ (c.poll w.server).1 = .pending

theorem after_becomes (w : Follow E) (moves : List Move) :
    w.server.Becomes (w.after moves).server := by
  induction moves generalizing w with
  | nil => exact .refl _
  | cons move moves ih => exact (w.act_becomes move).trans (ih (w.act move))

namespace Faithful

variable {stream : String} {position : Nat} {w : Follow E}

theorem position_of_progress (h : w.Faithful stream none position) {last : Nat}
    (hlast : w.subscription.progress = some last) : position = last + 1 := by
  have hpos := h.position_eq
  rw [show w.subscription.loop.position = some last from hlast] at hpos
  rcases h.start_eq with ⟨hstart, -⟩ | hstart <;> rw [hstart] at hpos
  · cases hpos
  · cases position with
    | zero => cases hpos
    | succ n => rw [Option.some.inj hpos]

theorem progress_eq (h : w.Faithful stream none (position + 1)) :
    w.subscription.progress = some position := by
  have hpos := h.position_eq
  rcases h.start_eq with ⟨-, hzero⟩ | hstart
  · cases hzero
  · rw [hstart] at hpos
    exact hpos

/-- A loop that has nothing left to take has dealt with all that can be read. -/
theorem consumed_of_idle (h : w.Faithful stream none position) (hx : IsPlainName stream)
    (hd : stream ∉ w.server.log.deleted) (hclosed : w.server.closed = false) (hidle : w.IsIdle) :
    w.HasConsumed stream := by
  obtain ⟨hplace, c, hc, hpoll⟩ := hidle
  have hcon := h.connected
  rw [hplace] at hcon
  obtain ⟨c', hc', hahead⟩ := hcon
  cases hc.symm.trans hc'
  have hnothing : c.upcoming w.server.log = [] := by
    have hpolled : c.poll w.server = (.pending, (c.poll w.server).2) := Prod.ext hpoll rfl
    have hhead := CatchUp.poll_head hclosed hpolled fun _ he => Poll.noConfusion he
    cases hup : c.upcoming w.server.log with
    | nil => rfl
    | cons d ds =>
        rw [hup] at hhead
        cases hhead
  have hpending := hahead.pending
  rw [hnothing, hx.scope] at hpending
  intro r hr
  obtain ⟨e, he, hs, rfl⟩ := Log.mem_recordsOf.1 hr
  have hp := Scope.position?_stream hs
  have hlt : e.record.position < position := by
    -- What was not dealt with would be before the reader.
    by_contra hge
    exact absurd (hpending.covers e he _ hp (Nat.zero_le _) (Nat.not_lt.1 hge) (hs ▸ hd))
      List.not_mem_nil
  cases position with
  | zero => exact absurd hlt (Nat.not_lt_zero _)
  | succ n => exact ⟨n, h.progress_eq, Nat.le_of_lt_succ hlt⟩

theorem exists_of_emitted (h : w.Faithful stream none position) (hx : IsPlainName stream)
    {x : Nat × Emission E} (hm : x ∈ w.emitted) : ∃ r ∈ w.server.log.recordsOf stream,
      r.decode E = .event x.2.record ∧ x.2.record.position = x.1 := by
  obtain ⟨e, he, hp, record, hv, hfirst⟩ := h.emitted.genuine x hm
  have hd : e.record.decode E = .event record := (Verdict.of_eq_deliver hv).2.2
  have hrecord : x.2.record = record := by rw [hfirst]; rfl
  rw [hx.scope, Scope.position?] at hp
  split at hp
  · rename_i hs
    refine ⟨e.record, Log.mem_recordsOf.2 ⟨e, he, hs, rfl⟩, hrecord ▸ hd, ?_⟩
    rw [hrecord, e.record.position_decode hd]
    exact Option.some.inj hp
  · cases hp

theorem emitted_eq (h : w.Faithful stream none position) (hE : PlainTyped E)
    (hx : IsPlainName stream) (hd : stream ∉ w.server.log.deleted)
    (hall : ∀ r ∈ w.server.log.recordsOf stream, r.position < position) :
    w.emitted.map (·.2.record) = Repository.decodeAll (w.server.log.recordsOf stream) := by
  have hsorted : (w.emitted.map (·.2.record)).Pairwise fun a b => a.position < b.position := by
    have hpositions : w.emitted.map (·.2.record.position) = w.emitted.map (·.1) :=
      List.map_congr_left fun x hm => (h.exists_of_emitted hx hm).elim fun _ hr => hr.2.2
    rw [List.pairwise_map]
    exact List.pairwise_map.1 (hpositions ▸ h.emitted.sorted)
  have : Std.Irrefl fun a b : Record E => a.position < b.position := ⟨fun _ => Nat.lt_irrefl _⟩
  have : Std.Antisymm fun a b : Record E => a.position < b.position :=
    ⟨fun _ _ hab hba => absurd hab (Nat.lt_asymm hba)⟩
  -- Both lists go up in position, so that it is enough that they have the same members.
  refine hsorted.eq_of_mem_iff (h.coherent.decodeAll_increasing hx) fun record => ?_
  rw [Repository.mem_decodeAll, List.mem_map]
  constructor
  · rintro ⟨x, hm, rfl⟩
    obtain ⟨r, hr, hdecode, -⟩ := h.exists_of_emitted hx hm
    exact ⟨r, hr, hdecode⟩
  · rintro ⟨r, hr, hdecode⟩
    have hlt := hall r hr
    obtain ⟨e, he, hs, rfl⟩ := Log.mem_recordsOf.1 hr
    have hv := (Verdict.deliver_iff_decode hE (hs ▸ hx)).2 hdecode
    have hp : (Scope.ofName stream).position? e = some e.record.position := by
      rw [hx.scope]
      exact Scope.position?_stream hs
    exact ⟨_, h.emitted.complete e he _ record hp (Nat.zero_le _) hlt hv (hs ▸ hd), rfl⟩

/-- A subscription that has consumed its stream stands right behind its last record. -/
theorem position_of_consumed (h : w.Faithful stream none position) (hx : IsPlainName stream)
    (hne : w.server.log.recordsOf stream ≠ []) (hw : w.HasConsumed stream) :
    (∀ r ∈ w.server.log.recordsOf stream, r.position < position) ∧
      ∃ last, w.subscription.progress = some last ∧
        (w.server.log.recordsOf stream).length = last + 1 := by
  obtain ⟨r, hr, hlength⟩ := h.coherent.exists_last hx hne
  obtain ⟨last, hlast, hle⟩ := hw r hr
  obtain rfl := h.position_of_progress hlast
  have hsize := h.le_size
  rw [hx.scope, ← Log.length_recordsOf] at hsize
  refine ⟨fun r' hr' => ?_, last, hlast, by omega⟩
  obtain ⟨last', hlast', hle'⟩ := hw r' hr'
  rw [hlast, Option.some.injEq] at hlast'
  omega

end Faithful

/-- A subscription that is let in, and whose consumer goes on reading, gets through. -/
theorem idle_readings {server : Server} (hin : server.turnAways = 0)
    (hopen : server.closed = false) (source : Source) (bufferSize : Nat)
    (retry : Option RetrySettings) {n : Nat}
    (hn : 2 * (server.log.entriesFrom (.ofName source.toStream) 0).length < n) :
    let w : Follow E :=
      after ⟨server, .catchUp source none bufferSize retry, [], []⟩ (readings n)
    w.server = server ∧ w.IsIdle := by
  obtain ⟨m, rfl⟩ : ∃ m, n = m + 1 := ⟨n - 1, by omega⟩
  obtain ⟨hserver, c, hfirst⟩ := draining_opened (E := E) hin source bufferSize retry
  obtain ⟨hlast, c', hend⟩ := Draining.readings hserver hopen hfirst m
  rw [Nat.sub_eq_zero_of_le (Nat.le_of_lt_succ hn)] at hend
  obtain ⟨hplace, hbacklog⟩ := hend.of_zero
  intro w
  have hw : w.server = server := hlast
  refine ⟨hw, hplace, c', hend.connection_eq, ?_⟩
  rw [hw, hend.fresh.poll_nil hopen hbacklog]

end Follow

/-! ## Agreement -/

/-- However a catch-up subscription on the stream of an aggregate has run so far, when it has
consumed the stream, it has emitted just the records that the repository folds. Their events, as
they were emitted, make up the state that is loaded, and the subscription stands at the last
position before the version. It has consumed the stream when its reader has nothing more for it, and
it comes to that if it is let in and its consumer goes on reading. -/
theorem Kind.replays_what_is_emitted (k : Kind) (now : Nat) (before : List Request)
    (r : k.Repository) (id : String) (hplain : IsPlainName (r.streamOf id)) (bufferSize : Nat)
    (retry : Option RetrySettings) :
    let s := (Server.start now).after before
    let stream := r.streamOf id
    let run (moves : List Follow.Move) : Follow k.Event :=
      Follow.after ⟨s, .catchUp (.stream stream) none bufferSize retry, [], []⟩ moves
    (∀ moves root, (r.get (run moves).server id).1 = .ok root →
      ((run moves).HasConsumed stream →
        (run moves).emitted.map (·.2.record) =
          Repository.decodeAll ((run moves).server.log.recordsOf stream) ∧
        root.state = applyAll Aggregate.zero ((run moves).emitted.map (·.2.record.data)) ∧
        ∃ last, (run moves).subscription.progress = some last ∧ root.version = last + 1) ∧
      ((run moves).IsIdle → (run moves).HasConsumed stream)) ∧
    (s.turnAways = 0 → ∀ n, 2 * (s.log.entriesFrom (.stream stream) 0).length < n →
      (run (Follow.readings n)).server = s ∧ (run (Follow.readings n)).IsIdle) := by
  intro s stream run
  have hc : s.log.Coherent := Server.coherent_after now before
  have hopen : s.closed = false := Server.Becomes.closed_eq ⟨before, rfl⟩
  refine ⟨fun moves root hget => ?_, fun hin n hn => ?_⟩
  · obtain ⟨position, h⟩ := (Follow.faithful_start (E := k.Event) hc (.stream stream) none bufferSize
      retry).after (hplain.scope ▸ hplain.not_tombstone) moves
    have hclosed : (run moves).server.closed = false :=
      (Follow.after_becomes _ moves).closed_eq.trans hopen
    have hd := r.notMem_deleted_of_get hget
    have hne := r.recordsOf_ne_nil_of_get h.coherent hplain hget
    refine ⟨fun hw => ?_, fun hidle => h.consumed_of_idle hplain hd hclosed hidle⟩
    obtain ⟨hall, last, hlast, hlength⟩ := h.position_of_consumed hplain hne hw
    have hemitted : (run moves).emitted.map (·.2.record) =
        Repository.decodeAll ((run moves).server.log.recordsOf stream) :=
      h.emitted_eq k.plainTyped hplain hd hall
    have hincreasing := h.coherent.decodeAll_increasing (E := k.Event) hplain
    rw [r.get_eq_ok h.coherent hplain hget]
    refine ⟨hemitted, ?_, last, hlast, hlength⟩
    calc replay (Repository.decodeAll ((run moves).server.log.recordsOf stream))
      _ = applyAll Aggregate.zero ((Repository.decodeAll _).map (·.data)) :=
          replay_eq (List.pairwise_map.2 (hincreasing.imp Nat.le_of_lt))
      _ = applyAll Aggregate.zero ((run moves).emitted.map (·.2.record.data)) := by
          rw [← hemitted, List.map_map]
          rfl
  · have hscope : Scope.ofName stream = .stream stream := hplain.scope
    exact Follow.idle_readings hin hopen (.stream stream) bufferSize retry (hscope ▸ hn)

/-- Orders, whose stream others have written to: records of a retired type, of a type of the log's
own, of an unknown one, and of none, one of which says in its metadata that the order is deleted. -/
def strayWrites : List Request :=
  [.call (.append "order-1" .any [⟨"OrderShipped", Bytes.ofString "{}", []⟩,
    ⟨"LegacyNote", [0], []⟩, ⟨"$metadata", [0], []⟩, ⟨"Unknown", [0], []⟩,
    ⟨"", Bytes.ofString "{}", (Metadata.forEvent "OrderDeleted" "order").encode⟩, ⟨"", [0], []⟩])]

theorem Kind.replays_what_is_emitted_strayWrites :
    let s := (Server.start 0).after strayWrites
    let orders : Kind.order.Repository := .new
    let w : Follow Kind.order.Event :=
      Follow.after ⟨s, .catchUp (.stream "order-1") none 8 none, [], []⟩ (Follow.readings 13)
    let events : List Domain.OrderEvent := w.emitted.map (·.2.record.data)
    IsPlainName (orders.streamOf "1") ∧ events = [.shipped, .deleted] ∧
    ∃ root : Kind.order.Root, (orders.get w.server "1").1 = .ok root ∧
      w.subscription.progress = some 5 ∧ root.version = 6 ∧
      root.state = applyAll Aggregate.zero events := by
  intro s orders w events
  have hplain : IsPlainName (orders.streamOf "1") := by decide +kernel
  have hin : s.turnAways = 0 := by decide +kernel
  have hmoves : 2 * (s.log.entriesFrom (.stream "order-1") 0).length < 13 := by decide +kernel
  obtain ⟨hrun, hget⟩ := replays_what_is_emitted .order 0 strayWrites orders "1" hplain 8 none
  obtain ⟨-, hidle⟩ := hget hin 13 hmoves
  refine ⟨hplain, by decide +kernel, ?_⟩
  have hversion : (orders.get w.server "1").1.map (·.version) = .ok 6 := by decide +kernel
  cases hroot : (orders.get w.server "1").1 with
  | error e =>
      rw [hroot] at hversion
      cases hversion
  | ok root =>
      rw [hroot] at hversion
      obtain ⟨hconsumed, hthrough⟩ := hrun (Follow.readings 13) root hroot
      obtain ⟨-, hstate, last, hlast, hnext⟩ := hconsumed (hthrough hidle)
      obtain rfl : last = 5 := Nat.succ.inj (hnext.symm.trans (Except.ok.inj hversion))
      exact ⟨root, rfl, hlast, hnext, hstate⟩

end EventSourcing
