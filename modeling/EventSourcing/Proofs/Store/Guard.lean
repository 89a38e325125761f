import EventSourcing.Proofs.Store.Attempt

/-!
# The guard of the store

An append of the store goes through at the version of the stream and at no other, and a conflict
tells which version that is. So among any number of callers, with any number of appends under way,
each version is won by one append at most, and the appends that go through lie side by side in the
stream (`Store.append_guarded`).
-/

namespace EventSourcing

/-! ## What an append adds -/

namespace Log

/-- Events have been put at the end of the log, at positions of a stream from `position` on. -/
structure Extended (log log' : Log) (stream : String) (position : Nat)
    (events : List EncodedEvent) : Prop where
  deleted_eq : log'.deleted = log.deleted
  versions_eq : ∀ x, log'.versions.get? x =
    if x = stream then some (position + events.length) else log.versions.get? x
  news : ∃ news : List Entry, log'.entries = log.entries ++ news ∧
    log'.history = log.history ++ news ∧ (∀ e ∈ news, e.record.stream = stream) ∧
    news.map (·.record.encoded) = events ∧
    news.map (·.record.position) = List.range' position events.length

theorem position_newEntries (log : Log) (stream : String) (position : Nat) (time : Int)
    (events : List EncodedEvent) :
    (log.newEntries stream position time events).map (·.record.position) =
      List.range' position events.length := by
  induction events generalizing log position with
  | nil => rfl
  | cons event events ih =>
      simp only [newEntries, List.map_cons, ih, List.length_cons, List.range'_succ]
      rfl

theorem Extended.of_append {log log' : Log} {stream : String} {expected : Expectation}
    {events : List EncodedEvent} {time : Int} {version : Nat} (hne : events ≠ [])
    (h : log.append stream expected events time = .ok (version, log')) :
    log.Extended log' stream ((log.versions.get? stream).getD 0) events where
  deleted_eq := append_deleted h
  versions_eq x := by
    obtain ⟨-, -, rfl, rfl⟩ := append_eq_ok h
    simp only [if_neg hne, Table.get?_insert]
  news := by
    refine ⟨_, ?_, history_append h, ?_, encoded_newEntries .., position_newEntries ..⟩
    · obtain ⟨-, -, -, rfl⟩ := append_eq_ok h
      exact pushAll_entries ..
    · exact fun e he => stream_of_mem_newEntries _ _ _ _ _ he

/-- What was put at the end of the log is read behind what could be read. -/
theorem Extended.read_zero {log log' : Log} {x : String} {position : Nat}
    {events : List EncodedEvent} (h : log.Extended log' x position events) (hx : IsPlainName x)
    {records : List StoredRecord} (hread : log.read x 0 = .ok records) :
    ∃ news, log'.read x 0 = .ok (records ++ news) ∧ news.map Record.encoded = events := by
  obtain ⟨news, hentries, -, hstream, hencoded, -⟩ := h.news
  refine ⟨news.map (·.record), ?_, ?_⟩
  · have hnews : (news.filter fun e => e.record.stream = x) = news :=
      List.filter_eq_self.2 fun e he => decide_eq_true (hstream e he)
    unfold read at hread ⊢
    rw [h.deleted_eq]
    split at hread
    · cases hread
    · rename_i hd
      rw [if_neg hd, ← Except.ok.inj hread, hx.scope, map_record_entriesFrom,
        map_record_entriesFrom, hentries, List.filter_append, List.filter_append, List.map_append,
        hnews]
      simp
  · rw [List.map_map]
    exact hencoded

/-- What is written to other streams does not touch the records of a stream. -/
theorem recordsOf_call (log : Log) (time : Int) (c : StreamCall) {x : String} (hx : IsPlainName x)
    (h : ∀ expected events, c ≠ .append x expected events) :
    (log.call time c).2.recordsOf x = log.recordsOf x := by
  cases c with
  | append stream expected events =>
      have hne : x ≠ stream := fun he => h expected events (by rw [he])
      simp only [call]
      split
      · rename_i version log' ha
        rw [recordsOf, historyOf_append ha, if_neg hne, List.append_nil, recordsOf]
      · rfl
  | read stream start => rfl
  | version stream => rfl
  | tombstone stream =>
      simp only [call]
      split
      · rename_i log' ht
        rw [recordsOf, historyOf_tombstone ht hx.not_tombstone, recordsOf]
      · rfl

theorem Coherent.version_recordsOf {log : Log} (hc : log.Coherent) {x : String}
    (hx : IsPlainName x) (hd : x ∉ log.deleted) :
    (log.versions.get? x).getD 0 = (log.recordsOf x).length := by
  rw [hc.version_eq hx.not_tombstone hd, length_recordsOf]

end Log

/-- Whether a request is an append to a stream that does not come from a store. -/
def Request.AppendsTo (stream : String) : Request → Prop
  | .call (.append x _ _) => x = stream
  | _ => False

theorem Server.recordsOf_serve (s : Server) {r : Request} {x : String} (hx : IsPlainName x)
    (h : ¬ r.AppendsTo x) : (s.serve r).2.log.recordsOf x = s.log.recordsOf x := by
  by_cases hr : ∃ c, r = .call c
  · obtain ⟨c, rfl⟩ := hr
    have hl : (s.serve (.call c)).2.log = (s.log.call s.time c).2 := (s.call_eq c).2
    rw [hl]
    refine s.log.recordsOf_call s.time c hx fun expected events he => ?_
    subst he
    exact h rfl
  · rw [s.serve_log_of_ne_call fun c hc => hr ⟨c, hc⟩]

/-! ## One append -/

namespace Store

section Attempt

variable {s : Server} {stream : String} {events : List EncodedEvent} (hne : events ≠ [])
  {expected : Nat}

include hne

theorem attempt_of_eq (hd : stream ∉ s.log.deleted)
    (hv : (s.log.versions.get? stream).getD 0 = expected) :
    (attempt s stream events expected).1 = .settled (.ok (expected + events.length)) ∧
    s.log.append stream (.ofVersion expected) events s.time =
      .ok (expected + events.length, (attempt s stream events expected).2.log) := by
  obtain ⟨log', ha⟩ :=
    Log.exists_append hd (Expectation.matches_ofVersion.2 hv) events s.time
  rw [hv] at ha
  unfold attempt
  rw [if_neg hne]
  simp only [LogClient.append, Server.append, Server.time_calls, ha, true_and]
  rfl

theorem attempt_of_ne (hd : stream ∉ s.log.deleted)
    (hv : (s.log.versions.get? stream).getD 0 ≠ expected) :
    (attempt s stream events expected).2.log = s.log ∧
    (attempt s stream events expected).1 = match s.log.versions.get? stream with
      | some actual => .settled (.error (.concurrency ⟨stream, expected, actual⟩))
      | none => .unexplained := by
  have ha : s.log.append stream (.ofVersion expected) events s.time =
      .error (.wrongExpectedVersion stream (.ofVersion expected) (s.log.versions.get? stream)) := by
    unfold Log.append
    rw [if_neg hd, if_neg (mt Expectation.matches_ofVersion.1 hv)]
  unfold attempt
  rw [if_neg hne]
  simp only [LogClient.append, Server.append, Server.time_calls, ha]
  cases s.log.versions.get? stream <;> exact ⟨rfl, rfl⟩

theorem attempt_of_deleted (hd : stream ∈ s.log.deleted) (expected : Nat) :
    (attempt s stream events expected).2.log = s.log ∧
    (attempt s stream events expected).1 = .settled (.error (.streamDeleted stream)) := by
  have ha : s.log.append stream (.ofVersion expected) events s.time =
      .error (.streamDeleted stream) := if_pos hd
  unfold attempt
  rw [if_neg hne]
  simp only [LogClient.append, Server.append, Server.time_calls, ha, true_and]
  rfl

end Attempt

theorem version_fst (s : Server) {stream : String} (hd : stream ∉ s.log.deleted) :
    (version s stream).1 = .ok ((s.log.versions.get? stream).getD 0) := by
  simp only [version, answer, LogClient.version?, Server.version?, Log.version?, if_neg hd]
  rfl

theorem version_of_deleted (s : Server) {stream : String} (hd : stream ∈ s.log.deleted) :
    (version s stream).1 = .error (.streamDeleted stream) := by
  simp only [version, answer, LogClient.version?, Server.version?, Log.version?, if_pos hd]
  rfl

theorem version_eq_ok_iff {s : Server} {stream : String} {n : Nat} :
    (version s stream).1 = .ok n ↔
      stream ∉ s.log.deleted ∧ (s.log.versions.get? stream).getD 0 = n := by
  by_cases hd : stream ∈ s.log.deleted
  · rw [version_of_deleted s hd]
    exact ⟨nofun, fun h => absurd hd h.1⟩
  · rw [version_fst s hd, Except.ok.injEq]
    exact ⟨fun h => ⟨hd, h⟩, fun h => h.2⟩

theorem explain_log (s : Server) (stream : String) (expected : Nat) :
    (explain s stream expected).2.log = s.log := by
  unfold explain
  split <;> rename_i h <;> exact congrArg (fun x => x.2.log) h.symm

theorem explain_fst (s : Server) {stream : String} (expected : Nat) (hd : stream ∉ s.log.deleted) :
    (explain s stream expected).1 =
      .error (.concurrency ⟨stream, expected, (s.log.versions.get? stream).getD 0⟩) := by
  have hv := version_fst s hd
  unfold explain
  split <;> rename_i h <;> rw [h] at hv
  · rw [Except.ok.inj hv]
  · cases hv

section Append

variable {s : Server} {stream : String} {events : List EncodedEvent} (hne : events ≠ [])
  {expected : Nat}

include hne

theorem append_of_eq (hd : stream ∉ s.log.deleted)
    (hv : (s.log.versions.get? stream).getD 0 = expected) :
    (append s stream events expected).1 = .ok (expected + events.length) ∧
    s.log.Extended (append s stream events expected).2.log stream expected events := by
  obtain ⟨hr, ha⟩ := attempt_of_eq hne hd hv
  have hext := Log.Extended.of_append hne ha
  rw [hv] at hext
  rw [append_of_settled hr]
  exact ⟨rfl, hext⟩

theorem append_of_ne (hd : stream ∉ s.log.deleted)
    (hv : (s.log.versions.get? stream).getD 0 ≠ expected) :
    (append s stream events expected).1 = .error (.concurrency
      ⟨stream, expected, (s.log.versions.get? stream).getD 0⟩) ∧
    (append s stream events expected).2.log = s.log := by
  obtain ⟨hl, hr⟩ := attempt_of_ne hne hd hv
  cases hget : s.log.versions.get? stream with
  | some actual =>
      rw [hget] at hr
      rw [append_of_settled hr]
      exact ⟨rfl, hl⟩
  | none =>
      rw [hget] at hr
      rw [append_of_unexplained hr, explain_log, explain_fst _ _ (by rwa [hl]), hl, hget]
      exact ⟨rfl, rfl⟩

theorem append_of_deleted (hd : stream ∈ s.log.deleted) (expected : Nat) :
    (append s stream events expected).1 = .error (.streamDeleted stream) ∧
    (append s stream events expected).2.log = s.log := by
  obtain ⟨hl, hr⟩ := attempt_of_deleted hne hd expected
  rw [append_of_settled hr]
  exact ⟨rfl, hl⟩

end Append

/-- What an append of events at version `expected` comes to, by the state of the stream. -/
structure Guarded (s : Server) (stream : String) (events : List EncodedEvent)
    (expected : Nat) : Prop where
  version : stream ∉ s.log.deleted → (version s stream).1 = .ok (s.log.recordsOf stream).length
  accepted : (append s stream events expected).1 = .ok (expected + events.length) ∧
    s.log.Extended (append s stream events expected).2.log stream expected events ↔
      stream ∉ s.log.deleted ∧ (s.log.recordsOf stream).length = expected
  rejected : (∃ actual, actual = (s.log.recordsOf stream).length ∧ actual ≠ expected ∧
    (append s stream events expected).1 = .error (.concurrency ⟨stream, expected, actual⟩)) ↔
      stream ∉ s.log.deleted ∧ (s.log.recordsOf stream).length ≠ expected
  refused : (append s stream events expected).1 = .error (.streamDeleted stream) ↔
    stream ∈ s.log.deleted
  unchanged : ∀ e, (append s stream events expected).1 = .error e →
    (append s stream events expected).2.log = s.log

theorem guarded {s : Server} (hc : s.log.Coherent) {stream : String} (hx : IsPlainName stream)
    {events : List EncodedEvent} (hne : events ≠ []) (expected : Nat) :
    Guarded s stream events expected := by
  by_cases hd : stream ∈ s.log.deleted
  · obtain ⟨hr, hl⟩ := append_of_deleted hne hd expected
    constructor <;> simp [hr, hl, hd]
  have hlen := hc.version_recordsOf hx hd
  have hver := version_fst s hd
  rw [hlen] at hver
  by_cases hv : (s.log.recordsOf stream).length = expected
  · obtain ⟨hr, hext⟩ := append_of_eq hne hd (hlen.trans hv)
    constructor <;> simp [hr, hext, hd, hv, hver]
  · obtain ⟨hr, hl⟩ := append_of_ne hne hd (fun h => hv (hlen.symm.trans h))
    rw [hlen] at hr
    constructor <;> simp [hr, hl, hd, hv, hver]

end Store

/-! ## Contests -/

/-- What somebody wants to append to a stream. -/
structure Bid where
  events : List EncodedEvent
  expected : Nat
  deriving DecidableEq

/-- Any number of callers, who append to one stream through a store. -/
structure Contest where
  server : Server
  /-- Whose appends were rejected, and who are about to read the version that they ran into. -/
  waiting : List Bid := []
  /-- What was told, in order. -/
  settled : List (Bid × Except StoreError Nat) := []

/-- What happens next. -/
inductive Contest.Move (stream : String)
  /-- Somebody makes the first call of an append. -/
  | bid (bid : Bid)
  /-- Somebody who waits makes the second call. -/
  | inquire (i : Nat)
  /-- Anybody asks the server for something else, which may be to delete the stream. -/
  | serve (request : Request) (h : ¬ request.AppendsTo stream)

namespace Contest

variable {stream : String}

/-- Somebody is told how an append has ended. -/
def settle (c : Contest) (b : Bid) (answer : Except StoreError Nat × Server) : Contest :=
  { c with server := answer.2, settled := c.settled ++ [(b, answer.1)] }

def bid (stream : String) (c : Contest) (b : Bid) : Contest :=
  match Store.attempt c.server stream b.events b.expected with
  | (.settled result, server) => c.settle b (result, server)
  | (.unexplained, server) => { c with server := server, waiting := c.waiting ++ [b] }

def inquire (stream : String) (c : Contest) (i : Nat) : Contest :=
  match c.waiting[i]? with
  | none => c
  | some b =>
    { c with waiting := c.waiting.eraseIdx i }.settle b (Store.explain c.server stream b.expected)

def act (c : Contest) : Move stream → Contest
  | .bid b => c.bid stream b
  | .inquire i => c.inquire stream i
  | .serve request _ => { c with server := (c.server.serve request).2 }

def after (c : Contest) (moves : List (Move stream)) : Contest := moves.foldl act c

/-- An append with events that went through, with the version that its writer was told. -/
def win? : Bid × Except StoreError Nat → Option (Bid × Nat)
  | (b, .ok version) => if b.events = [] then none else some (b, version)
  | (_, .error _) => none

def wins (c : Contest) : List (Bid × Nat) := c.settled.filterMap win?

end Contest

/-! ## Tilings -/

/-- The appends lie side by side in a stream: each starts at the version that its writer expected,
where the one before has ended, and ends at the version that its writer was told. -/
inductive Tiles : Nat → List (Bid × Nat) → Nat → Prop
  | nil (version : Nat) : Tiles version [] version
  | cons {b : Bid} {wins : List (Bid × Nat)} {stop : Nat}
      (h : Tiles (b.expected + b.events.length) wins stop) :
      Tiles b.expected ((b, b.expected + b.events.length) :: wins) stop

namespace Tiles

variable {start stop : Nat} {wins : List (Bid × Nat)}

theorem snoc (h : Tiles start wins stop) {b : Bid} (hb : b.expected = stop) :
    Tiles start (wins ++ [(b, stop + b.events.length)]) (stop + b.events.length) := by
  induction h with
  | nil version =>
      subst hb
      exact .cons (.nil _)
  | cons _ ih => exact .cons (ih hb)

theorem start_le (h : Tiles start wins stop) : ∀ w ∈ wins, start ≤ w.1.expected := by
  induction h with
  | nil version => exact fun _ hw => by cases hw
  | cons _ ih =>
      intro w hw
      rcases List.mem_cons.1 hw with rfl | hw
      · exact Nat.le_refl _
      · exact Nat.le_trans (Nat.le_add_right _ _) (ih w hw)

/-- A version is won once at most. -/
theorem pairwise_expected (h : Tiles start wins stop) (hne : ∀ w ∈ wins, w.1.events ≠ []) :
    wins.Pairwise fun w w' => w.1.expected < w'.1.expected := by
  induction h with
  | nil version => exact .nil
  | @cons b wins stop h ih =>
      -- The first append ends behind its start, and no other one starts before it has ended.
      refine .cons (fun w hw => ?_) (ih fun w hw => hne w (List.mem_cons_of_mem _ hw))
      have hpos := List.length_pos_iff.2 (hne _ List.mem_cons_self)
      exact Nat.lt_of_lt_of_le (Nat.lt_add_of_pos_right hpos) (h.start_le w hw)

/-- Where the appends lie side by side behind `old`, each is found where it was meant to be. -/
theorem placed (h : Tiles start wins stop) {old : List EncodedEvent} (ho : old.length = start) :
    ∀ w ∈ wins, ((old ++ wins.flatMap (·.1.events)).drop w.1.expected).take w.1.events.length =
      w.1.events := by
  induction h generalizing old with
  | nil version => exact fun _ hw => by cases hw
  | @cons b wins stop h ih =>
      intro w hw
      rw [List.flatMap_cons]
      rcases List.mem_cons.1 hw with rfl | hw
      · rw [← ho, List.drop_left, List.take_left]
      · rw [← List.append_assoc]
        exact ih (by rw [List.length_append, ho]) w hw

end Tiles

/-! ## Runs of contests -/

namespace Contest

theorem wins_settle (c : Contest) (b : Bid) (answer : Except StoreError Nat × Server) :
    (c.settle b answer).wins = c.wins ++ (win? (b, answer.1)).toList := by
  simp only [wins, settle, List.filterMap_append, List.filterMap_cons, List.filterMap_nil]
  cases win? (b, answer.1) <;> rfl

section Bid

variable (c : Contest) {stream : String} {b : Bid}

theorem bid_of_settled {result : Except StoreError Nat}
    (h : (Store.attempt c.server stream b.events b.expected).1 = .settled result) :
    c.bid stream b =
      c.settle b (result, (Store.attempt c.server stream b.events b.expected).2) := by
  unfold bid
  split <;> rename_i ha <;> rw [ha] at h
  · rw [Store.Attempt.settled.inj h, ha]
  · cases h

theorem bid_of_unexplained
    (h : (Store.attempt c.server stream b.events b.expected).1 = .unexplained) :
    c.bid stream b = { c with
      server := (Store.attempt c.server stream b.events b.expected).2
      waiting := c.waiting ++ [b] } := by
  unfold bid
  split <;> rename_i ha <;> rw [ha] at h
  · cases h
  · rw [ha]

end Bid

/-- The appends that went through lie side by side behind the old records, and nothing else was
written to the stream. -/
structure Fair (stream : String) (old : List StoredRecord) (c : Contest) : Prop where
  coherent : c.server.log.Coherent
  tiles : Tiles old.length c.wins (c.server.log.recordsOf stream).length
  records : ∃ news, c.server.log.recordsOf stream = old ++ news ∧
    news.map Record.encoded = c.wins.flatMap (·.1.events)

namespace Fair

variable {stream : String} {old : List StoredRecord} {c : Contest}

/-- Nothing was written to the stream and nothing was won. -/
theorem of_eq (h : c.Fair stream old) {c' : Contest} (hc : c'.server.log.Coherent)
    (hr : c'.server.log.recordsOf stream = c.server.log.recordsOf stream)
    (hw : c'.wins = c.wins) : c'.Fair stream old := by
  refine ⟨hc, ?_, ?_⟩
  · rw [hr, hw]
    exact h.tiles
  · rw [hr, hw]
    exact h.records

theorem of_log_eq (h : c.Fair stream old) {c' : Contest} (hl : c'.server.log = c.server.log)
    (hw : c'.wins = c.wins) : c'.Fair stream old :=
  h.of_eq (hl ▸ h.coherent) (by rw [hl]) hw

/-- An append that fails leaves everything as it was. -/
theorem settle_error (h : c.Fair stream old) (b : Bid) (e : StoreError) {server : Server}
    (hl : server.log = c.server.log) : (c.settle b (.error e, server)).Fair stream old := by
  refine h.of_log_eq hl ?_
  rw [wins_settle]
  exact List.append_nil _

/-- An append that goes through starts where the one before it has ended. -/
theorem settle_ok (h : c.Fair stream old) (hx : IsPlainName stream) {b : Bid}
    (hne : b.events ≠ []) {version : Nat} {server : Server} {time : Int}
    (ha : c.server.log.append stream (.ofVersion b.expected) b.events time =
      .ok (version, server.log)) : (c.settle b (.ok version, server)).Fair stream old := by
  obtain ⟨hd, hm, hv, -⟩ := Log.append_eq_ok ha
  -- The version of the stream is the number of its records, where the last append has ended.
  rw [h.coherent.version_recordsOf hx hd] at hm hv
  have hb := (Expectation.matches_ofVersion.1 hm).symm
  obtain ⟨added, hadded, hencoded⟩ := Log.exists_recordsOf_append ha
  obtain ⟨news, hnews, hwins⟩ := h.records
  have hwin : (c.settle b (.ok version, server)).wins = c.wins ++ [(b, version)] := by
    rw [wins_settle, win?, if_neg hne]
    rfl
  have hlen : (server.log.recordsOf stream).length = version := by
    rw [hadded, List.length_append, hv, ← hencoded, List.length_map]
  refine ⟨h.coherent.append ha, ?_, news ++ added, ?_, ?_⟩
  · have htiles := h.tiles.snoc hb
    rw [← hv] at htiles
    rw [hwin]
    exact hlen ▸ htiles
  · show server.log.recordsOf stream = _
    rw [hadded, hnews, List.append_assoc]
  · rw [hwin, List.map_append, hwins, hencoded, List.flatMap_append]
    simp

theorem bid (h : c.Fair stream old) (hx : IsPlainName stream) (b : Bid) :
    (c.bid stream b).Fair stream old := by
  by_cases hne : b.events = []
  · have ha := Store.attempt_of_nil c.server stream b.events b.expected hne
    rw [c.bid_of_settled (congrArg Prod.fst ha), ha]
    refine h.of_log_eq rfl ?_
    rw [wins_settle, win?, if_pos hne]
    exact List.append_nil _
  by_cases hd : stream ∈ c.server.log.deleted
  · obtain ⟨hl, hr⟩ := Store.attempt_of_deleted hne hd b.expected
    rw [c.bid_of_settled hr]
    exact h.settle_error b _ hl
  by_cases hv : (c.server.log.versions.get? stream).getD 0 = b.expected
  · obtain ⟨hr, ha⟩ := Store.attempt_of_eq hne hd hv
    rw [c.bid_of_settled hr]
    exact h.settle_ok hx hne ha
  · obtain ⟨hl, hr⟩ := Store.attempt_of_ne hne hd hv
    cases hget : c.server.log.versions.get? stream <;> rw [hget] at hr
    · rw [c.bid_of_unexplained hr]
      exact h.of_log_eq hl rfl
    · rw [c.bid_of_settled hr]
      exact h.settle_error b _ hl

theorem inquire (h : c.Fair stream old) (i : Nat) : (c.inquire stream i).Fair stream old := by
  unfold Contest.inquire
  split
  · exact h
  · rename_i b hb
    have hw : Contest.Fair stream old { c with waiting := c.waiting.eraseIdx i } :=
      h.of_log_eq rfl rfl
    obtain ⟨e, he⟩ := Store.exists_explain_eq_error c.server stream b.expected
    have hanswer : Store.explain c.server stream b.expected =
        (.error e, (Store.explain c.server stream b.expected).2) := Prod.ext he rfl
    rw [hanswer]
    exact hw.settle_error b e (Store.explain_log ..)

theorem act (h : c.Fair stream old) (hx : IsPlainName stream) (move : Move stream) :
    (c.act move).Fair stream old := by
  cases move with
  | bid b => exact h.bid hx b
  | inquire i => exact h.inquire i
  | serve request hr =>
      exact h.of_eq (h.coherent.before (c.server.serve_before request))
        (c.server.recordsOf_serve hx hr) rfl

theorem after (h : c.Fair stream old) (hx : IsPlainName stream) (moves : List (Move stream)) :
    (c.after moves).Fair stream old := by
  induction moves generalizing c with
  | nil => exact h
  | cons move moves ih => exact ih (h.act hx move)

end Fair

/-- What a contest for a stream comes to that had the records `old` before it. -/
structure Outcome (stream : String) (old : List StoredRecord) (c : Contest) : Prop where
  tiles : Tiles old.length c.wins (c.server.log.recordsOf stream).length
  once : c.wins.Pairwise fun w w' => w.1.expected < w'.1.expected
  /-- Every batch that went through stands where its writer expected the stream to end. -/
  placed : ∀ w ∈ c.wins, (((c.server.log.recordsOf stream).drop w.1.expected).take
    w.1.events.length).map Record.encoded = w.1.events
  /-- Nothing else was written to the stream. -/
  records : ∃ news, c.server.log.recordsOf stream = old ++ news ∧
    news.map Record.encoded = c.wins.flatMap (·.1.events)
  position : (c.server.log.recordsOf stream).map (·.position) =
    List.range (c.server.log.recordsOf stream).length
  read : stream ∉ c.server.log.deleted →
    c.server.log.read stream 0 = .ok (c.server.log.recordsOf stream)

theorem ne_nil_of_mem_wins {c : Contest} {w : Bid × Nat} (h : w ∈ c.wins) : w.1.events ≠ [] := by
  obtain ⟨⟨b, result⟩, -, hw⟩ := List.mem_filterMap.1 h
  cases result with
  | error e => cases hw
  | ok version =>
      by_cases hne : b.events = []
      · simp [win?, hne] at hw
      · simp only [win?, if_neg hne, Option.some.injEq] at hw
        exact hw ▸ hne

theorem Fair.outcome {stream : String} {old : List StoredRecord} {c : Contest}
    (h : c.Fair stream old) (hx : IsPlainName stream) : c.Outcome stream old where
  tiles := h.tiles
  once := h.tiles.pairwise_expected fun _ hw => ne_nil_of_mem_wins hw
  placed w hw := by
    obtain ⟨news, hnews, hwins⟩ := h.records
    have hall : (c.server.log.recordsOf stream).map Record.encoded =
        old.map Record.encoded ++ c.wins.flatMap (·.1.events) := by
      rw [hnews, List.map_append, hwins]
    rw [List.map_take, List.map_drop, hall]
    exact h.tiles.placed (List.length_map _) w hw
  records := h.records
  position := h.coherent.position_recordsOf hx
  read hd := by
    rw [h.coherent.read_records hx hd]
    simp

end Contest

namespace Store

/-- Whoever appends to a stream through a store, and whenever they make their calls: the appends that
go through lie side by side behind what was there before, so that no version is won twice. An append
that is made alone goes through exactly at the version of a stream that is not deleted; otherwise it
tells that version. -/
theorem append_guarded (now : Nat) (requests : List Request) {stream : String}
    (hx : IsPlainName stream) (moves : List (Contest.Move stream)) :
    let server := (Server.start now).after requests
    let contest := Contest.after ⟨server, [], []⟩ moves
    contest.Outcome stream (server.log.recordsOf stream) ∧
    ∀ (events : List EncodedEvent) (expected : Nat), events ≠ [] →
      Guarded contest.server stream events expected := by
  intro server contest
  have hc : server.log.Coherent := Server.coherent_after now requests
  have hstart : Contest.Fair stream (server.log.recordsOf stream) ⟨server, [], []⟩ :=
    ⟨hc, .nil _, [], (List.append_nil _).symm, rfl⟩
  have h : contest.Fair stream (server.log.recordsOf stream) := hstart.after hx moves
  exact ⟨h.outcome hx, fun events expected hne => guarded h.coherent hx hne expected⟩

/-- One of them is too early and has to ask for the version, two of them want to be the first, and
one of them comes after the stream has been deleted. -/
def crowdedRun : List (Contest.Move "order-1") :=
  let event (t : String) : EncodedEvent := ⟨t, [], []⟩
  [.bid ⟨[event "Shipped"], 1⟩, .bid ⟨[event "Placed", event "Noted"], 0⟩,
    .bid ⟨[event "Placed"], 0⟩, .inquire 0,
    .serve (.call (.append "order-2" .any [event "Placed"]))
      (show "order-2" ≠ "order-1" by decide),
    .bid ⟨[event "Shipped"], 2⟩, .serve (.call (.tombstone "order-1")) id,
    .bid ⟨[event "Noted"], 3⟩]

theorem append_guarded_crowdedRun :
    let contest := Contest.after ⟨(Server.start 0).after [], [], []⟩ crowdedRun
    IsPlainName "order-1" ∧ contest.Outcome "order-1" [] ∧
    Guarded contest.server "order-1" [⟨"Placed", [], []⟩] 3 ∧
    contest.wins.map (fun w => (w.1.expected, w.2)) = [(0, 2), (2, 3)] ∧
    contest.settled.map (·.2) = [.ok 2, .error (.concurrency ⟨"order-1", 0, 2⟩),
      .error (.concurrency ⟨"order-1", 1, 2⟩), .ok 3, .error (.streamDeleted "order-1")] := by
  intro contest
  have hx : IsPlainName "order-1" := by decide
  obtain ⟨houtcome, hguard⟩ := append_guarded 0 [] hx crowdedRun
  exact ⟨hx, houtcome, hguard _ 3 (List.cons_ne_nil _ _), by decide +kernel, by decide +kernel⟩

end Store

end EventSourcing
