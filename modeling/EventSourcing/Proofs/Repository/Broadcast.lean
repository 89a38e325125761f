import EventSourcing.Proofs.Repository.Isolation
import EventSourcing.Proofs.Subscription.CaughtUp
import EventSourcing.Proofs.Subscription.Resume

/-!
# What is saved reaches the observers of its category

The log files a stream under the part of its name before the first dash, so that the streams of a
repository are filed under its category only if that has no dash itself. Whatever else happens, what
is saved to a stream that is not deleted stands in the projection that the stream is filed under,
and a subscription to it does not miss it (`Broadcast.saved_observed`).
-/

namespace EventSourcing

/-! ## Where streams are filed -/

/-- The part of a category before its first dash. -/
def frontOf (category : String) : String :=
  String.ofList (category.toList.takeWhile (· ≠ '-'))

theorem frontOf_dashless (category : String) : '-' ∉ (frontOf category).toList := by
  intro h
  rw [frontOf, String.toList_ofList] at h
  have hne := List.mem_takeWhile_imp h
  simp at hne

theorem frontOf_eq_self_iff {category : String} :
    frontOf category = category ↔ '-' ∉ category.toList := by
  constructor
  · intro h
    have hno := frontOf_dashless category
    rwa [h] at hno
  · intro h
    rw [frontOf, List.takeWhile_eq_self_iff.2, String.ofList_toList]
    exact fun c hc => decide_eq_true fun he => h (he ▸ hc)

theorem takeWhile_append_dash (front rest : List Char) :
    (front ++ '-' :: rest).takeWhile (· ≠ '-') = front.takeWhile (· ≠ '-') := by
  induction front with
  | nil => simp
  | cons c front ih =>
      simp only [List.cons_append, List.takeWhile_cons, ih]

theorem Repository.streamCategory?_streamOf {A E : Type} {r : Repository A E}
    (hplain : IsPlainName r.category) (id : String) :
    streamCategory? (r.streamOf id) = some (frontOf r.category) := by
  have hname : (r.streamOf id).toList = r.category.toList ++ '-' :: id.toList := by simp [streamOf]
  have hdash : '-' ∈ r.category.toList ++ '-' :: id.toList := by simp
  rw [(Desk.isPlainName_streamOf hplain id).streamCategory?_eq, hname, beforeDash?, if_pos hdash,
    takeWhile_append_dash]
  rfl

namespace Log

/-- Every entry is filed under the category of its stream. -/
def Filed (log : Log) : Prop :=
  ∀ e ∈ log.history, e.category.map (·.1) = streamCategory? e.record.stream

theorem filed_empty : Log.empty.Filed := fun _ h => by cases h

theorem Filed.step {log log' : Log} (h : log.Filed) (hs : log.Step log') : log'.Filed := by
  intro e he
  cases hs with
  | append ha =>
      rw [history_append ha, List.mem_append] at he
      rcases he with he | he
      · exact h e he
      · rw [stream_of_mem_newEntries _ _ _ _ _ he]
        exact category_of_mem_newEntries _ _ _ _ _ he
  | tombstone ht =>
      rw [history_tombstone ht, List.mem_append, List.mem_singleton] at he
      rcases he with he | rfl
      · exact h e he
      · exact category_nextEntry ..

theorem Filed.before {log log' : Log} (h : log.Filed) (hb : log.Before log') : log'.Filed := by
  induction hb with
  | refl => exact h
  | tail _ hs ih => exact ih.step hs

end Log

/-! ## What is asked of the server -/

theorem Repository.perform_becomes {A E : Type} [DomainEvent E] [Aggregate A E]
    (r : Repository A E) (s : Server) (c : Command A E) : s.Becomes (r.perform s c) := by
  cases c with
  | save root => exact r.save_becomes s root
  | remove mode id => exact (r.inMode mode).remove_becomes s id

namespace Follow

variable {E : Type} [DomainEvent E] {w : Follow E}

theorem openOn_becomes (s : Server) (stream : String) (group : Option String)
    (start : Option Nat) : s.Becomes (Connection.openOn s stream group start).2 := by
  cases group with
  | none => exact .serve s (.openReader stream start)
  | some group => exact .serve s (.join stream group)

theorem stepped_becomes {s s' : Subscription E} {server server' : Server}
    (h : Subscription.Stepped server s s' server') : server.Becomes server' := by
  cases h with
  | connected hplace hc | refused hplace hc =>
      have h := openOn_becomes server s.stream s.group s.loop.start
      rwa [show Connection.openOn server s.stream s.group s.loop.start = _ from hc] at h
  | @polled c r hplace hc hask =>
      have hpoll : r = c.poll server := hask.elim id id
      rw [Subscription.polled_client, hpoll]
      cases c with
      | catchUp reader => exact .refl server
      | member m => exact .serve server (.pollMember m)
  | @settled position id m r server' hplace hm hack =>
      have h := Server.Becomes.serve server (.ack m [id])
      rwa [show (server.serve (.ack m [id])).2 = server' from congrArg Prod.snd hack] at h
  | _ => exact .refl server

theorem act_becomes (w : Follow E) (move : Move) : w.server.Becomes (w.act move).server := by
  cases move with
  | serve r => exact .serve w.server r
  | run =>
      simp only [act]
      split
      · exact .refl _
      · rename_i h
        exact stepped_becomes (Subscription.step_cases h)
  | receive =>
      simp only [act]
      split <;> exact .refl _
  | close => exact .refl _

theorem after_serve (w : Follow E) (requests : List Request) :
    w.after (requests.map .serve) = { w with server := w.server.after requests } := by
  induction requests generalizing w with
  | nil => rfl
  | cons r requests ih => exact ih (w.act (.serve r))

/-- Whatever else is asked of the server, the loop stays faithful. -/
theorem Faithful.becomes {stream : String} {initial : Option Nat} {position : Nat}
    (h : w.Faithful stream initial position) (hs : (Scope.ofName stream).IsSteady)
    {server : Server} (hb : w.server.Becomes server) :
    ∃ position', Faithful stream initial position' { w with server := server } := by
  obtain ⟨requests, rfl⟩ := hb
  rw [← after_serve]
  exact h.after hs (requests.map .serve)

end Follow

/-! ## What is saved -/

/-- The events have records in the stream of the aggregate, in this order. -/
def Log.Holds {A E : Type} [DomainEvent E] (log : Log) (r : Repository A E) (id : String)
    (events : List E) : Prop :=
  ∃ records, records.Sublist (log.recordsOf (r.streamOf id)) ∧ List.Forall₂
    (fun event record => EncodedEvent.ofEvent event r.category = .ok record.encoded) events records

namespace Repository

variable {A E : Type} [DomainEvent E] [Aggregate A E]

/-- The events that saving a root saves. -/
def savedEvents (r : Repository A E) (s : Server) (root : Root A E) : List E :=
  match (r.save s root).1 with
  | .ok _ => root.pending
  | .error _ => []

/-- The events that removing an aggregate softly saves. -/
def deletionEvents (r : Repository A E) (s : Server) (id : String) : List E :=
  match (r.get s id).1, r.deletion, (r.removeSoft s id).1 with
  | .ok root, some deletion, .ok _ => [deletion root.state]
  | _, _, _ => []

/-- The events that a command saves. -/
def Command.events (r : Repository A E) (s : Server) : Command A E → List E
  | .save root => r.savedEvents s root
  | .remove .soft id => r.deletionEvents s id
  | .remove _ _ => []

variable {r : Repository A E} {s : Server} {id : String} {events : List E}

omit [Aggregate A E] in
theorem holds_before {log log' : Log} (h : log.Holds r id events) (hb : log.Before log') :
    log'.Holds r id events := by
  obtain ⟨records, hsub, hall⟩ := h
  exact ⟨records, hsub.trans (hb.recordsOf _).sublist, hall⟩

omit [Aggregate A E] in
/-- A save that goes through adds a record for each pending event. -/
theorem holds_of_save_eq_ok (h : s.log.Holds r id events) {root root' : Root A E} {s' : Server}
    (hid : root.id = id) (hp : root.pending ≠ []) (hsave : r.save s root = (.ok (), root', s')) :
    s'.log.Holds r id (events ++ root.pending) := by
  obtain ⟨encoded, version, -, hencoded, happend, -⟩ := r.save_eq_ok hp hsave
  rw [hid] at happend
  obtain ⟨news, hnews, rfl⟩ := Log.exists_recordsOf_append happend
  obtain ⟨records, hsub, hall⟩ := h
  have hnew := encodePending_eq_ok hencoded
  rw [List.forall₂_map_right_iff] at hnew
  refine ⟨records ++ news, ?_, List.rel_append hall hnew⟩
  rw [hnews]
  exact hsub.append (List.Sublist.refl _)

omit [Aggregate A E] in
theorem holds_save (h : s.log.Holds r id events) {root : Root A E} (hid : root.id = id) :
    (r.save s root).2.2.log.Holds r id (events ++ r.savedEvents s root) := by
  have hkept : (r.save s root).2.2.log.Holds r id events := holds_before h (r.save_before s root)
  unfold savedEvents
  split
  · rename_i hok
    by_cases hp : root.pending = []
    · rwa [hp, List.append_nil]
    · exact holds_of_save_eq_ok h hid hp (Prod.ext hok rfl)
  · rwa [List.append_nil]

theorem holds_removeSoft (h : s.log.Holds r id events) :
    (r.removeSoft s id).2.log.Holds r id (events ++ r.deletionEvents s id) := by
  have hbefore : s.log.Before (r.removeSoft s id).2.log := (r.inMode .soft).remove_before s id
  have hlog := r.get_log s id
  unfold deletionEvents
  split
  · rename_i root deletion _ hget hdeletion hok
    obtain ⟨version, state, rfl⟩ := r.exists_loaded_of_get s id hget
    cases hg : r.get s id with
    | mk result server =>
        rw [hg] at hget hlog
        obtain rfl : result = .ok (.loaded id version state) := hget
        rw [← hlog] at h
        -- The loaded root has nothing pending, so that the deletion event is all that is saved.
        let deleted := (Root.loaded id version state).raise (deletion state)
        have hsave : (r.save server deleted).2.2.log.Holds r id
            (events ++ r.savedEvents server deleted) := holds_save h rfl
        simp only [removeSoft, hg, hdeletion] at hok ⊢
        have hok : (r.save server deleted).1 = .ok _ := hok
        rwa [savedEvents, hok] at hsave
  · rw [List.append_nil]
    exact holds_before h hbefore

theorem holds_perform (h : s.log.Holds r id events) {c : Command A E} (hid : c.id = id) :
    (r.perform s c).log.Holds r id (events ++ c.events r s) := by
  cases c with
  | save root => exact holds_save h hid
  | remove mode id' =>
      obtain rfl : id' = id := hid
      by_cases hsoft : mode = .soft
      · rw [hsoft]
        exact holds_removeSoft h
      · rw [Command.events, List.append_nil]
        · exact holds_before h ((r.inMode mode).remove_before s id')
        · exact hsoft

end Repository

/-! ## Runs -/

/-- A subscription that follows the log while a repository is used, with the events that were saved
to one aggregate. -/
structure Broadcast (E : Type) where
  follow : Follow E
  saved : List E := []

/-- What happens next. -/
inductive Broadcast.Move (A E : Type)
  /-- Something is done through the repository. -/
  | command (c : Repository.Command A E)
  /-- The subscription goes on, or anybody asks the server for something. -/
  | follow (move : Follow.Move)

namespace Broadcast

variable {A E : Type} [DomainEvent E] [Aggregate A E]

def act (r : Repository A E) (id : String) (b : Broadcast E) : Move A E → Broadcast E
  | .command c =>
    { follow := { b.follow with server := r.perform b.follow.server c }
      saved := b.saved ++ if c.id = id then c.events r b.follow.server else [] }
  | .follow move => { b with follow := b.follow.act move }

def after (r : Repository A E) (id : String) (b : Broadcast E) (moves : List (Move A E)) :
    Broadcast E :=
  moves.foldl (act r id) b

/-- The server has served requests since `server`, the subscription has missed nothing, and what was
saved is held. -/
structure Sound (r : Repository A E) (id : String) (server : Server) (stream : String)
    (b : Broadcast E) : Prop where
  becomes : server.Becomes b.follow.server
  faithful : ∃ position, b.follow.Faithful stream none position
  holds : b.follow.server.log.Holds r id b.saved

namespace Sound

variable {r : Repository A E} {id : String} {server : Server} {stream : String} {b : Broadcast E}

theorem act (h : b.Sound r id server stream) (hs : (Scope.ofName stream).IsSteady)
    (move : Move A E) : (b.act r id move).Sound r id server stream := by
  obtain ⟨position, hf⟩ := h.faithful
  cases move with
  | command c =>
      have hb := r.perform_becomes b.follow.server c
      refine ⟨h.becomes.trans hb, hf.becomes hs hb, ?_⟩
      by_cases hid : c.id = id
      · have hholds := Repository.holds_perform h.holds hid
        simpa only [Broadcast.act, if_pos hid] using hholds
      · have hholds := Repository.holds_before h.holds hb.before
        simpa only [Broadcast.act, if_neg hid, List.append_nil] using hholds
  | follow move =>
      have hb := b.follow.act_becomes move
      exact ⟨h.becomes.trans hb, hf.after hs [move], Repository.holds_before h.holds hb.before⟩

theorem after (h : b.Sound r id server stream) (hs : (Scope.ofName stream).IsSteady)
    (moves : List (Move A E)) : (b.after r id moves).Sound r id server stream := by
  induction moves generalizing b with
  | nil => exact h
  | cons move moves ih => exact ih (h.act hs move)

end Sound

end Broadcast

/-! ## What is seen of it -/

/-- What is saved has the type and the payload of its event. -/
theorem Verdict.of_encoded {E : Type} [DomainEvent E] (hE : RoundTrips E) {record : StoredRecord}
    (hstream : IsPlainName record.stream) {event : E}
    (htype : IsPlainName (DomainEvent.eventType event)) {kind : String}
    (h : EncodedEvent.ofEvent event kind = .ok record.encoded) :
    Verdict.of E record = .deliver (record.replaceData event) := by
  have hsame : record.eventType = DomainEvent.eventType event := by
    unfold EncodedEvent.ofEvent at h
    cases hd : DomainEvent.encode event with
    | error e =>
        rw [hd] at h
        cases h
    | ok data =>
        rw [hd] at h
        exact congrArg EncodedEvent.eventType (Except.ok.inj h).symm
  have hmark : record.isTombstone = false := hstream.not_tombstone
  have hsystem : record.isSystem = false := by
    rw [Record.isSystem, hsame]
    exact htype
  simp only [Verdict.of, hmark, hsystem, hE event kind _ h record rfl, Bool.false_eq_true, if_false]

theorem not_hasPrefix_streamOfCategory (name : String) :
    Text.hasPrefix tombstoneMark (streamOfCategory name) = false := by
  rw [Bool.eq_false_iff]
  intro h
  obtain ⟨rest, hrest⟩ := Text.hasPrefix_iff.1 h
  have hl := congrArg String.toList hrest
  simp [streamOfCategory, categoryMark, tombstoneMark] at hl

theorem Log.entriesFrom_zero (log : Log) (scope : Scope) :
    log.entriesFrom scope 0 = log.placed scope := by
  rw [entriesFrom_eq, List.filter_eq_self.2 fun _ _ => decide_eq_true (Nat.zero_le _)]

/-- The consumer gets the entry exactly once, if it is one that it has to get. -/
def Follow.Emits {E : Type} [DomainEvent E] (w : Follow E) (a : Nat × Entry) : Prop :=
  ∀ record, Verdict.of E a.2.record = .deliver record →
    w.emitted.filter (fun x => x.1 = a.1) = [(a.1, .first record a.2.record.id)]

namespace Broadcast

variable {A E : Type} [DomainEvent E]

/-- How an event that was saved to the aggregate is seen by those who read what its stream is filed
under: as this entry. -/
structure Shows (r : Repository A E) (id : String) (b : Broadcast E) (event : E)
    (a : Nat × Entry) : Prop where
  stream_eq : a.2.record.stream = r.streamOf id
  encoded : EncodedEvent.ofEvent event r.category = .ok a.2.record.encoded
  verdict : RoundTrips E → IsPlainName (DomainEvent.eventType event) →
    Verdict.of E a.2.record = .deliver (a.2.record.replaceData event)
  /-- The subscription that follows has emitted it when it has come this far. -/
  followed : ∀ last, b.follow.subscription.progress = some last → a.1 ≤ last → b.follow.Emits a
  /-- A subscription that starts now emits it, if it is let in and its consumer goes on reading. -/
  found : b.follow.server.turnAways = 0 → ∀ bufferSize retry n,
    2 * (b.follow.server.log.placed (.category (frontOf r.category))).length < n →
    let w : Follow E := Follow.after ⟨b.follow.server,
      .catchUp (.category (frontOf r.category)) none bufferSize retry, [], []⟩ (Follow.readings n)
    w.received = w.emitted.map (·.2) ∧ w.Emits a

end Broadcast

section Shown

variable {A E : Type} [DomainEvent E] {r : Repository A E} {log : Log}
  (hplain : IsPlainName r.category)

include hplain

omit [DomainEvent E] in
theorem Log.Filed.category_eq (hf : log.Filed) {e : Entry} (he : e ∈ log.history) {id : String}
    (hs : e.record.stream = r.streamOf id) : e.category.map (·.1) = some (frontOf r.category) := by
  rw [hf e he, hs, r.streamCategory?_streamOf hplain]

/-- What is saved stands in the projection that the stream is filed under. -/
theorem Repository.exists_shown (hc : log.Coherent) (hf : log.Filed) {id : String}
    (hd : r.streamOf id ∉ log.deleted) {events : List E} (h : log.Holds r id events) :
    ∃ shown, shown.Sublist (log.placed (.category (frontOf r.category))) ∧
      List.Forall₂ (fun event a => a ∈ log.placed (.category (frontOf r.category)) ∧
        a.2.record.stream = r.streamOf id ∧
        EncodedEvent.ofEvent event r.category = .ok a.2.record.encoded) events shown := by
  obtain ⟨records, hsub, hall⟩ := h
  have hplaced : ((log.placed (.category (frontOf r.category))).map (·.2.record)).filter
      (fun record => record.stream = r.streamOf id) = log.recordsOf (r.streamOf id) := by
    rw [Log.filter_placed, hc.entries_eq _ hd, Log.recordsOf]
    intro e he hs
    have hcategory := hf.category_eq hplain (hc.entries_sublist.subset he) hs
    obtain ⟨⟨_, p⟩, hp, rfl⟩ := Option.map_eq_some_iff.1 hcategory
    exact ⟨p, Scope.position?_category.2 hp⟩
  -- The entries of the stream are found by place, not by record: two events may be encoded alike.
  rw [← hplaced] at hsub
  obtain ⟨shown, hshown, rfl⟩ := List.sublist_map_iff.1 (hsub.trans List.filter_sublist)
  rw [List.forall₂_map_right_iff] at hall
  refine ⟨shown, hshown, ?_⟩
  rw [List.forall₂_iff_zip] at hall ⊢
  refine ⟨hall.1, fun {event a} hz => ?_⟩
  have ha : a ∈ shown := (List.of_mem_zip hz).2
  have hstream := (List.mem_filter.1 (hsub.subset (List.mem_map_of_mem ha))).2
  exact ⟨hshown.subset ha, of_decide_eq_true hstream, hall.2 hz⟩

end Shown

namespace Broadcast

variable {A E : Type} [DomainEvent E] [Aggregate A E]

omit [Aggregate A E] in
theorem Sound.shows {r : Repository A E} {id : String} {server : Server} {b : Broadcast E}
    (h : b.Sound r id server (streamOfCategory (frontOf r.category))) (hc : server.log.Coherent)
    (hopen : server.closed = false) (hplain : IsPlainName r.category)
    (hd : r.streamOf id ∉ b.follow.server.log.deleted) {event : E} {a : Nat × Entry}
    (ha : a ∈ b.follow.server.log.placed (.category (frontOf r.category)))
    (hstream : a.2.record.stream = r.streamOf id)
    (hencoded : EncodedEvent.ofEvent event r.category = .ok a.2.record.encoded) :
    b.Shows r id event a := by
  have hlog := hc.before h.becomes.before
  have hclosed := h.becomes.closed_eq.trans hopen
  obtain ⟨he, hp⟩ := Log.mem_placed.1 ha
  have hscope : Scope.ofName (streamOfCategory (frontOf r.category)) =
      .category (frontOf r.category) := (Projection.category (frontOf r.category)).ofName_name
  rw [← hscope] at hp
  have hhistory := hlog.entries_sublist.subset he
  rw [← hstream] at hd
  have hx : IsPlainName a.2.record.stream := hstream ▸ Desk.isPlainName_streamOf hplain id
  refine ⟨hstream, hencoded, fun hE htype => ?_, ?_, ?_⟩
  · exact Verdict.of_encoded hE hx htype hencoded
  · intro last hlast hle record hv
    obtain ⟨position, hf⟩ := h.faithful
    exact hf.emitted.filter_eq (hf.emitted.complete a.2 hhistory a.1 record hp (Nat.zero_le _)
      (hf.lt_position hlast (Nat.zero_le _) hle) hv hd)
  · intro hin bufferSize retry n hn w
    rw [← Log.entriesFrom_zero, ← hscope] at hn
    obtain ⟨hreceived, -, hall⟩ := Follow.caught_up (E := E) hlog hin hclosed
      (.category (frontOf r.category)) (not_hasPrefix_streamOfCategory _) bufferSize retry hn
    exact ⟨hreceived, fun record hv => hall a.2 hhistory a.1 record hp hv hd⟩

/-- Whatever is done through a repository and by others, each event that was saved to an aggregate
stands in the projection of the category up to its first dash, in order, as long as the stream is
not deleted. A subscription to it emits the event exactly once. No other category shows it. -/
theorem saved_observed (now : Nat) (before : List Request) (r : Repository A E)
    (hplain : IsPlainName r.category) (id : String) (bufferSize : Nat)
    (retry : Option RetrySettings) (moves : List (Move A E)) :
    let front := frontOf r.category
    let b : Broadcast E := after r id ⟨⟨(Server.start now).after before,
      .catchUp (.category front) none bufferSize retry, [], []⟩, []⟩ moves
    let log := b.follow.server.log
    (front = r.category ↔ '-' ∉ r.category.toList) ∧
    (∀ category, ∀ a ∈ log.placed (.category category), ∀ id', a.2.record.stream = r.streamOf id' →
      category = front) ∧
    (streamOfCategory front ∉ log.deleted → (b.follow.server.read (streamOfCategory front) 0).1 =
      .ok ((log.placed (.category front)).map (·.2.record))) ∧
    (r.streamOf id ∉ log.deleted → ∃ shown, shown.Sublist (log.placed (.category front)) ∧
      List.Forall₂ (b.Shows r id) b.saved shown) := by
  intro front b log
  let server := (Server.start now).after before
  have hbegan : (Server.start now).Becomes server := ⟨before, rfl⟩
  have hc : server.log.Coherent := Server.coherent_after now before
  have hstart : Broadcast.Sound r id server (streamOfCategory front)
      ⟨⟨server, .catchUp (.category front) none bufferSize retry, [], []⟩, []⟩ :=
    ⟨.refl _, ⟨0, Follow.faithful_start hc (.category front) none bufferSize retry⟩,
      [], List.nil_sublist _, .nil⟩
  have h : b.Sound r id server (streamOfCategory front) :=
    hstart.after (Scope.isSteady_ofName (not_hasPrefix_streamOfCategory _)) moves
  have hlog := hc.before h.becomes.before
  have hf : log.Filed := Log.filed_empty.before (hbegan.trans h.becomes).before
  refine ⟨frontOf_eq_self_iff, ?_, ?_, ?_⟩
  · intro category a ha id' hs
    obtain ⟨he, hp⟩ := Log.mem_placed.1 ha
    have hcategory := hf.category_eq hplain (hlog.entries_sublist.subset he) hs
    rw [Scope.position?_category.1 hp] at hcategory
    exact Option.some.inj hcategory
  · intro hd
    have hscope : Scope.ofName (streamOfCategory front) = .category front :=
      (Projection.category front).ofName_name
    simp only [Server.read, Log.read, hscope, Log.entriesFrom_zero]
    exact if_neg hd
  · intro hd
    obtain ⟨shown, hshown, hall⟩ := r.exists_shown hplain hlog hf hd h.holds
    refine ⟨shown, hshown, hall.imp fun event a hseen => ?_⟩
    obtain ⟨ha, hstream, hencoded⟩ := hseen
    exact h.shows hc hbegan.closed_eq hplain hd ha hstream hencoded

/-- Orders that can be removed softly. -/
def removableOrders : Repository Counter Tick :=
  Repository.orders.offer defaultDeletionMethod fun _ => ⟨0⟩

/-- Two events of an order are saved and one of another order, and the order is removed after the
subscription has emitted the first one. -/
def orderRun : List (Move Counter Tick) :=
  [.command (.save ((Root.new "1").raise ⟨1⟩)), .follow .run, .follow .run, .follow .run,
    .command (.save ((Root.loaded "1" 1 ⟨1⟩).raise ⟨2⟩)),
    .command (.save ((Root.new "2").raise ⟨3⟩)), .command (.remove .soft "1")]

theorem saved_observed_orderRun :
    IsPlainName removableOrders.category ∧ frontOf removableOrders.category = "order" ∧
    ∃ b : Broadcast Tick, b = after removableOrders "1" ⟨⟨(Server.start 0).after [],
        .catchUp (.category (frontOf removableOrders.category)) none 8 none, [], []⟩, []⟩ orderRun ∧
      b.saved = [⟨1⟩, ⟨2⟩, ⟨0⟩] ∧ b.follow.subscription.progress = some 0 ∧
      b.follow.emitted.map (·.1) = [0] ∧ ∃ shown,
        shown.Sublist (b.follow.server.log.placed (.category (frontOf removableOrders.category))) ∧
        List.Forall₂ (b.Shows removableOrders "1") b.saved shown := by
  have hplain : IsPlainName removableOrders.category := by decide
  have hfront : frontOf removableOrders.category = "order" := by decide +kernel
  have h := saved_observed 0 [] removableOrders hplain "1" 8 none orderRun
  refine ⟨hplain, hfront, _, rfl, by decide +kernel, by decide +kernel, by decide +kernel, ?_⟩
  exact h.2.2.2 (by decide +kernel)

/-- An order of the category `order-eu` is filed under `order`, and those who read its category, or
wait for more of it, see nothing. -/
theorem unseen_euOrder :
    let saved := Repository.euOrders.save (Server.start 0) ((Root.new "1").raise ⟨1⟩)
    let server := saved.2.2
    let w : Follow Tick := Follow.after ⟨server,
      .catchUp (.category Repository.euOrders.category) none 8 none, [], []⟩ (Follow.readings 4)
    IsPlainName Repository.euOrders.category ∧ saved.1 = .ok () ∧ server.log.deleted = [] ∧
    (server.read (Repository.euOrders.streamOf "1") 0).1.map List.length = .ok 1 ∧
    (server.read (streamOfCategory Repository.euOrders.category) 0).1 = .ok [] ∧
    w.emitted.length = 0 ∧ (w.subscription.step w.server).isNone := by
  intro saved server w
  decide +kernel

end Broadcast

end EventSourcing
