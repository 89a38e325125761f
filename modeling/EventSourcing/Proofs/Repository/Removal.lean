import EventSourcing.Domain.Note
import EventSourcing.Proofs.Repository.Existence

/-!
# Removing aggregates

A removal does what the mode of the repository says and nothing else: it asks nothing, or appends
the deletion event of what it has loaded, or deletes the stream. A stream that was deleted stays
gone, whatever is asked later (`Repository.removes_as_configured`).
-/

namespace EventSourcing

/-! ## Deleting a stream -/

namespace Store

variable {s : Server} {stream : String}

theorem delete_of_deleted (hd : stream ∈ s.log.deleted) :
    (delete s stream).1 = .error (.streamDeleted stream) := by
  simp only [delete, answer, LogClient.tombstone, Server.tombstone, Log.tombstone, if_pos hd]
  rfl

/-- A stream that is not deleted is deleted then. -/
theorem delete_of_notMem (hd : stream ∉ s.log.deleted) :
    (delete s stream).1 = .ok () ∧ stream ∈ (delete s stream).2.log.deleted := by
  obtain ⟨log', h⟩ := Log.exists_tombstone hd s.time
  simp only [delete, answer, LogClient.tombstone, Server.tombstone, Server.time_calls, h,
    Server.wake]
  exact ⟨rfl, Log.tombstone_deleted h ▸ List.mem_cons_self⟩

end Store

variable {A E : Type}

/-! ## Setting a repository up -/

/-- What is done to a repository before it is used. -/
inductive Repository.Setup (A E : Type)
  | inMode (mode : Removal)
  /-- A deletion method is offered; the aggregate's own one has the default name. -/
  | offer (name : String) (method : A → E)

namespace Repository.Setup

def act (r : Repository A E) : Setup A E → Repository A E
  | .inMode mode => r.inMode mode
  | .offer name method => r.offer name method

/-- The mode that is set. -/
def mode? : Setup A E → Option Removal
  | .inMode mode => some mode
  | .offer _ _ => none

/-- The deletion method that is offered under a name. -/
def method? (name : String) : Setup A E → Option (A → E)
  | .inMode _ => none
  | .offer own method => if own = name then some method else none

end Repository.Setup

namespace Repository

def setUp (r : Repository A E) (steps : List (Setup A E)) : Repository A E :=
  steps.foldl Setup.act r

/-- Of the modes that are set the last one counts, and so does the last one of the methods that are
offered under the configured name. -/
theorem setUp_eq (r : Repository A E) (steps : List (Setup A E)) : r.setUp steps =
    { r with
      removal := (steps.filterMap Setup.mode?).getLast?.getD r.removal
      deletion := (steps.filterMap (Setup.method? r.softDeleteMethod)).getLast?.or r.deletion } := by
  unfold setUp
  induction steps generalizing r with
  | nil => rfl
  | cons step steps ih =>
      rw [List.foldl_cons, ih]
      cases step with
      | inMode mode =>
          simp [Setup.act, Setup.mode?, Setup.method?, inMode, List.getLast?_cons]
      | offer name method =>
          by_cases hname : name = r.softDeleteMethod
          · simp [Setup.act, Setup.mode?, Setup.method?, offer, hname, List.getLast?_cons]
          · simp [Setup.act, Setup.mode?, Setup.method?, offer, hname]

/-! ## What a removal comes to -/

/-- A stream has been read, and nothing else has been asked or has changed. -/
def HasOnlyRead (stream : String) (t t' : Transcript Server) : Prop :=
  t'.calls = t.calls ++ [.read stream 0] ∧ t'.client.log = t.client.log

variable [DomainEvent E] [Aggregate A E]

/-- What a soft removal comes to. -/
structure RemovesSoftly (r : Repository A E) (t : Transcript Server) (id : String)
    (answer : Except RepositoryError Unit × Transcript Server) : Prop where
  /-- What cannot be loaded is missing, whether there is a deletion method or not. -/
  missing : ∀ e, (r.get t.client id).1 = .error e → e = .notFound (r.streamOf id) ∧
    answer.1 = .error e ∧ HasOnlyRead (r.streamOf id) t answer.2
  misconfigured : ∀ root, (r.get t.client id).1 = .ok root → r.deletion = none →
    answer.1 = .error (.deletionMisconfigured (Aggregate.kind A) r.softDeleteMethod) ∧
    HasOnlyRead (r.streamOf id) t answer.2
  unencoded : ∀ root method e, (r.get t.client id).1 = .ok root → r.deletion = some method →
    EncodedEvent.ofEvent (method root.state) r.category = .error e →
    answer.1 = .error (.serialization e) ∧ HasOnlyRead (r.streamOf id) t answer.2
  /-- The deletion event of what was loaded is put behind the records of the stream. -/
  marked : ∀ root method event, (r.get t.client id).1 = .ok root → r.deletion = some method →
    EncodedEvent.ofEvent (method root.state) r.category = .ok event →
    answer.1 = .ok () ∧
    answer.2.calls = t.calls ++
      [.read (r.streamOf id) 0, .append (r.streamOf id) (.ofVersion root.version) [event]] ∧
    t.client.log.Extended answer.2.client.log (r.streamOf id) root.version [event] ∧
    ∃ records record, t.client.log.read (r.streamOf id) 0 = .ok records ∧
      root.state = replay (decodeAll records) ∧ record.encoded = event ∧
      answer.2.client.log.read (r.streamOf id) 0 = .ok (records ++ [record])

/-- Nothing is found in a stream, and nothing is taken for it. -/
structure Gone (r : Repository A E) (s : Server) (id : String) : Prop where
  get_eq : (r.get s id).1 = .error (.notFound (r.streamOf id))
  exists_eq : (r.exists? s id).1 = .ok false
  refused : ∀ root, root.id = id → root.pending ≠ [] → (∀ event ∈ root.pending, r.Encodes event) →
    (r.save s root).1 = .error (.store (.streamDeleted (r.streamOf id)))
  unencoded : ∀ root e, root.id = id → r.encodePending root = .error e →
    (r.save s root).1 = .error (.serialization e)

/-- What a hard removal comes to. -/
structure RemovesHard (r : Repository A E) (t : Transcript Server) (id : String)
    (answer : Except RepositoryError Unit × Transcript Server) : Prop where
  calls_eq : answer.2.calls = t.calls ++ [.tombstone (r.streamOf id)]
  missing_iff : answer.1 = .error (.notFound (r.streamOf id)) ↔
    r.streamOf id ∈ t.client.log.deleted
  removed_iff : answer.1 = .ok () ↔ r.streamOf id ∉ t.client.log.deleted
  /-- Whatever is asked later, the stream stays gone. -/
  gone : answer.1 = .ok () → ∀ later, r.Gone (answer.2.client.after later) id

/-- A removal does what the mode says. -/
structure Removes (r : Repository A E) (t : Transcript Server) (id : String)
    (answer : Except RepositoryError Unit × Transcript Server) : Prop where
  disabled : r.removal = .disabled → answer = (.error (.deletionDisabled (Aggregate.kind A)), t)
  soft : r.removal = .soft → r.RemovesSoftly t id answer
  hard : r.removal = .hard → r.RemovesHard t id answer

/-! ## Soft removal -/

section Soft

variable (r : Repository A E) (t : Transcript Server) (id : String)

theorem get_note : r.get t id = t.note (.read (r.streamOf id) 0) (r.get t.client id) := by
  unfold get
  rw [Store.read_note]
  simp only [Transcript.note]
  cases Store.read t.client (r.streamOf id) 0 with
  | mk result server =>
      cases result with
      | error e => cases e <;> rfl
      | ok records =>
          simp only
          cases versionOf? records <;> rfl

theorem hasOnlyRead_get : HasOnlyRead (r.streamOf id) t (r.get t id).2 := by
  rw [get_note]
  exact ⟨rfl, r.get_log t.client id⟩

theorem removeSoft_of_error {e : RepositoryError} (h : (r.get t.client id).1 = .error e) :
    r.removeSoft t id = (.error e, (r.get t id).2) := by
  have hget : (r.get t id).1 = .error e := by rw [get_note]; exact h
  unfold removeSoft
  split <;> rename_i hr <;> rw [hr] at hget ⊢
  · cases hget
    rfl
  · cases hget

theorem removeSoft_of_ok {root : Root A E} (h : (r.get t.client id).1 = .ok root) :
    r.removeSoft t id = match r.deletion with
      | none =>
        (.error (.deletionMisconfigured (Aggregate.kind A) r.softDeleteMethod), (r.get t id).2)
      | some deletion =>
        let saved := r.save (r.get t id).2 (root.raise (deletion root.state))
        (saved.1, saved.2.2) := by
  have hget : (r.get t id).1 = .ok root := by rw [get_note]; exact h
  unfold removeSoft
  split <;> rename_i hr <;> rw [hr] at hget ⊢
  · cases hget
  · cases hget
    rfl

end Soft

/-- An event that is raised on a root with nothing pending is all that is pending. -/
theorem encodePending_raise (r : Repository A E) {root : Root A E} (hp : root.pending = [])
    (event : E) : r.encodePending (root.raise event) =
      (EncodedEvent.ofEvent event r.category).map ([·]) := by
  unfold encodePending Root.raise
  rw [hp, List.nil_append, List.mapM_cons]
  cases EncodedEvent.ofEvent event r.category <;> rfl

theorem get_eq_error (r : Repository A E) {s : Server} (hc : s.log.Coherent) {id : String}
    (hx : IsPlainName (r.streamOf id)) {e : RepositoryError} (h : (r.get s id).1 = .error e) :
    e = .notFound (r.streamOf id) := by
  by_cases hd : r.streamOf id ∈ s.log.deleted
  · rw [r.get_of_deleted hd] at h
    exact (Except.error.inj h).symm
  · rw [r.get_fst hc hx hd] at h
    split at h
    · exact (Except.error.inj h).symm
    · cases h

theorem removesSoftly (r : Repository A E) (t : Transcript Server) (id : String)
    (hc : t.client.log.Coherent) (hx : IsPlainName (r.streamOf id)) :
    r.RemovesSoftly t id (r.removeSoft t id) := by
  have honly := r.hasOnlyRead_get t id
  refine ⟨fun e h => ?_, fun root h hdeletion => ?_, fun root method e h hdeletion he => ?_,
    fun root method event h hdeletion he => ?_⟩
  · rw [r.removeSoft_of_error t id h]
    exact ⟨r.get_eq_error hc hx h, rfl, honly⟩
  · rw [r.removeSoft_of_ok t id h, hdeletion]
    exact ⟨rfl, honly⟩
  all_goals
    rw [r.removeSoft_of_ok t id h, hdeletion]
    have hp : root.pending = [] := by rw [r.get_eq_ok hc hx h]; rfl
    have hencode := r.encodePending_raise hp (method root.state)
    rw [he] at hencode
    have hsaves := r.save_cases (r.get t id).2 (root.raise (method root.state))
  · simp only [hsaves.of_unencoded hencode]
    exact ⟨trivial, honly⟩
  · obtain ⟨rfl, hd, hversion⟩ := r.version_of_get hc hx h
    obtain ⟨hcalls, hlog⟩ := honly
    have hread := hc.read_zero hx hd
    have hcurrent := (hc.version_recordsOf hx hd).trans hversion.symm
    have hne : (root.raise (method root.state)).pending ≠ [] := by simp [Root.raise]
    -- The root is at the version of its stream, so that its event is taken.
    rw [← hlog] at hd hcurrent
    obtain ⟨hok, hcalls', hext⟩ := hsaves.of_current hne hencode hd hcurrent
    rw [hcalls, List.append_assoc] at hcalls'
    rw [hlog] at hext
    obtain ⟨news, hread', hnews⟩ := hext.read_zero hx hread
    obtain ⟨record, rfl, hrecord⟩ := List.map_eq_singleton_iff.1 hnews
    refine ⟨hok, hcalls', hext, _, record, hread, ?_, hrecord, hread'⟩
    rw [r.get_eq_ok hc hx h]
    rfl

/-! ## Hard removal -/

/-- What is deleted is gone. -/
theorem gone_of_deleted (r : Repository A E) {s : Server} {id : String}
    (hd : r.streamOf id ∈ s.log.deleted) : r.Gone s id := by
  refine ⟨r.get_of_deleted hd, r.exists?_of_deleted hd, fun root hid hp hx => ?_,
    fun root e hid he => ?_⟩
  all_goals
    obtain ⟨calls, hsaves⟩ := r.exists_saves s root
    subst hid
  · obtain ⟨events, hencode⟩ := exists_encodePending hx
    rcases hsaves.of_encoded hp hencode with ⟨-, h⟩ | ⟨version, hversion, -⟩
    · exact h
    · exact absurd hd (Store.version_eq_ok_iff.1 hversion).1
  · exact congrArg Prod.fst (hsaves.of_unencoded he)

theorem removesHard (r : Repository A E) (t : Transcript Server) (id : String) :
    r.RemovesHard t id (r.removeHard t id) := by
  unfold removeHard
  rw [Store.delete_note]
  simp only [Transcript.note]
  by_cases hd : r.streamOf id ∈ t.client.log.deleted
  · have h := Store.delete_of_deleted hd
    generalize Store.delete t.client (r.streamOf id) = answer at h ⊢
    obtain ⟨result, server⟩ := answer
    obtain rfl : result = _ := h
    constructor <;> simp [hd]
  · obtain ⟨h, hd'⟩ := Store.delete_of_notMem hd
    generalize Store.delete t.client (r.streamOf id) = answer at h hd' ⊢
    obtain ⟨result, server⟩ := answer
    obtain rfl : result = _ := h
    refine ⟨rfl, ?_, ?_, fun _ later => r.gone_of_deleted ?_⟩
    · simp [hd]
    · simp [hd]
    · exact (server.after_before later).deleted hd'

/-! ## Removal -/

/-- Whatever a server has been asked, and however a repository was set up, a removal does what the
mode says. A save to a stream that was removed fails: if something that is pending cannot be
encoded, then because of that. -/
theorem removes_as_configured (now : Nat) (requests : List Request) (settings : RepositorySettings)
    (steps : List (Setup A E)) (id : String)
    (hx : IsPlainName (((ofSettings settings : Repository A E).setUp steps).streamOf id)) :
    let r : Repository A E := (ofSettings settings).setUp steps
    let t : Transcript Server := ⟨(Server.start now).after requests, []⟩
    r = {
      category := settings.category.getD (Aggregate.kind A)
      removal := (steps.filterMap Setup.mode?).getLast?.getD settings.removal
      softDeleteMethod := settings.softDeleteMethod
      deletion := (steps.filterMap (Setup.method? settings.softDeleteMethod)).getLast? } ∧
    r.Removes t id (r.remove t id) := by
  intro r t
  have hc : t.client.log.Coherent := Server.coherent_after now requests
  refine ⟨(setUp_eq _ steps).trans ?_, fun h => ?_, fun h => ?_, fun h => ?_⟩
  · simp [ofSettings]
  all_goals
    unfold remove
    rw [h]
  · exact r.removesSoftly t id hc hx
  · exact r.removesHard t id

/-- A counter is archived with its total. -/
def archive (c : Counter) : Tick := ⟨.ofNat c.total⟩

/-- Methods of two names are offered, and the mode is set twice. -/
def archiving : List (Setup Counter Tick) :=
  [.offer "archive" archive, .inMode .hard, .offer "mark_as_deleted" fun _ => ⟨0⟩, .inMode .soft]

theorem removes_as_configured_archiving :
    let r : Repository Counter Tick :=
      (ofSettings { softDeleteMethod := "archive" }).setUp archiving
    let t : Transcript Server := ⟨(Server.start 0).after damagedCounter, []⟩
    let answer := r.remove t "1"
    IsPlainName (r.streamOf "1") ∧ (r.get t.client "1").1 = .ok (.loaded "1" 2 ⟨7⟩) ∧
      answer.1 = .ok () ∧ ∃ event, EncodedEvent.ofEvent (archive ⟨7⟩) r.category = .ok event ∧
        answer.2.calls =
          [.read (r.streamOf "1") 0, .append (r.streamOf "1") (.ofVersion 2) [event]] := by
  intro r t answer
  have hx : IsPlainName (r.streamOf "1") := by decide
  have hget : (r.get t.client "1").1 = .ok (.loaded "1" 2 ⟨7⟩) := by decide +kernel
  obtain ⟨-, hremoves⟩ := removes_as_configured 0 damagedCounter { softDeleteMethod := "archive" }
    archiving "1" hx
  obtain ⟨event, hevent⟩ : ∃ event, EncodedEvent.ofEvent (archive ⟨7⟩) r.category = .ok event :=
    ⟨_, rfl⟩
  have hsoft : r.RemovesSoftly t "1" answer := hremoves.soft rfl
  obtain ⟨hok, hcalls, -⟩ := hsoft.marked _ archive event hget rfl hevent
  exact ⟨hx, hget, hok, event, hevent, hcalls⟩

/-- A note is written down, and its notebook removed for good. What cannot be encoded is not refused
because the stream is gone, since nobody is asked. -/
theorem unencodable_after_removal :
    let r : Repository Domain.Notebook Domain.NoteEvent :=
      (ofSettings { removal := .hard }).setUp []
    let s := (r.save (Server.start 0) ((Root.new "1").raise (.note "a"))).2.2
    let removed := r.remove s "1"
    let root := (Root.new "1").raise .poison
    IsPlainName (r.streamOf "1") ∧ removed.1 = .ok () ∧ root.pending ≠ [] ∧
      (r.save removed.2 root).1 = .error (.serialization ⟨"Poison", "key must be a string"⟩) ∧
      (r.save removed.2 root).1 ≠ .error (.store (.streamDeleted (r.streamOf "1"))) := by
  decide +kernel

end Repository

end EventSourcing
