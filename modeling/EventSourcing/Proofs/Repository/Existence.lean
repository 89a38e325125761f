import EventSourcing.Proofs.Log.Projection
import EventSourcing.Proofs.Repository.Drafts
import EventSourcing.Proofs.Repository.Saving

/-!
# Aggregates that exist

Whether a stream can be loaded, whether it is said to exist, and which version it has, is told by
three different parts of the log. They tell the same (`Repository.Agrees`). So whoever has loaded a
root can go on with it and save it, as long as nobody else writes to its stream
(`Repository.loads_what_exists`).
-/

namespace EventSourcing

variable {A E : Type}

namespace Repository

/-! ## What is told of a stream -/

section Views

variable (r : Repository A E) {s : Server} {id : String}

theorem exists?_of_deleted (hd : r.streamOf id ∈ s.log.deleted) :
    (r.exists? s id).1 = .ok false := by
  have hversion := Store.version_of_deleted s hd
  unfold exists?
  split <;> rename_i hr <;> rw [hr] at hversion
  · cases hversion
  · rename_i hother
    exact absurd (Except.error.inj hversion) (hother _)

theorem exists?_fst (hd : r.streamOf id ∉ s.log.deleted) :
    (r.exists? s id).1 = .ok (0 < (s.log.versions.get? (r.streamOf id)).getD 0) := by
  have hversion := Store.version_fst s hd
  unfold exists?
  split <;> rename_i hr <;> rw [hr] at hversion
  · rw [Except.ok.inj hversion]
  · cases hversion
  · cases hversion

variable [DomainEvent E] [Aggregate A E]

/-- What a repository and its store tell of the stream of an aggregate, whether its records decode
or not. -/
structure Agrees (s : Server) (id : String) : Prop where
  found_iff : (∃ root, (r.get s id).1 = .ok root) ↔ (r.exists? s id).1 = .ok true
  missing_iff : (∃ stream, (r.get s id).1 = .error (.notFound stream)) ↔
    (r.exists? s id).1 = .ok false
  total : (r.exists? s id).1 = .ok true ∨ (r.exists? s id).1 = .ok false
  version_eq : ∀ root, (r.get s id).1 = .ok root →
    (Store.version s (r.streamOf id)).1 = .ok root.version
  records_eq : ∀ root, (r.get s id).1 = .ok root → ∃ records,
    (Store.read s (r.streamOf id) 0).1 = .ok records ∧ records.length = root.version

variable (hc : s.log.Coherent) (hx : IsPlainName (r.streamOf id))

include hc hx

/-- A root that was loaded knows all records of its stream. -/
theorem version_of_get {root : Root A E} (h : (r.get s id).1 = .ok root) :
    root.id = id ∧ r.streamOf id ∉ s.log.deleted ∧
      root.version = (s.log.recordsOf (r.streamOf id)).length := by
  refine ⟨?_, r.notMem_deleted_of_get h, ?_⟩ <;> rw [r.get_eq_ok hc hx h] <;> rfl

theorem agrees : r.Agrees s id := by
  by_cases hd : r.streamOf id ∈ s.log.deleted
  · have hget := r.get_of_deleted hd
    have hexists := r.exists?_of_deleted hd
    constructor <;> simp [hget, hexists]
  have hversion := hc.version_recordsOf hx hd
  have hexists := r.exists?_fst hd
  have hget := r.get_fst hc hx hd
  rw [hversion] at hexists
  by_cases hnil : s.log.recordsOf (r.streamOf id) = []
  · rw [if_pos hnil] at hget
    rw [hnil] at hexists
    constructor <;> simp [hget, hexists]
  · rw [if_neg hnil] at hget
    have hpos := List.length_pos_iff.2 hnil
    refine ⟨?_, ?_, ?_, fun root h => ?_, fun root h => ?_⟩
    · simp [hget, hexists, hpos]
    · simp [hget, hexists, hpos]
    · simp [hexists, hpos]
    · rw [Store.version_fst s hd, hversion, (r.version_of_get hc hx h).2.2]
    · refine ⟨_, ?_, (r.version_of_get hc hx h).2.2.symm⟩
      simp only [Store.read, Store.answer, LogClient.read, Server.read, hc.read_zero hx hd]
      rfl

end Views

end Repository

/-! ## A root that is gone on with -/

/-- Whether a request writes to a stream. -/
def Request.Writes (stream : String) : Request → Prop
  | .call (.append x _ _) | .call (.tombstone x) => x = stream
  | _ => False

theorem Request.AppendsTo.writes {request : Request} {stream : String}
    (h : request.AppendsTo stream) : request.Writes stream := by
  cases request with
  | call c =>
      cases c with
      | append => exact h
      | _ => cases h
  | _ => cases h

/-- A root in hand. -/
structure Held (A E : Type) where
  server : Server
  root : Root A E

/-- What happens next: something is done to the root, or anybody asks the server for something that
does not write to its stream. -/
inductive Held.Move (A E : Type) (stream : String) : Type 1
  | raise (event : E)
  | execute {ε : Type} (decide : A → Except ε (List E))
  | save
  | serve (request : Request) (h : ¬ request.Writes stream)

namespace Held

variable [DomainEvent E] [Aggregate A E]

def act (r : Repository A E) {stream : String} (w : Held A E) : Move A E stream → Held A E
  | .raise event => { w with root := w.root.raise event }
  | .execute decide => { w with root := (w.root.execute decide).toOption.getD w.root }
  | .save =>
    let (_, root, server) := r.save w.server w.root
    ⟨server, root⟩
  | .serve request _ => { w with server := (w.server.serve request).2 }

def after (r : Repository A E) {stream : String} (w : Held A E) (moves : List (Move A E stream)) :
    Held A E :=
  moves.foldl (act r) w

/-- The root is at the version of its stream. -/
structure Current (r : Repository A E) (id : String) (w : Held A E) : Prop where
  coherent : w.server.log.Coherent
  id_eq : w.root.id = id
  notDeleted : r.streamOf id ∉ w.server.log.deleted
  version_eq : w.root.version = (w.server.log.recordsOf (r.streamOf id)).length

end Held

theorem Root.raiseAll_version [DomainEvent E] [Aggregate A E] (root : Root A E) (events : List E) :
    (root.raiseAll events).id = root.id ∧ (root.raiseAll events).version = root.version := by
  induction events generalizing root with
  | nil => exact ⟨rfl, rfl⟩
  | cons event events ih => exact ih (root.raise event)

namespace Held.Current

variable {r : Repository A E} {id : String} {w : Held A E}

/-- What is done to the root in hand keeps its id and its version. -/
theorem change (h : w.Current r id) {root : Root A E} (hid : root.id = w.root.id)
    (hversion : root.version = w.root.version) : Held.Current r id { w with root := root } where
  coherent := h.coherent
  id_eq := hid.trans h.id_eq
  notDeleted := h.notDeleted
  version_eq := hversion.trans h.version_eq

theorem serve (h : w.Current r id) (hx : IsPlainName (r.streamOf id)) {request : Request}
    (hr : ¬ request.Writes (r.streamOf id)) :
    Held.Current r id { w with server := (w.server.serve request).2 } where
  coherent := h.coherent.before (w.server.serve_before request)
  id_eq := h.id_eq
  notDeleted hd := by
    rcases (w.server.mem_deleted_serve request _).1 hd with hd | rfl
    · exact h.notDeleted hd
    · exact hr rfl
  version_eq := by
    rw [w.server.recordsOf_serve hx fun ha => hr ha.writes]
    exact h.version_eq

variable [DomainEvent E]

/-- A save of the root goes through, unless something that is pending cannot be encoded. -/
theorem save (h : w.Current r id) (hx : IsPlainName (r.streamOf id)) :
    Held.Current r id ⟨(r.save w.server w.root).2.2, (r.save w.server w.root).2.1⟩ ∧
      ((r.save w.server w.root).1 = .ok () ∨ ∃ e, r.encodePending w.root = .error e ∧
        (r.save w.server w.root).1 = .error (.serialization e)) := by
  obtain ⟨server, root⟩ := w
  obtain rfl : root.id = id := h.id_eq
  have hversion : (server.log.versions.get? (r.streamOf root.id)).getD 0 = root.version :=
    (h.coherent.version_recordsOf hx h.notDeleted).trans h.version_eq.symm
  have hc := h.coherent.before (r.save_before server root)
  obtain ⟨calls, hs⟩ := r.exists_saves server root
  simp only at hc ⊢
  generalize r.save server root = answer at hs hc ⊢
  obtain ⟨result, root', server'⟩ := answer
  simp only at hs
  cases hs with
  | idle hp => exact ⟨h, .inl rfl⟩
  | unencoded he => exact ⟨h, .inr ⟨_, he, rfl⟩⟩
  | refused hp he hd => exact absurd hd h.notDeleted
  | outdated hp he hd hv hne => exact absurd (hv.symm.trans hversion) hne
  | stored hp he hd hv hcalls hext =>
      have hd' : r.streamOf root.id ∉ server'.log.deleted := hext.deleted_eq ▸ hd
      refine ⟨⟨hc, rfl, hd', ?_⟩, .inl rfl⟩
      rw [← hc.version_recordsOf hx hd', hext.versions_eq, if_pos rfl]
      rfl

variable [Aggregate A E]

theorem act (h : w.Current r id) (hx : IsPlainName (r.streamOf id))
    (move : Move A E (r.streamOf id)) : (w.act r move).Current r id := by
  cases move with
  | raise event => exact h.change rfl rfl
  | execute decide =>
      have hkeeps : let root := (w.root.execute decide).toOption.getD w.root
          root.id = w.root.id ∧ root.version = w.root.version := by
        unfold Root.execute
        cases decide w.root.state with
        | ok events => exact w.root.raiseAll_version events
        | error e => exact ⟨rfl, rfl⟩
      exact h.change hkeeps.1 hkeeps.2
  | save => exact (h.save hx).1
  | serve request hr => exact h.serve hx hr

theorem after (h : w.Current r id) (hx : IsPlainName (r.streamOf id))
    (moves : List (Move A E (r.streamOf id))) : (w.after r moves).Current r id := by
  induction moves generalizing w with
  | nil => exact h
  | cons move moves ih => exact ih (h.act hx move)

end Held.Current

/-! ## What is loaded can be saved -/

namespace Repository

variable [DomainEvent E] [Aggregate A E]

/-- Whatever a server has been asked, and by whom, a repository finds an aggregate exactly if it
says that there is one, at the version that the store tells. Whatever is done then to the root, and
to other streams, saving it never conflicts. -/
theorem loads_what_exists (now : Nat) (requests : List Request) (r : Repository A E) (id : String)
    (hx : IsPlainName (r.streamOf id)) :
    let s := (Server.start now).after requests
    r.Agrees s id ∧ ∀ root, (r.get s id).1 = .ok root →
      ∀ moves : List (Held.Move A E (r.streamOf id)),
        let w : Held A E := Held.after r ⟨(r.get s id).2, root⟩ moves
        (r.save w.server w.root).1 = .ok () ∨ ∃ e, r.encodePending w.root = .error e ∧
          (r.save w.server w.root).1 = .error (.serialization e) := by
  intro s
  have hc : s.log.Coherent := Server.coherent_after now requests
  refine ⟨r.agrees hc hx, fun root hget moves => ?_⟩
  obtain ⟨hid, hd, hversion⟩ := r.version_of_get hc hx hget
  have hlog := r.get_log s id
  have hstart : Held.Current r id ⟨(r.get s id).2, root⟩ := by
    refine ⟨?_, hid, ?_, ?_⟩ <;> simp only [hlog]
    · exact hc
    · exact hd
    · exact hversion
  exact ((hstart.after hx moves).save hx).2

/-- A counter with a record that does not decode, and an append of nothing. -/
def damagedCounter : List Request :=
  [.call (.append "counter-1" .any [⟨"Tick", [7], []⟩, ⟨"Tick", [], []⟩]),
    .call (.append "counter-1" .any [])]

/-- The counter is counted up and saved, and another one is written in between. -/
def countUp : List (Held.Move Counter Tick "counter-1") :=
  [.raise ⟨1⟩, .save,
    .serve (.call (.append "counter-2" .any [⟨"Tick", [2], []⟩])) (by simp [Request.Writes]),
    .raise ⟨3⟩]

theorem loads_what_exists_damagedCounter :
    let r : Repository Counter Tick := .new
    let s := (Server.start 0).after damagedCounter
    let root : Root Counter Tick := .loaded "1" 2 ⟨7⟩
    let w : Held Counter Tick := Held.after r ⟨(r.get s "1").2, root⟩ countUp
    IsPlainName (r.streamOf "1") ∧ (r.get s "1").1 = .ok root ∧ r.Agrees s "1" ∧
      w.root = ⟨"1", 3, ⟨11⟩, [⟨3⟩]⟩ ∧ (r.save w.server w.root).1 = .ok () := by
  intro r s root w
  have hx : IsPlainName (r.streamOf "1") := by decide
  have hget : (r.get s "1").1 = .ok root := by decide +kernel
  obtain ⟨hagrees, h⟩ := loads_what_exists 0 damagedCounter r "1" hx
  have hsave := h root hget countUp
  refine ⟨hx, hget, hagrees, by decide +kernel, hsave.resolve_right ?_⟩
  rintro ⟨e, he, -⟩
  have hencodes : ∀ event ∈ w.root.pending, r.Encodes event := fun _ _ => ⟨_, rfl⟩
  obtain ⟨events, hevents⟩ := exists_encodePending hencodes
  cases hevents.symm.trans he

end Repository

end EventSourcing
