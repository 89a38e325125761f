import EventSourcing.Proofs.Repository.Calls

/-!
# No lost updates

Any number of clients hold roots of one aggregate, copy them, raise events on them and save them,
while others write to the stream or delete it. A save that goes through is one that was decided on
all that the stream held (`Desk.no_lost_update`).
-/

namespace EventSourcing

variable {A E : Type} [DomainEvent E] [Aggregate A E]

/-! ## Roots in hand -/

/-- A root that somebody holds, with the records that its stream had when the root was created,
loaded or saved last. -/
structure Draft (A E : Type) where
  root : Root A E
  base : List StoredRecord

/-- The roots of one aggregate that are in hand. -/
structure Desk (A E : Type) where
  server : Server
  drafts : List (Draft A E) := []

/-- What happens next; roots are named by their places. -/
inductive Desk.Move (A E : Type) : Type 1
  | create
  | load
  | copy (i : Nat)
  | raise (i : Nat) (event : E)
  | execute (i : Nat) {ε : Type} (decide : A → Except ε (List E))
  | save (i : Nat)
  /-- The aggregate is removed through a repository of this mode. -/
  | remove (mode : Removal)
  /-- Anybody asks the server for something. -/
  | serve (request : Request)

namespace Desk

def create (w : Desk A E) (id : String) : Desk A E :=
  { w with drafts := w.drafts ++ [⟨.new id, []⟩] }

def load (w : Desk A E) (r : Repository A E) (id : String) : Desk A E :=
  match r.get w.server id with
  | (.ok root, server) =>
    ⟨server, w.drafts ++ [⟨root, server.log.recordsOf (r.streamOf id)⟩]⟩
  | (.error _, server) => { w with server := server }

/-- Changes a root in hand. -/
def change (w : Desk A E) (i : Nat) (f : Root A E → Root A E) : Desk A E :=
  { w with drafts := w.drafts.modify i fun d => { d with root := f d.root } }

def save (w : Desk A E) (r : Repository A E) (i : Nat) : Desk A E :=
  match w.drafts[i]? with
  | none => w
  | some d =>
    let (result, root, server) := r.save w.server d.root
    let base := match result, d.root.pending with
      | .ok _, _ :: _ => server.log.recordsOf (r.streamOf d.root.id)
      | _, _ => d.base
    ⟨server, w.drafts.set i ⟨root, base⟩⟩

def act (r : Repository A E) (id : String) (w : Desk A E) : Move A E → Desk A E
  | .create => w.create id
  | .load => w.load r id
  | .copy i => { w with drafts := w.drafts ++ w.drafts[i]?.toList }
  | .raise i event => w.change i fun root => root.raise event
  | .execute i decide => w.change i fun root => (root.execute decide).toOption.getD root
  | .save i => w.save r i
  | .remove mode => { w with server := ((r.inMode mode).remove w.server id).2 }
  | .serve request => { w with server := (w.server.serve request).2 }

def after (r : Repository A E) (id : String) (w : Desk A E) (moves : List (Move A E)) : Desk A E :=
  moves.foldl (act r id) w

end Desk

/-! ## Sound roots -/

/-- The base of the root is how its stream begins, and its state is the fold of the base and of what
is pending. -/
structure Draft.Sound (r : Repository A E) (id : String) (log : Log) (d : Draft A E) : Prop where
  id_eq : d.root.id = id
  length_base : d.base.length = d.root.version
  state_eq : d.root.state = applyAll (replay (Repository.decodeAll d.base)) d.root.pending
  base_prefix : d.base <+: log.recordsOf (r.streamOf id)

namespace Draft.Sound

variable {r : Repository A E} {id : String} {log log' : Log} {d : Draft A E}

theorem new (r : Repository A E) (id : String) (log : Log) :
    Draft.Sound r id log (⟨.new id, []⟩ : Draft A E) where
  id_eq := rfl
  length_base := rfl
  state_eq := by
    rw [show Repository.decodeAll (E := E) [] = [] from rfl, replay_eq List.Pairwise.nil]
    rfl
  base_prefix := List.nil_prefix

/-- What happens to the log does not hurt a root in hand. -/
theorem before (h : d.Sound r id log) (hl : log.Before log') : d.Sound r id log' :=
  { h with base_prefix := h.base_prefix.trans (hl.recordsOf _) }

theorem raise (h : d.Sound r id log) (event : E) :
    Draft.Sound r id log { d with root := d.root.raise event } where
  id_eq := h.id_eq
  length_base := h.length_base
  state_eq := by
    simp only [Root.raise, applyAll_append, h.state_eq]
    rfl
  base_prefix := h.base_prefix

theorem raiseAll (h : d.Sound r id log) (events : List E) :
    Draft.Sound r id log { d with root := d.root.raiseAll events } := by
  induction events generalizing d with
  | nil => exact h
  | cons event events ih => exact ih (h.raise event)

/-- A decision raises its events or changes nothing. -/
theorem execute {ε : Type} (h : d.Sound r id log) (decide : A → Except ε (List E)) :
    Draft.Sound r id log { d with root := (d.root.execute decide).toOption.getD d.root } := by
  unfold Root.execute
  cases decide d.root.state with
  | ok events => exact h.raiseAll events
  | error e => exact h

theorem load (hc : log.Coherent) (hx : IsPlainName (r.streamOf id)) {s : Server} (hs : s.log = log)
    {root : Root A E} (h : (r.get s id).1 = .ok root) :
    Draft.Sound r id log ⟨root, log.recordsOf (r.streamOf id)⟩ := by
  subst hs
  rw [r.get_eq_ok hc hx h]
  exact ⟨rfl, rfl, rfl, List.prefix_refl _⟩

end Draft.Sound

/-! ## Saving -/

/-- What a save that goes through has done: `news` were put behind the records that the root is the
fold of, and the root is what loading gives now. -/
structure Draft.Saved (r : Repository A E) (id : String) (s s' : Server) (d : Draft A E)
    (root' : Root A E) (news : List StoredRecord) : Prop where
  before : s.log.read (r.streamOf id) 0 = .ok d.base
  length_base : d.base.length = d.root.version
  decided : d.root.state = applyAll (replay (Repository.decodeAll d.base)) d.root.pending
  encoded : r.encodePending d.root = .ok (news.map Record.encoded)
  decoded : (Repository.decodeAll (E := E) news).map (·.data) = d.root.pending
  after : s'.log.read (r.streamOf id) 0 = .ok (d.base ++ news)
  length_after : (d.base ++ news).length = root'.version
  version : (s'.version? (r.streamOf id)).1 = .ok (some root'.version)
  loaded : (r.get s' id).1 = .ok root'

namespace Log.Coherent

variable {log : Log} {x : String}

theorem version?_eq (hc : log.Coherent) (hx : IsPlainName x) (hd : x ∉ log.deleted)
    (hne : log.recordsOf x ≠ []) : log.version? x = .ok (some (log.recordsOf x).length) := by
  have hpos : log.size (.stream x) ≠ 0 := by
    rw [← length_recordsOf]
    exact fun h => hne (List.length_eq_zero_iff.1 h)
  rw [version?, if_neg hd, hc.versions_eq x hx.not_tombstone hd, if_neg hpos, length_recordsOf]

/-- Decoded records stand in the order of their positions. -/
theorem decodeAll_ordered (hc : log.Coherent) (hx : IsPlainName x) :
    ((Repository.decodeAll (E := E) (log.recordsOf x)).map (·.position)).Pairwise (· ≤ ·) := by
  refine List.Pairwise.sublist (Repository.position_decodeAll _) ?_
  rw [hc.position_recordsOf hx]
  exact List.pairwise_lt_range.imp Nat.le_of_lt

end Log.Coherent

namespace Draft.Sound

variable {r : Repository A E} {id : String} {s s' : Server} {d : Draft A E} {root' : Root A E}

/-- A root that goes through a save knew all of its stream. -/
theorem saved (hE : RoundTrips E) (hc : s.log.Coherent) (hx : IsPlainName (r.streamOf id))
    (h : d.Sound r id s.log) (hp : d.root.pending ≠ [])
    (hok : r.save s d.root = (.ok (), root', s')) : ∃ news, d.Saved r id s s' root' news := by
  obtain ⟨events, version, hne, hev, happ, rfl⟩ := r.save_eq_ok hp hok
  rw [h.id_eq] at happ
  obtain ⟨hd, hm, hv, -⟩ := Log.append_eq_ok happ
  have hc' := hc.append happ
  have hd' : r.streamOf id ∉ s'.log.deleted := by rwa [Log.append_deleted happ]
  -- The version of the root is that of the stream, so the base is all of it.
  rw [Expectation.matches_ofVersion, hc.version_eq hx.not_tombstone hd, ← Log.length_recordsOf]
    at hm
  have hbase : d.base = s.log.recordsOf (r.streamOf id) :=
    h.base_prefix.eq_of_length (h.length_base.trans hm.symm)
  obtain ⟨news, hnews, rfl⟩ := Log.exists_recordsOf_append happ
  have hlen : (s'.log.recordsOf (r.streamOf id)).length = version := by
    rw [hnews, hv, hc.version_eq hx.not_tombstone hd, ← Log.length_recordsOf, List.length_append,
      List.length_map]
  have hnil : s'.log.recordsOf (r.streamOf id) ≠ [] := by
    rw [hnews]
    exact fun h => hne (by rw [(List.append_eq_nil_iff.1 h).2]; rfl)
  have hdata := Repository.data_decodeAll hE (Repository.encodePending_eq_ok hev)
  have hstate : (replay (Repository.decodeAll (s'.log.recordsOf (r.streamOf id))) : A) =
      d.root.state := by
    rw [h.state_eq, hbase, replay_eq (hc'.decodeAll_ordered hx), replay_eq (hc.decodeAll_ordered hx),
      hnews, Repository.decodeAll_append, List.map_append, applyAll_append, hdata]
  refine ⟨news, ?_, h.length_base, h.state_eq, hev, hdata, ?_, ?_, ?_, ?_⟩
  · rw [hbase, hc.read_zero hx hd]
  · rw [hbase, ← hnews, hc'.read_zero hx hd']
  · rw [hbase, ← hnews]
    exact hlen
  · exact (hc'.version?_eq hx hd' hnil).trans (by rw [hlen]; rfl)
  · rw [r.get_fst hc' hx hd', if_neg hnil, hstate, hlen, ← h.id_eq]
    rfl

end Draft.Sound

/-- After the save, the root is sound again. -/
theorem Draft.Saved.sound {r : Repository A E} {id : String} {s s' : Server} {d : Draft A E}
    {root' : Root A E} {news : List StoredRecord} (h : d.Saved r id s s' root' news)
    (hc : s'.log.Coherent) (hx : IsPlainName (r.streamOf id)) :
    Draft.Sound r id s'.log ⟨root', s'.log.recordsOf (r.streamOf id)⟩ :=
  .load hc hx rfl h.loaded

/-! ## Runs -/

/-- All roots in hand are sound. -/
structure Desk.Sound (r : Repository A E) (id : String) (w : Desk A E) : Prop where
  coherent : w.server.log.Coherent
  drafts : ∀ d ∈ w.drafts, d.Sound r id w.server.log

namespace Desk

variable {r : Repository A E} {id : String} {w : Desk A E}

namespace Sound

/-- The server goes on. -/
theorem before (h : w.Sound r id) {server : Server} (hl : w.server.log.Before server.log) :
    Desk.Sound r id { w with server := server } where
  coherent := h.coherent.before hl
  drafts d hd := (h.drafts d hd).before hl

/-- One more root is in hand. -/
theorem append (h : w.Sound r id) {ds : List (Draft A E)}
    (hds : ∀ d ∈ ds, d.Sound r id w.server.log) :
    Desk.Sound r id { w with drafts := w.drafts ++ ds } where
  coherent := h.coherent
  drafts d hd := (List.mem_append.1 hd).elim (h.drafts d) (hds d)

theorem load (h : w.Sound r id) (hx : IsPlainName (r.streamOf id)) : (w.load r id).Sound r id := by
  have hl := r.get_log w.server id
  unfold Desk.load
  split <;> rename_i hg <;> rw [hg] at hl <;> simp only at hl
  · rename_i root server
    have hb : Desk.Sound r id { w with server := server } := h.before (by rw [hl])
    refine hb.append fun d hd => ?_
    obtain rfl := List.mem_singleton.1 hd
    have hload := Draft.Sound.load h.coherent hx rfl (congrArg Prod.fst hg)
    simp only [hl]
    exact hload
  · exact h.before (by rw [hl])

/-- What keeps every root sound can be done to any of them. -/
theorem change (h : w.Sound r id) (i : Nat) {f : Root A E → Root A E}
    (hf : ∀ d : Draft A E, d.Sound r id w.server.log →
      Draft.Sound r id w.server.log { d with root := f d.root }) : (w.change i f).Sound r id where
  coherent := h.coherent
  drafts d hd := by
    obtain ⟨j, hj, rfl⟩ := List.getElem_of_mem hd
    simp only [Desk.change, List.getElem_modify]
    simp only [Desk.change, List.length_modify] at hj
    split
    · exact hf _ (h.drafts _ (List.getElem_mem hj))
    · exact h.drafts _ (List.getElem_mem hj)

theorem save (h : w.Sound r id) (hE : RoundTrips E) (hx : IsPlainName (r.streamOf id)) (i : Nat) :
    (w.save r i).Sound r id := by
  unfold Desk.save
  split
  · exact h
  · rename_i d hi
    have hd := h.drafts d (List.mem_of_getElem? hi)
    have hl := r.save_before w.server d.root
    have hb := h.before hl
    refine ⟨hb.coherent, fun d' hd' => ?_⟩
    rcases List.mem_or_eq_of_mem_set hd' with hd' | rfl
    · exact hb.drafts d' hd'
    · cases hs : r.save w.server d.root with
      | mk result rest =>
          obtain ⟨root, server⟩ := rest
          rw [hs] at hl
          cases result with
          | error e =>
              rw [r.save_eq_error hs]
              exact hd.before hl
          | ok _ =>
              cases hp : d.root.pending with
              | nil =>
                  obtain ⟨rfl, rfl⟩ := r.save_of_nil hp hs
                  exact hd
              | cons event pending =>
                  have hne : d.root.pending ≠ [] := by
                    rw [hp]
                    exact List.cons_ne_nil _ _
                  obtain ⟨news, hsaved⟩ := hd.saved hE h.coherent hx hne hs
                  simp only [hd.id_eq]
                  exact hsaved.sound (h.coherent.before hl) hx

theorem act (h : w.Sound r id) (hE : RoundTrips E) (hx : IsPlainName (r.streamOf id))
    (move : Move A E) : (w.act r id move).Sound r id := by
  cases move with
  | create =>
      refine h.append fun d hd => ?_
      obtain rfl := List.mem_singleton.1 hd
      exact .new r id _
  | load => exact h.load hx
  | copy i =>
      refine h.append fun d hd => ?_
      exact h.drafts d (List.mem_of_getElem? (Option.mem_toList.1 hd))
  | raise i event => exact h.change (f := fun root => root.raise event) i fun d hd => hd.raise event
  | execute i decide =>
      exact h.change (f := fun root => (root.execute decide).toOption.getD root) i
        fun d hd => hd.execute decide
  | save i => exact h.save hE hx i
  | remove mode => exact h.before ((r.inMode mode).remove_before w.server id)
  | serve request => exact h.before (w.server.serve_before request)

theorem after (h : w.Sound r id) (hE : RoundTrips E) (hx : IsPlainName (r.streamOf id))
    (moves : List (Move A E)) : (w.after r id moves).Sound r id := by
  induction moves generalizing w with
  | nil => exact h
  | cons move moves ih => exact ih (h.act hE hx move)

end Sound

omit [DomainEvent E] [Aggregate A E] in
/-- The streams of a category that is a plain name have plain names. -/
theorem isPlainName_streamOf (hcategory : IsPlainName r.category) (id : String) :
    IsPlainName (r.streamOf id) := by
  refine Bool.eq_false_iff.2 fun h => ?_
  obtain ⟨rest, hrest⟩ := Text.hasPrefix_iff.1 h
  have hl := congrArg String.toList hrest
  simp only [Repository.streamOf, String.toList_append] at hl
  cases hc : r.category.toList with
  | nil =>
      rw [hc] at hl
      exact absurd (List.cons.inj hl).1 (by decide)
  | cons c cs =>
      rw [hc] at hl
      have hd : c = '$' := (List.cons.inj hl).1
      have hcat : r.category = "$" ++ String.ofList cs := by
        refine String.toList_inj.1 ?_
        simp [hc, hd]
      rw [hcat] at hcategory
      exact not_isPlainName_append _ hcategory

/-- Whatever was done to roots and to the server before, a save that goes through saves the events
of a root that is the fold of all that the stream held, puts just these events behind it, and leaves
the root as loading gives it. -/
theorem no_lost_update (hE : RoundTrips E) (now : Nat) (r : Repository A E)
    (hcategory : IsPlainName r.category) (id : String) (moves : List (Move A E)) (i : Nat)
    (d : Draft A E) (root' : Root A E) (s' : Server) :
    let w : Desk A E := after r id ⟨.start now, []⟩ moves
    w.drafts[i]? = some d → d.root.pending ≠ [] → r.save w.server d.root = (.ok (), root', s') →
    ∃ news, d.Saved r id w.server s' root' news := by
  intro w hi hp hok
  have hx := isPlainName_streamOf hcategory id
  have hstart : Desk.Sound r id ⟨.start now, []⟩ := ⟨Log.coherent_empty, fun d hd => by cases hd⟩
  have h : w.Sound r id := hstart.after hE hx moves
  exact (h.drafts d (List.mem_of_getElem? hi)).saved hE h.coherent hx hp hok

end Desk

/-! ## A counter -/

/-- An event of a domain whose payloads are single bytes. -/
structure Tick where
  amount : UInt8
  deriving DecidableEq, Repr

instance : DomainEvent Tick where
  eventType _ := "Tick"
  encode t := .ok [t.amount]
  decode eventType data :=
    match data with
    | [amount] => .event ⟨amount⟩
    | _ => .error (.malformed eventType)

structure Counter where
  total : Nat
  deriving DecidableEq, Repr

instance : Aggregate Counter Tick where
  kind := "counter"
  zero := ⟨0⟩
  apply c t := ⟨c.total + t.amount.toNat⟩

theorem Tick.roundTrips : RoundTrips Tick := by
  have htype : "Tick" ≠ "" := by decide
  refine roundTrips_of_codec fun t data h => ?_
  rw [← Except.ok.inj h]
  exact ⟨htype, List.cons_ne_nil _ _, rfl⟩

namespace Desk

/-- Two copies of a counter go on by themselves. One of them is saved, so that the other one cannot
be, and goes on. -/
def counterRun : List (Move Counter Tick) :=
  [.create, .raise 0 ⟨1⟩, .save 0, .load, .copy 1, .raise 1 ⟨2⟩, .raise 2 ⟨3⟩, .save 1, .save 2,
    .raise 1 ⟨4⟩]

theorem no_lost_update_counterRun :
    let r : Repository Counter Tick := .new
    let w : Desk Counter Tick := after r "a" ⟨.start 0, []⟩ counterRun
    RoundTrips Tick ∧ IsPlainName r.category ∧ ∃ d root' s' news, w.drafts[1]? = some d ∧
      d.root.pending = [⟨4⟩] ∧ d.root.version = 2 ∧
      r.save w.server d.root = (.ok (), root', s') ∧ d.Saved r "a" w.server s' root' news := by
  intro r w
  have hcategory : IsPlainName r.category := by decide
  have hd : w.drafts[1]?.map (fun d => (d.root.pending, d.root.version)) = some ([⟨4⟩], 2) := by
    decide +kernel
  have hok : w.drafts[1]?.map (fun d => (r.save w.server d.root).1) = some (.ok ()) := by
    decide +kernel
  cases hi : w.drafts[1]? with
  | none =>
      rw [hi] at hd
      cases hd
  | some d =>
      rw [hi] at hd hok
      obtain ⟨hp, hv⟩ := Prod.mk.inj (Option.some.inj hd)
      have hne : d.root.pending ≠ [] := by
        rw [hp]
        exact List.cons_ne_nil _ _
      have hsave : r.save w.server d.root =
          (.ok (), (r.save w.server d.root).2.1, (r.save w.server d.root).2.2) :=
        Prod.ext (Option.some.inj hok) rfl
      obtain ⟨news, hsaved⟩ := no_lost_update Tick.roundTrips 0 r hcategory "a" counterRun 1 d _ _
        hi hne hsave
      exact ⟨Tick.roundTrips, hcategory, d, _, _, news, rfl, hp, hv, hsave, hsaved⟩

end Desk

end EventSourcing
