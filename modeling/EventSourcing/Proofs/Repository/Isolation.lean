import EventSourcing.Proofs.Log.Projection
import EventSourcing.Proofs.Repository.Drafts

/-!
# Repositories that leave each other alone

What a repository does to an aggregate touches the stream of that aggregate and the mark that its
deletion leaves, and no other stream. But repositories of different categories can mean the same
stream, since its name does not tell where the category ends (`Overlap`). As long as they do not,
neither sees what the other one does (`Repository.isolated`).
-/

namespace EventSourcing

/-! ## What is done to other streams -/

/-- Two logs hold the same of a stream. -/
structure Log.AgreesOn (stream : String) (log log' : Log) : Prop where
  deleted : stream ∈ log'.deleted ↔ stream ∈ log.deleted
  version : log'.versions.get? stream = log.versions.get? stream
  entries : (log'.entries.filter fun e => e.record.stream = stream) =
    log.entries.filter fun e => e.record.stream = stream

namespace Log.AgreesOn

variable {log log' log'' : Log} {x : String}

theorem refl (x : String) (log : Log) : log.AgreesOn x log := ⟨Iff.rfl, rfl, rfl⟩

theorem trans (h : AgreesOn x log log') (h' : AgreesOn x log' log'') : AgreesOn x log log'' :=
  ⟨h'.deleted.trans h.deleted, h'.version.trans h.version, h'.entries.trans h.entries⟩

theorem append {stream : String} {expected : Expectation} {events : List EncodedEvent} {time : Int}
    {version : Nat} (hne : x ≠ stream)
    (h : log.append stream expected events time = .ok (version, log')) : AgreesOn x log log' := by
  have hdeleted := append_deleted h
  obtain ⟨-, -, -, rfl⟩ := append_eq_ok h
  refine ⟨by rw [hdeleted], ?_, ?_⟩
  · by_cases he : events = []
    · simp [he]
    · simp [he, Table.get?_insert, hne]
  · simp only [pushAll_entries, List.filter_append, filter_newEntries, if_neg hne, List.append_nil]

theorem tombstone {stream : String} {time : Int} (hx : IsPlainName x) (hne : x ≠ stream)
    (h : log.tombstone stream time = .ok log') : AgreesOn x log log' := by
  have hdeleted := tombstone_deleted h
  have hmark : tombstoneMark ++ stream ≠ x := (tombstoneMark_append_ne hx stream).symm
  obtain ⟨-, hl⟩ := tombstone_eq_ok h
  refine ⟨by simp [hdeleted, hne], ?_, ?_⟩
  · rw [hl, push_versions, cleared, Table.get?_erase, if_neg hne]
  · rw [hl, push_entries, List.filter_append, log.filter_cleared hne]
    simp [nextEntry, hmark]

/-- What is told of the stream is the same. -/
theorem version?_eq (h : AgreesOn x log log') : log'.version? x = log.version? x := by
  simp only [version?, h.deleted, h.version]

theorem read_eq (h : AgreesOn x log log') (hx : IsPlainName x) (start : Nat) :
    log'.read x start = log.read x start := by
  simp only [read, h.deleted, hx.scope, map_record_entriesFrom, h.entries]

end Log.AgreesOn

/-! ## Calls on other streams -/

namespace Store

variable {x : String} (s : Server) {stream : String} (hne : x ≠ stream)

include hne

theorem agreesOn_append (events : List EncodedEvent) (expected : Nat) :
    s.log.AgreesOn x (append s stream events expected).2.log := by
  by_cases he : events = []
  · unfold append
    rw [if_pos he]
    exact .refl ..
  · rcases append_eq s stream events expected he with ⟨version, log', ha, -, hl⟩ | ⟨-, hl⟩
    · rw [hl]
      exact .append hne ha
    · rw [hl]
      exact .refl ..

theorem agreesOn_delete (hx : IsPlainName x) : s.log.AgreesOn x (delete s stream).2.log := by
  simp only [delete, answer, LogClient.tombstone, Server.tombstone, Server.time_calls]
  cases h : s.log.tombstone stream s.time with
  | ok log' => exact .tombstone hx hne h
  | error e => exact .refl ..

omit hne in
theorem version_congr {s s' : Server} (h : s'.log.version? x = s.log.version? x) :
    (version s' x).1 = (version s x).1 := by
  simp only [version, answer, LogClient.version?, Server.version?, h]

end Store

/-! ## What a repository does -/

/-- What is done through a repository. -/
inductive Repository.Command (A E : Type)
  /-- An aggregate is added or updated. -/
  | save (root : Root A E)
  | remove (mode : Removal) (id : String)

namespace Repository

variable {A E : Type}

/-- The aggregate that it is done to. -/
def Command.id : Command A E → String
  | .save root => root.id
  | .remove _ id => id

variable [DomainEvent E] [Aggregate A E]

def perform (r : Repository A E) (s : Server) : Command A E → Server
  | .save root => (r.save s root).2.2
  | .remove mode id => ((r.inMode mode).remove s id).2

def performAll (r : Repository A E) (s : Server) (commands : List (Command A E)) : Server :=
  commands.foldl r.perform s

section Frame

variable (r : Repository A E) (s : Server) {x : String}

omit [Aggregate A E] in
theorem agreesOn_save {root : Root A E} (hne : x ≠ r.streamOf root.id) :
    s.log.AgreesOn x (r.save s root).2.2.log := by
  rcases r.save_server s root with h | ⟨events, h⟩ <;> rw [h]
  · exact .refl ..
  · exact Store.agreesOn_append s hne events root.version

theorem agreesOn_remove (hx : IsPlainName x) {id : String} (hne : x ≠ r.streamOf id) :
    s.log.AgreesOn x (r.remove s id).2.log := by
  have hlog := r.get_log s id
  rcases r.remove_server s id with h | h | ⟨root, rfl, h⟩ | h <;> rw [h]
  · exact .refl ..
  · rw [hlog]
    exact .refl ..
  · rw [← hlog]
    exact r.agreesOn_save _ hne
  · exact Store.agreesOn_delete s hne hx

theorem agreesOn_perform (hx : IsPlainName x) {c : Command A E} (hne : x ≠ r.streamOf c.id) :
    s.log.AgreesOn x (r.perform s c).log := by
  cases c with
  | save root => exact r.agreesOn_save s hne
  | remove mode id => exact (r.inMode mode).agreesOn_remove s hx hne

theorem agreesOn_performAll (hx : IsPlainName x) {commands : List (Command A E)}
    (hne : ∀ c ∈ commands, x ≠ r.streamOf c.id) :
    s.log.AgreesOn x (r.performAll s commands).log := by
  induction commands generalizing s with
  | nil => exact .refl ..
  | cons c commands ih =>
      exact (r.agreesOn_perform s hx (hne c List.mem_cons_self)).trans
        (ih (r.perform s c) fun c hc => hne c (List.mem_cons_of_mem _ hc))

end Frame

/-! ## What a repository sees -/

section Views

variable (r : Repository A E) {s s' : Server} {id : String}

theorem get_congr (h : s'.log.read (r.streamOf id) 0 = s.log.read (r.streamOf id) 0) :
    (r.get s' id).1 = (r.get s id).1 := by
  have hread : (Store.read s' (r.streamOf id) 0).1 = (Store.read s (r.streamOf id) 0).1 := by
    simp only [Store.read, Store.answer, LogClient.read, Server.read, h]
  unfold get
  generalize Store.read s' (r.streamOf id) 0 = answer' at hread ⊢
  generalize Store.read s (r.streamOf id) 0 = answer at hread ⊢
  obtain ⟨result', client'⟩ := answer'
  obtain ⟨result, client⟩ := answer
  obtain rfl : result' = result := hread
  cases result' with
  | error e => cases e <;> rfl
  | ok records =>
      simp only
      cases versionOf? records <;> rfl

omit [DomainEvent E] [Aggregate A E] in
theorem exists?_congr (h : s'.log.version? (r.streamOf id) = s.log.version? (r.streamOf id)) :
    (r.exists? s' id).1 = (r.exists? s id).1 := by
  have hversion := Store.version_congr h
  unfold exists?
  generalize Store.version s' (r.streamOf id) = answer' at hversion ⊢
  generalize Store.version s (r.streamOf id) = answer at hversion ⊢
  obtain ⟨result', client'⟩ := answer'
  obtain ⟨result, client⟩ := answer
  obtain rfl : result' = result := hversion
  cases result' with
  | error e => cases e <;> rfl
  | ok version => rfl

end Views

end Repository

/-! ## Streams of two categories -/

/-- Two aggregates of different categories have the same stream: the longer category is the shorter
one with a part of the id that goes with it. -/
def Overlap (category₁ id₁ category₂ id₂ : String) : Prop :=
  (∃ part, category₂ = category₁ ++ "-" ++ part ∧ id₁ = part ++ "-" ++ id₂) ∨
  ∃ part, category₁ = category₂ ++ "-" ++ part ∧ id₂ = part ++ "-" ++ id₁

/-- Where two texts are cut at a dash in different places, one of them has the part between. -/
theorem exists_part_of_append_eq {front front' back back' : List Char} (hne : front ≠ front')
    (h : front ++ '-' :: back = front' ++ '-' :: back') :
    (∃ part, front' = front ++ '-' :: part ∧ back = part ++ '-' :: back') ∨
    ∃ part, front = front' ++ '-' :: part ∧ back' = part ++ '-' :: back := by
  rcases List.append_eq_append_iff.1 h with ⟨part, hfront, hback⟩ | ⟨part, hfront, hback⟩
  · cases part with
    | nil => exact absurd (by simpa using hfront.symm) hne
    | cons c part =>
        obtain ⟨rfl, rfl⟩ := List.cons.inj hback
        exact .inl ⟨part, hfront, rfl⟩
  · cases part with
    | nil => exact absurd (by simpa using hfront) hne
    | cons c part =>
        obtain ⟨rfl, rfl⟩ := List.cons.inj hback
        exact .inr ⟨part, hfront, rfl⟩

namespace Repository

section Isolation

variable {A₁ E₁ A₂ E₂ : Type} {r₁ : Repository A₁ E₁} {r₂ : Repository A₂ E₂}

theorem streamOf_eq_iff (hne : r₁.category ≠ r₂.category) (id₁ id₂ : String) :
    r₁.streamOf id₁ = r₂.streamOf id₂ ↔ Overlap r₁.category id₁ r₂.category id₂ := by
  constructor
  · intro h
    have hl : r₁.category.toList ++ '-' :: id₁.toList = r₂.category.toList ++ '-' :: id₂.toList := by
      simpa [streamOf] using congrArg String.toList h
    have hne' : r₁.category.toList ≠ r₂.category.toList := fun h => hne (String.toList_inj.1 h)
    refine (exists_part_of_append_eq hne' hl).imp ?_ ?_
    · rintro ⟨part, hcategory, hid⟩
      refine ⟨String.ofList part, String.toList_inj.1 ?_, String.toList_inj.1 ?_⟩
      · simp [hcategory]
      · simp [hid]
    · rintro ⟨part, hcategory, hid⟩
      refine ⟨String.ofList part, String.toList_inj.1 ?_, String.toList_inj.1 ?_⟩
      · simp [hcategory]
      · simp [hid]
  · rintro (⟨part, hcategory, hid⟩ | ⟨part, hcategory, hid⟩)
    · simp only [streamOf, hcategory, hid, String.append_assoc]
    · simp only [streamOf, hcategory, hid, String.append_assoc]

/-- Categories without a dash have no stream in common. -/
theorem not_overlap_of_dashless {category₁ category₂ : String} (h₁ : '-' ∉ category₁.toList)
    (h₂ : '-' ∉ category₂.toList) (id₁ id₂ : String) : ¬ Overlap category₁ id₁ category₂ id₂ := by
  rintro (⟨part, hcategory, -⟩ | ⟨part, hcategory, -⟩)
  · rw [hcategory] at h₂
    simp at h₂
  · rw [hcategory] at h₁
    simp at h₁

variable [DomainEvent E₁] [Aggregate A₁ E₁] [DomainEvent E₂] [Aggregate A₂ E₂]

/-- What is done through a repository to aggregates that do not overlap with an aggregate of another
repository changes nothing of what that one tells about it. Aggregates of two categories overlap
exactly if they have the same stream, and none do if the categories have no dash. -/
theorem isolated (r₁ : Repository A₁ E₁) (r₂ : Repository A₂ E₂)
    (hne : r₁.category ≠ r₂.category) (hplain : IsPlainName r₂.category) (s : Server)
    (commands : List (Command A₁ E₁)) :
    (∀ id₁ id₂, r₁.streamOf id₁ = r₂.streamOf id₂ ↔ Overlap r₁.category id₁ r₂.category id₂) ∧
    ('-' ∉ r₁.category.toList → '-' ∉ r₂.category.toList →
      ∀ id₁ id₂, ¬ Overlap r₁.category id₁ r₂.category id₂) ∧
    ∀ id, (∀ c ∈ commands, ¬ Overlap r₁.category c.id r₂.category id) →
      let s' := r₁.performAll s commands
      (r₂.get s' id).1 = (r₂.get s id).1 ∧ (r₂.exists? s' id).1 = (r₂.exists? s id).1 ∧
      (Store.version s' (r₂.streamOf id)).1 = (Store.version s (r₂.streamOf id)).1 := by
  refine ⟨streamOf_eq_iff hne, fun h₁ h₂ => not_overlap_of_dashless h₁ h₂, fun id h => ?_⟩
  intro s'
  -- A command of another stream leaves the one that is looked at as it is, marks included.
  have hx : IsPlainName (r₂.streamOf id) := Desk.isPlainName_streamOf hplain id
  have hagree : s.log.AgreesOn (r₂.streamOf id) s'.log :=
    r₁.agreesOn_performAll s hx fun c hc he => h c hc ((streamOf_eq_iff hne c.id id).1 he.symm)
  have hversion := hagree.version?_eq
  exact ⟨r₂.get_congr (hagree.read_eq hx 0), r₂.exists?_congr hversion,
    Store.version_congr hversion⟩

end Isolation

/-! ## Two repositories of counters -/

def orders : Repository Counter Tick := .ofSettings { category := some "order" }

def euOrders : Repository Counter Tick := .ofSettings { category := some "order-eu" }

/-- An order is saved and removed, and another one removed. -/
def orderCommands : List (Command Counter Tick) :=
  [.save ((Root.new "1").raise ⟨1⟩), .remove .soft "1", .remove .hard "1", .remove .hard "eu"]

theorem isolated_orders :
    let s := (euOrders.save (Server.start 0) ((Root.new "1").raise ⟨2⟩)).2.2
    let s' := orders.performAll s orderCommands
    orders.category ≠ euOrders.category ∧ IsPlainName euOrders.category ∧
    (∀ c ∈ orderCommands, ¬ Overlap orders.category c.id euOrders.category "1") ∧
    (euOrders.get s "1").1 = .ok (.loaded "1" 1 ⟨2⟩) ∧
    (euOrders.get s' "1").1 = (euOrders.get s "1").1 ∧
    (euOrders.exists? s' "1").1 = (euOrders.exists? s "1").1 ∧
    (Store.version s' (euOrders.streamOf "1")).1 = (Store.version s (euOrders.streamOf "1")).1 := by
  intro s s'
  have hne : orders.category ≠ euOrders.category := by decide
  have hplain : IsPlainName euOrders.category := by decide
  obtain ⟨hiff, -, h⟩ := isolated orders euOrders hne hplain s orderCommands
  have hcommands : ∀ c ∈ orderCommands, ¬ Overlap orders.category c.id euOrders.category "1" := by
    intro c hc
    rw [← hiff]
    revert c hc
    decide
  exact ⟨hne, hplain, hcommands, by decide +kernel, h "1" hcommands⟩

/-- Order `eu-1` of the one category is order `1` of the other. -/
theorem overlapping_orders :
    let s := Server.start 0
    let saved := orders.performAll s [.save ((Root.new "eu-1").raise ⟨1⟩)]
    let removed := orders.performAll saved [.remove .hard "eu-1"]
    orders.category ≠ euOrders.category ∧ IsPlainName orders.category ∧
    IsPlainName euOrders.category ∧
    (euOrders.get s "1").1 = .error (.notFound "order-eu-1") ∧
    (euOrders.get saved "1").1 = .ok (.loaded "1" 1 ⟨1⟩) ∧
    (euOrders.get removed "1").1 = .error (.notFound "order-eu-1") ∧
    [s, saved, removed].map (fun s => (euOrders.exists? s "1").1) = [.ok false, .ok true, .ok false] ∧
    [s, saved, removed].map (fun s => (Store.version s (euOrders.streamOf "1")).1) =
      [.ok 0, .ok 1, .error (.streamDeleted "order-eu-1")] := by
  intro s saved removed
  decide +kernel

end Repository

end EventSourcing
