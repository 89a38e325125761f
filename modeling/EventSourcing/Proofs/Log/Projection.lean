import EventSourcing.Proofs.Log.Records
import EventSourcing.Proofs.Log.Order

/-!
# Projections

The whole log and the categories are read under names of their own. As long as only streams with
plain names are written and deleted, what is read there are the records of the streams that they
cover, in the order in which they were written, with one mark in place of each deleted stream
(`Server.projections_exact`).
-/

namespace EventSourcing

/-! ## Categories of names -/

theorem beforeDash?_cons (c : Char) (cs : List Char) :
    beforeDash? (c :: cs) = if c = '-' then some [] else (beforeDash? cs).map (c :: ·) := by
  by_cases hc : c = '-'
  · simp [beforeDash?, hc]
  · by_cases hm : '-' ∈ cs
    · simp [beforeDash?, hc, hm]
    · simp [beforeDash?, hc, Ne.symm hc, hm]

theorem beforeDash?_eq_some_iff {cs front : List Char} :
    beforeDash? cs = some front ↔ '-' ∉ front ∧ ∃ rest, cs = front ++ '-' :: rest := by
  induction cs generalizing front with
  | nil => simp [beforeDash?]
  | cons c cs ih =>
      rw [beforeDash?_cons]
      cases front with
      | nil => by_cases hc : c = '-' <;> simp [hc]
      | cons d front =>
          by_cases hc : c = '-'
          · subst hc
            simp only [if_true, Option.some.injEq, reduceCtorEq, false_iff, not_and]
            rintro hd ⟨rest, hr⟩
            exact hd (List.mem_cons.2 (.inl (List.cons.inj hr).1))
          · rw [if_neg hc, Option.map_eq_some_iff]
            constructor
            · rintro ⟨front', h, he⟩
              obtain ⟨rfl, rfl⟩ := List.cons.inj he
              obtain ⟨hno, rest, rfl⟩ := ih.1 h
              exact ⟨by simp [Ne.symm hc, hno], rest, rfl⟩
            · rintro ⟨hno, rest, hr⟩
              obtain ⟨rfl, rfl⟩ := List.cons.inj hr
              rw [List.mem_cons, not_or] at hno
              exact ⟨front, ih.2 ⟨hno.2, rest, rfl⟩, rfl⟩

namespace IsPlainName

variable {x : String} (hx : IsPlainName x)

include hx

theorem streamCategory?_eq : streamCategory? x = (beforeDash? x.toList).map String.ofList := by
  have hno : Text.strip? "$$" x = none := by
    have h : (Text.strip? "$$" x).isSome = false := hx.not_tombstone
    simpa using h
  have hplain : ¬ Text.hasPrefix "$" x = true := by rw [hx]; decide
  rw [streamCategory?, hno, Option.getD_none, if_neg hplain]

/-- A deleted stream keeps its category. -/
theorem streamCategory?_mark : streamCategory? (tombstoneMark ++ x) = streamCategory? x := by
  have hmark : Text.strip? "$$" (tombstoneMark ++ x) = some x := Text.strip?_eq_some_iff.2 rfl
  have hplain : ¬ Text.hasPrefix "$" x = true := by rw [hx]; decide
  rw [hx.streamCategory?_eq, streamCategory?, hmark, Option.getD_some, if_neg hplain]

end IsPlainName

/-! ## What a projection covers -/

/-- What is read under a name that is not one of a stream. -/
inductive Projection
  | all
  | category (name : String)

namespace Projection

def name : Projection → String
  | .all => wholeLog
  | .category name => streamOfCategory name

def scope : Projection → Scope
  | .all => .all
  | .category name => .category name

/-- Whether the records of a stream belong to it: the name of the stream is that of the category up
to its first dash. -/
def Covers : Projection → String → Prop
  | .all, _ => True
  | .category name, stream => '-' ∉ name.toList ∧ ∃ rest, stream = name ++ "-" ++ rest

variable (π : Projection)

theorem ofName_name : Scope.ofName π.name = π.scope := by
  cases π with
  | all => rfl
  | category name =>
      have hne : streamOfCategory name ≠ wholeLog := by
        intro h
        have hl := congrArg String.toList h
        simp [streamOfCategory, categoryMark, wholeLog] at hl
      have hs : Text.strip? categoryMark (streamOfCategory name) = some name :=
        Text.strip?_eq_some_iff.2 rfl
      rw [Projection.name, Scope.ofName, if_neg hne, hs]
      rfl

theorem not_isPlainName_name : ¬ IsPlainName π.name := by
  cases π with
  | all => decide
  | category name =>
      have he : streamOfCategory name = "$" ++ ("ce-" ++ name) := by
        rw [← String.append_assoc]
        rfl
      rw [Projection.name, he]
      exact not_isPlainName_append _

theorem isSteady_scope : π.scope.IsSteady := by
  cases π <;> trivial

end Projection

theorem IsPlainName.streamCategory?_eq_some_iff {x name : String} (hx : IsPlainName x) :
    streamCategory? x = some name ↔ (Projection.category name).Covers x := by
  have hsplit (rest : List Char) : x = name ++ "-" ++ String.ofList rest ↔
      x.toList = name.toList ++ '-' :: rest := by
    rw [← String.toList_inj]
    simp
  rw [hx.streamCategory?_eq, Option.map_eq_some_iff]
  constructor
  · rintro ⟨front, h, rfl⟩
    obtain ⟨hno, rest, hr⟩ := beforeDash?_eq_some_iff.1 h
    refine ⟨by simpa using hno, String.ofList rest, (hsplit rest).2 ?_⟩
    simpa using hr
  · rintro ⟨hno, rest, hr⟩
    refine ⟨name.toList, beforeDash?_eq_some_iff.2 ⟨hno, rest.toList, (hsplit _).1 ?_⟩, by simp⟩
    simpa using hr

theorem Projection.exists_position? (π : Projection) {e : Entry} {x : String} (hx : IsPlainName x)
    (hc : e.category.map (·.1) = streamCategory? x) :
    (∃ p, π.scope.position? e = some p) ↔ π.Covers x := by
  cases π with
  | all => exact ⟨fun _ => trivial, fun _ => ⟨_, rfl⟩⟩
  | category name =>
      rw [← hx.streamCategory?_eq_some_iff, ← hc, Option.map_eq_some_iff]
      constructor
      · rintro ⟨p, hp⟩
        exact ⟨_, Scope.position?_category.1 hp, rfl⟩
      · rintro ⟨⟨own, p⟩, he, rfl⟩
        exact ⟨p, Scope.position?_category.2 he⟩

/-! ## Logs of plain streams -/

/-- Whether a call leaves alone the streams whose names the log gives a meaning to. -/
def StreamCall.WritesPlainly : StreamCall → Prop
  | .append stream _ _ | .tombstone stream => IsPlainName stream
  | .read _ _ | .version _ => True

def Request.WritesPlainly : Request → Prop
  | .call c => c.WritesPlainly
  | _ => True

instance : DecidablePred Request.WritesPlainly
  | .call (.append stream _ _) => inferInstanceAs (Decidable (IsPlainName stream))
  | .call (.tombstone stream) => inferInstanceAs (Decidable (IsPlainName stream))
  | .call (.read _ _) | .call (.version _) | .createGroup .. | .openReader .. | .pollReader _
  | .join .. | .pollMember _ | .ack .. | .nack .. | .disconnectAll | .turnAway _ | .elapse _ =>
    inferInstanceAs (Decidable True)

namespace Log

/-- The marks that the deletion of a stream has left. -/
def marks (log : Log) (stream : String) : List Entry :=
  log.entries.filter fun e => e.record.stream = tombstoneMark ++ stream

/-- The readable entries are records of streams that are not deleted and the marks of those that
are. -/
structure Tidy (log : Log) : Prop extends log.Coherent where
  deleted_plain : ∀ x ∈ log.deleted, IsPlainName x
  category_eq : ∀ e ∈ log.entries, e.category.map (·.1) = streamCategory? e.record.stream
  origin : ∀ e ∈ log.entries, ∃ x, IsPlainName x ∧
    (x ∉ log.deleted ∧ e.record.stream = x ∨
      x ∈ log.deleted ∧ e.record.stream = tombstoneMark ++ x)
  marked : ∀ x ∈ log.deleted, ∃ m, log.marks x = [m] ∧ m.record.eventType = streamDeletedType

theorem tidy_empty : Log.empty.Tidy :=
  { coherent_empty with
    deleted_plain := fun _ h => by cases h
    category_eq := fun _ h => by cases h
    origin := fun _ h => by cases h
    marked := fun _ h => by cases h }

theorem tombstoneMark_append_ne {x : String} (hx : IsPlainName x) (y : String) :
    x ≠ tombstoneMark ++ y := by
  intro h
  have hno := hx.not_tombstone
  rw [h, hasPrefix_tombstoneMark] at hno
  cases hno

theorem category_nextEntry (log : Log) (stream : String) (position : Nat) (time : Int)
    (event : EncodedEvent) :
    (log.nextEntry stream position time event).category.map (·.1) = streamCategory? stream := by
  simp only [nextEntry]
  cases streamCategory? stream <;> rfl

theorem category_of_mem_newEntries (log : Log) (stream : String) (position : Nat) (time : Int)
    (events : List EncodedEvent) {e : Entry}
    (h : e ∈ log.newEntries stream position time events) :
    e.category.map (·.1) = streamCategory? stream := by
  induction events generalizing log position with
  | nil => cases h
  | cons event events ih =>
      rcases List.mem_cons.1 h with rfl | h
      · exact category_nextEntry ..
      · exact ih _ _ h

section Steps

variable {log log' : Log} {stream : String} {expected : Expectation} {events : List EncodedEvent}
  {time : Int} {version : Nat}

/-- The entry that the deletion of a stream leaves. -/
def markEntry (log : Log) (stream : String) (time : Int) : Entry :=
  (log.cleared stream).nextEntry (tombstoneMark ++ stream) 0 time ⟨streamDeletedType, [], []⟩

theorem tombstone_entries (h : log.tombstone stream time = .ok log') : log'.entries =
    (log.entries.filter fun e => e.record.stream ≠ stream) ++ [log.markEntry stream time] := by
  obtain ⟨-, hl⟩ := tombstone_eq_ok h
  rw [hl]
  rfl

theorem marks_tombstone (hs : IsPlainName stream) (h : log.tombstone stream time = .ok log')
    (x : String) :
    log'.marks x = log.marks x ++ if x = stream then [log.markEntry stream time] else [] := by
  -- The marks from before stay: the deleted stream has a plain name.
  have hkept : ((log.entries.filter fun e => e.record.stream ≠ stream).filter
      fun e => e.record.stream = tombstoneMark ++ x) = log.marks x := by
    rw [List.filter_filter, marks]
    refine List.filter_congr fun e _ => ?_
    by_cases he : e.record.stream = tombstoneMark ++ x
    · simp [he, (tombstoneMark_append_ne hs x).symm]
    · simp [he]
  rw [marks, tombstone_entries h, List.filter_append, hkept]
  by_cases hx : x = stream
  · simp [hx, markEntry, nextEntry]
  · simp [hx, Ne.symm hx, markEntry, nextEntry]

theorem Tidy.marks_eq_nil (ht : log.Tidy) {x : String} (hx : x ∉ log.deleted) :
    log.marks x = [] := by
  refine List.filter_eq_nil_iff.2 fun e he hm => ?_
  have hm : e.record.stream = tombstoneMark ++ x := of_decide_eq_true hm
  obtain ⟨y, hy, ⟨-, rfl⟩ | ⟨hyd, hys⟩⟩ := ht.origin e he
  · exact tombstoneMark_append_ne hy x hm
  · rw [hm, String.append_right_inj] at hys
    exact hx (hys ▸ hyd)

variable (ht : log.Tidy) (hs : IsPlainName stream)

include ht hs

theorem Tidy.append (h : log.append stream expected events time = .ok (version, log')) :
    log'.Tidy := by
  obtain ⟨hd, -, -, hl⟩ := append_eq_ok h
  have hnew (e) (he : e ∈ log.newEntries stream ((log.versions.get? stream).getD 0) time events) :=
    stream_of_mem_newEntries _ _ _ _ _ he
  have hentries : log'.entries =
      log.entries ++ log.newEntries stream ((log.versions.get? stream).getD 0) time events := by
    rw [hl]
    exact pushAll_entries ..
  refine { ht.toCoherent.append h with
    deleted_plain := ?_, category_eq := ?_, origin := ?_, marked := ?_ }
  · rw [append_deleted h]
    exact ht.deleted_plain
  · intro e he
    rw [hentries, List.mem_append] at he
    rcases he with he | he
    · exact ht.category_eq e he
    · rw [hnew e he]
      exact category_of_mem_newEntries _ _ _ _ _ he
  · intro e he
    rw [append_deleted h]
    rw [hentries, List.mem_append] at he
    rcases he with he | he
    · exact ht.origin e he
    · exact ⟨stream, hs, .inl ⟨hd, hnew e he⟩⟩
  · intro x hx
    rw [append_deleted h] at hx
    have hne : tombstoneMark ++ x ≠ stream := (tombstoneMark_append_ne hs x).symm
    rw [marks, hentries, List.filter_append, filter_newEntries, if_neg hne, List.append_nil]
    exact ht.marked x hx

theorem Tidy.tombstone (h : log.tombstone stream time = .ok log') : log'.Tidy := by
  obtain ⟨hd, -⟩ := tombstone_eq_ok h
  have hdel := tombstone_deleted h
  have hentries := tombstone_entries h
  refine { ht.toCoherent.tombstone h with
    deleted_plain := ?_, category_eq := ?_, origin := ?_, marked := ?_ }
  · intro x hx
    rw [hdel, List.mem_cons] at hx
    rcases hx with rfl | hx
    · exact hs
    · exact ht.deleted_plain x hx
  · intro e he
    rw [hentries, List.mem_append, List.mem_singleton, List.mem_filter] at he
    rcases he with ⟨he, -⟩ | rfl
    · exact ht.category_eq e he
    · exact category_nextEntry ..
  · intro e he
    rw [hentries, List.mem_append, List.mem_singleton, List.mem_filter] at he
    rw [hdel]
    rcases he with ⟨he, hne⟩ | rfl
    · obtain ⟨x, hx, ⟨hxd, rfl⟩ | ⟨hxd, hxs⟩⟩ := ht.origin e he
      · exact ⟨_, hx, .inl ⟨by simpa [hxd] using hne, rfl⟩⟩
      · exact ⟨x, hx, .inr ⟨List.mem_cons_of_mem _ hxd, hxs⟩⟩
    · exact ⟨stream, hs, .inr ⟨List.mem_cons_self, rfl⟩⟩
  · intro x hx
    rw [hdel, List.mem_cons] at hx
    rw [marks_tombstone hs h]
    by_cases hxs : x = stream
    · subst hxs
      rw [ht.marks_eq_nil hd, List.nil_append, if_pos rfl]
      exact ⟨_, rfl, rfl⟩
    · rw [if_neg hxs, List.append_nil]
      exact ht.marked x (hx.resolve_left hxs)

end Steps

theorem Tidy.call {log : Log} (ht : log.Tidy) (time : Int) {c : StreamCall} (hc : c.WritesPlainly) :
    (log.call time c).2.Tidy := by
  cases c with
  | append stream expected events =>
      simp only [Log.call]
      split
      · rename_i version log' h
        exact ht.append hc h
      · exact ht
  | read stream start => exact ht
  | version stream => exact ht
  | tombstone stream =>
      simp only [Log.call]
      split
      · rename_i log' h
        exact ht.tombstone hc h
      · exact ht

theorem call_deleted (log : Log) (time : Int) (c : StreamCall) (x : String) :
    x ∈ (log.call time c).2.deleted ↔ x ∈ log.deleted ∨ c = .tombstone x := by
  cases c with
  | append stream expected events =>
      simp only [Log.call]
      split
      · rename_i version log' h
        simp [append_deleted h]
      · simp
  | read stream start => simp [Log.call]
  | version stream => simp [Log.call]
  | tombstone stream =>
      simp only [Log.call]
      split
      · rename_i log' h
        simp [tombstone_deleted h, or_comm, eq_comm]
      · rename_i e h
        have hd : stream ∈ log.deleted := by
          by_contra hd
          obtain ⟨log', hok⟩ := exists_tombstone hd time
          rw [hok] at h
          cases h
        constructor
        · exact .inl
        · rintro (hx | hx)
          · exact hx
          · cases hx
            exact hd

/-! ## Reading a projection -/

/-- The entries of a scope, each with its position. -/
def placed (log : Log) (scope : Scope) : List (Nat × Entry) :=
  log.entries.filterMap fun e => (scope.position? e).map fun p => (p, e)

theorem entriesFrom_eq (log : Log) (scope : Scope) (start : Nat) :
    log.entriesFrom scope start = (log.placed scope).filter fun a => start ≤ a.1 := by
  unfold entriesFrom placed
  induction log.entries with
  | nil => rfl
  | cons e es ih =>
      cases hp : scope.position? e with
      | none => simp [hp, ih]
      | some p => by_cases hle : start ≤ p <;> simp [hp, hle, ih]

theorem mem_placed {log : Log} {scope : Scope} {a : Nat × Entry} :
    a ∈ log.placed scope ↔ a.2 ∈ log.entries ∧ scope.position? a.2 = some a.1 := by
  obtain ⟨p, e⟩ := a
  simp only [placed, List.mem_filterMap, Option.map_eq_some_iff, Prod.mk.injEq]
  constructor
  · rintro ⟨e, he, p, hp, rfl, rfl⟩
    exact ⟨he, hp⟩
  · rintro ⟨he, hp⟩
    exact ⟨e, he, p, hp, rfl, rfl⟩

theorem filter_placed (log : Log) (scope : Scope) (y : String)
    (h : ∀ e ∈ log.entries, e.record.stream = y → ∃ p, scope.position? e = some p) :
    ((log.placed scope).map (·.2.record)).filter (fun r => r.stream = y) =
      (log.entries.filter fun e => e.record.stream = y).map (·.record) := by
  unfold placed
  generalize log.entries = es at h ⊢
  induction es with
  | nil => rfl
  | cons e es ih =>
      have ih := ih fun e he => h e (List.mem_cons_of_mem _ he)
      by_cases hy : e.record.stream = y
      · obtain ⟨p, hp⟩ := h e List.mem_cons_self hy
        simp [hp, hy, ih]
      · cases hp : scope.position? e with
        | none => simp [hp, hy, ih]
        | some p => simp [hp, hy, ih]

/-- The entries of a projection, with their positions in it, are what its streams left in the
log. -/
structure Projects (log : Log) (π : Projection) : Prop where
  ordered : (log.placed π.scope).Pairwise fun a b => a.1 < b.1 ∧ a.2.record.commit < b.2.record.commit
  position : ∀ a ∈ log.placed π.scope, π.scope.position? a.2 = some a.1
  /-- A stream is there as a whole and in order, and the same as under its own name. -/
  streams : ∀ x, IsPlainName x → π.Covers x → x ∉ log.deleted →
    ((log.placed π.scope).map (·.2.record)).filter (fun r => r.stream = x) = log.recordsOf x ∧
    (log.recordsOf x).map (·.position) = List.range (log.recordsOf x).length ∧
    log.read x 0 = .ok (log.recordsOf x)
  /-- A deleted stream has one mark. -/
  marks : ∀ x ∈ log.deleted, π.Covers x → ∃ m,
    ((log.placed π.scope).map (·.2.record)).filter (fun r => r.stream = tombstoneMark ++ x) = [m] ∧
      m.eventType = streamDeletedType
  origin : ∀ a ∈ log.placed π.scope, ∃ x, IsPlainName x ∧ π.Covers x ∧
    (x ∉ log.deleted ∧ a.2.record.stream = x ∨
      x ∈ log.deleted ∧ a.2.record.stream = tombstoneMark ++ x)
  undeleted : ∀ a ∈ log.placed π.scope, a.2.record.stream ∉ log.deleted

namespace Tidy

variable {log : Log} (ht : log.Tidy)

include ht

theorem live {e : Entry} (he : e ∈ log.entries) : e.record.stream ∉ log.deleted := by
  obtain ⟨x, hx, ⟨hd, hs⟩ | ⟨-, hs⟩⟩ := ht.origin e he
  · rw [hs]
    exact hd
  · intro hd
    exact tombstoneMark_append_ne (ht.deleted_plain _ hd) x hs

/-- The stream that an entry is of or marks decides on its category. -/
theorem category_origin {e : Entry} (he : e ∈ log.entries) {x : String} (hx : IsPlainName x)
    (hs : e.record.stream = x ∨ e.record.stream = tombstoneMark ++ x) :
    e.category.map (·.1) = streamCategory? x := by
  rw [ht.category_eq e he]
  rcases hs with hs | hs
  · rw [hs]
  · rw [hs, hx.streamCategory?_mark]

theorem projects (π : Projection) : log.Projects π where
  ordered := by
    have hall : Scope.all.IsSteady := trivial
    have hlog := ht.entries_ordered hall
    have hscope := ht.entries_ordered π.isSteady_scope
    rw [placed, List.pairwise_filterMap]
    refine (hlog.and hscope).imp ?_
    rintro e e' ⟨hc, hp⟩ a ha b hb
    obtain ⟨p, hpos, rfl⟩ := Option.map_eq_some_iff.1 ha
    obtain ⟨p', hpos', rfl⟩ := Option.map_eq_some_iff.1 hb
    exact ⟨hp p hpos p' hpos', hc _ rfl _ rfl⟩
  position a ha := (mem_placed.1 ha).2
  streams x hx hcov hd := by
    refine ⟨?_, ht.position_recordsOf hx, ?_⟩
    · rw [filter_placed, ht.entries_eq x hd, recordsOf]
      intro e he hs
      exact (π.exists_position? hx (ht.category_origin he hx (.inl hs))).2 hcov
    · rw [ht.read_records hx hd]
      simp
  marks x hxd hcov := by
    have hx := ht.deleted_plain x hxd
    obtain ⟨m, hm, htype⟩ := ht.marked x hxd
    refine ⟨m.record, ?_, htype⟩
    rw [filter_placed, ← marks, hm]
    · rfl
    · intro e he hs
      exact (π.exists_position? hx (ht.category_origin he hx (.inr hs))).2 hcov
  origin a ha := by
    obtain ⟨he, hp⟩ := mem_placed.1 ha
    obtain ⟨x, hx, ho⟩ := ht.origin a.2 he
    have hs : a.2.record.stream = x ∨ a.2.record.stream = tombstoneMark ++ x :=
      ho.imp And.right And.right
    exact ⟨x, hx, (π.exists_position? hx (ht.category_origin he hx hs)).1 ⟨_, hp⟩, ho⟩
  undeleted a ha := ht.live (mem_placed.1 ha).1

theorem read_projection (π : Projection) (start : Nat) : log.read π.name start =
    .ok (((log.placed π.scope).filter fun a => start ≤ a.1).map (·.2.record)) := by
  have hd : π.name ∉ log.deleted := fun hd => π.not_isPlainName_name (ht.deleted_plain _ hd)
  rw [read, if_neg hd, π.ofName_name, entriesFrom_eq]

end Tidy

/-- Where an entry stands once, it stands as long as it is there. -/
theorem Coherent.position_stable {log log' : Log} (hc : log.Coherent) (hb : log.Before log')
    (h' : log'.Coherent) {scope : Scope} {a b : Nat × Entry} (ha : a ∈ log.placed scope)
    (hb' : b ∈ log'.placed scope) (hid : a.2.record.id = b.2.record.id) : a = b := by
  obtain ⟨he, hp⟩ := mem_placed.1 ha
  obtain ⟨he', hp'⟩ := mem_placed.1 hb'
  have hsame : a.2 = b.2 :=
    h'.id_unique (hb.history.subset (hc.entries_sublist.subset he)) (h'.entries_sublist.subset he')
      hid
  rw [hsame, hp'] at hp
  exact Prod.ext (Option.some.inj hp).symm hsame

end Log

namespace Server

theorem tidy_serve {s : Server} (ht : s.log.Tidy) {r : Request} (hr : r.WritesPlainly) :
    (s.serve r).2.log.Tidy := by
  by_cases h : ∃ c, r = .call c
  · obtain ⟨c, rfl⟩ := h
    have hl : (s.serve (.call c)).2.log = (s.log.call s.time c).2 := (s.call_eq c).2
    rw [hl]
    exact ht.call s.time hr
  · rw [s.serve_log_of_ne_call fun c hc => h ⟨c, hc⟩]
    exact ht

theorem tidy_after {s : Server} (ht : s.log.Tidy) {requests : List Request}
    (h : ∀ r ∈ requests, r.WritesPlainly) : (s.after requests).log.Tidy := by
  induction requests generalizing s with
  | nil => exact ht
  | cons r requests ih =>
      exact ih (tidy_serve ht (h r List.mem_cons_self)) fun r hr => h r (List.mem_cons_of_mem _ hr)

theorem mem_deleted_serve (s : Server) (r : Request) (x : String) :
    x ∈ (s.serve r).2.log.deleted ↔ x ∈ s.log.deleted ∨ r = .call (.tombstone x) := by
  by_cases h : ∃ c, r = .call c
  · obtain ⟨c, rfl⟩ := h
    have hl : (s.serve (.call c)).2.log = (s.log.call s.time c).2 := (s.call_eq c).2
    rw [hl, Log.call_deleted, Request.call.injEq]
  · rw [s.serve_log_of_ne_call fun c hc => h ⟨c, hc⟩]
    exact ⟨.inl, fun hx => hx.resolve_right fun hc => h ⟨_, hc⟩⟩

theorem mem_deleted_after (s : Server) (requests : List Request) (x : String) :
    x ∈ (s.after requests).log.deleted ↔
      x ∈ s.log.deleted ∨ .call (.tombstone x) ∈ requests := by
  induction requests generalizing s with
  | nil => simp [after]
  | cons r requests ih =>
      calc x ∈ (s.after (r :: requests)).log.deleted
        _ ↔ x ∈ (s.serve r).2.log.deleted ∨ .call (.tombstone x) ∈ requests := ih _
        _ ↔ (x ∈ s.log.deleted ∨ r = .call (.tombstone x)) ∨ .call (.tombstone x) ∈ requests :=
          or_congr_left (s.mem_deleted_serve r x)
        _ ↔ x ∈ s.log.deleted ∨ .call (.tombstone x) ∈ r :: requests := by
          rw [List.mem_cons, or_assoc, eq_comm (a := r)]

/-- Reading a projection gives the records of the streams that it covers and the marks of those that
are deleted. Where they stand in the projection never changes. -/
theorem projections_exact (now : Nat) (requests more : List Request) (π : Projection)
    (h : ∀ r ∈ requests ++ more, r.WritesPlainly) :
    let server := (start now).after requests
    let later := (start now).after (requests ++ more)
    server.log.Projects π ∧
    (∀ k, (server.read π.name k).1 =
      .ok (((server.log.placed π.scope).filter fun a => k ≤ a.1).map (·.2.record))) ∧
    (∀ a ∈ server.log.placed π.scope, ∀ b ∈ later.log.placed π.scope,
      a.2.record.id = b.2.record.id → a = b) ∧
    ∀ x, x ∈ server.log.deleted ↔ .call (.tombstone x) ∈ requests := by
  intro server later
  have ht : server.log.Tidy :=
    tidy_after Log.tidy_empty fun r hr => h r (List.mem_append_left _ hr)
  have hlater : later.log.Coherent := coherent_after now _
  have hbefore : server.log.Before later.log := by
    have hl : later = server.after more := after_append ..
    rw [hl]
    exact server.after_before more
  refine ⟨ht.projects π, ht.read_projection π, ?_, ?_⟩
  · intro a ha b hb hid
    exact ht.position_stable hbefore hlater ha hb hid
  · intro x
    rw [mem_deleted_after]
    exact or_iff_right List.not_mem_nil

/-- Streams with one dash, more dashes and none; the first one is deleted twice. -/
def dashedRun : List Request :=
  let append (stream : String) : Request := .call (.append stream .any [⟨"Noted", [], []⟩])
  [append "order-1", append "order-eu-2", append "order", append "account-1",
    .call (.tombstone "order-1"), .call (.tombstone "order-1"), append "order-eu-2"]

theorem projections_exact_dashedRun :
    let log := ((start 0).after dashedRun).log
    (∀ r ∈ dashedRun ++ [], r.WritesPlainly) ∧ log.Projects (.category "order") ∧
    (log.placed (.category "order")).map (fun a => (a.1, a.2.record.stream, a.2.record.commit)) =
      [(1, "order-eu-2", 1), (2, "$$order-1", 4), (3, "order-eu-2", 5)] ∧
    (log.placed .all).map (fun a => (a.1, a.2.record.stream)) =
      [(1, "order-eu-2"), (2, "order"), (3, "account-1"), (4, "$$order-1"), (5, "order-eu-2")] := by
  intro log
  have h : ∀ r ∈ dashedRun ++ [], r.WritesPlainly := by decide +kernel
  exact ⟨h, (projections_exact 0 dashedRun [] (.category "order") h).1, by decide +kernel,
    by decide +kernel⟩

end Server

end EventSourcing
