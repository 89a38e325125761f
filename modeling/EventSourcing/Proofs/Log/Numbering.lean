import EventSourcing.Proofs.Log.Request

/-!
# The numbering of records

Within the log, within every category and within every stream, records are numbered in the order in
which they were written, from 0 on and without a hole (`Log.Numbered`). Deleting a stream takes its
records out of the log but gives no number back. Only the streams of the marks of deleted streams
are not numbered.
-/

namespace EventSourcing

/-- Whether the records of the scope are numbered. -/
def Scope.IsSteady : Scope → Prop
  | .stream name => Text.hasPrefix tombstoneMark name = false
  | _ => True

/-- Every name stands for a numbered scope but those of marks. -/
theorem Scope.isSteady_ofName {name : String} (h : Text.hasPrefix tombstoneMark name = false) :
    (Scope.ofName name).IsSteady := by
  unfold ofName
  split
  · trivial
  · split
    · trivial
    · exact h

/-- What was appended to make the record. -/
def Record.encoded (r : StoredRecord) : EncodedEvent := ⟨r.eventType, r.data, r.metadata⟩

theorem hasPrefix_tombstoneMark (stream : String) :
    Text.hasPrefix tombstoneMark (tombstoneMark ++ stream) = true :=
  Text.hasPrefix_iff.2 ⟨stream, rfl⟩

namespace Log

/-- All that was ever written, in order. -/
def history (log : Log) : List Entry := log.written.toList

/-- The positions within a scope of all that was ever written. -/
def positions (log : Log) (scope : Scope) : List Nat :=
  log.history.filterMap fun e => scope.position? e

/-- How many records of a scope were ever written. -/
def size (log : Log) (scope : Scope) : Nat := (log.positions scope).length

/-! ## Putting records at the end -/

@[simp] theorem history_push (log : Log) (stream : String) (position : Nat) (time : Int)
    (event : EncodedEvent) : (log.push stream position time event).history =
      log.history ++ [log.nextEntry stream position time event] := by
  simp [history, push]

@[simp] theorem push_entries (log : Log) (stream : String) (position : Nat) (time : Int)
    (event : EncodedEvent) : (log.push stream position time event).entries =
      log.entries ++ [log.nextEntry stream position time event] := rfl

@[simp] theorem push_versions (log : Log) (stream : String) (position : Nat) (time : Int)
    (event : EncodedEvent) : (log.push stream position time event).versions = log.versions := rfl

@[simp] theorem push_deleted (log : Log) (stream : String) (position : Nat) (time : Int)
    (event : EncodedEvent) : (log.push stream position time event).deleted = log.deleted := rfl

/-- The position that the next record takes within a scope. -/
def nextPosition? (log : Log) (stream : String) (position : Nat) : Scope → Option Nat
  | .all => some log.nextCommit
  | .category name =>
    if streamCategory? stream = some name then some ((log.heads.get? name).getD 0) else none
  | .stream name => if stream = name then some position else none

theorem position?_nextEntry (log : Log) (stream : String) (position : Nat) (time : Int)
    (event : EncodedEvent) (scope : Scope) :
    scope.position? (log.nextEntry stream position time event) =
      log.nextPosition? stream position scope := by
  cases scope with
  | all => rfl
  | category name =>
      simp only [Scope.position?, nextEntry, nextPosition?]
      cases hc : streamCategory? stream with
      | none => rfl
      | some own =>
          simp only [Option.map_some, Option.some.injEq]
          by_cases h : own = name
          · subst h; rfl
          · simp only [h, if_false]
  | stream name => rfl

theorem positions_push (log : Log) (stream : String) (position : Nat) (time : Int)
    (event : EncodedEvent) (scope : Scope) :
    (log.push stream position time event).positions scope =
      log.positions scope ++ (log.nextPosition? stream position scope).toList := by
  rw [← log.position?_nextEntry stream position time event scope]
  simp only [positions, history_push, List.filterMap_append, List.filterMap_cons,
    List.filterMap_nil]
  cases scope.position? (log.nextEntry stream position time event) <;> rfl

/-- The entries that events make, one after the other. -/
def newEntries (log : Log) (stream : String) (position : Nat) (time : Int) :
    List EncodedEvent → List Entry
  | [] => []
  | event :: events =>
    log.nextEntry stream position time event ::
      (log.push stream position time event).newEntries stream (position + 1) time events

section PushAll

variable (log : Log) (stream : String) (position : Nat) (time : Int) (events : List EncodedEvent)

theorem history_pushAll : (log.pushAll stream position time events).history =
    log.history ++ log.newEntries stream position time events := by
  induction events generalizing log position with
  | nil => simp [pushAll, newEntries]
  | cons event events ih => simp [pushAll, newEntries, ih]

theorem pushAll_entries : (log.pushAll stream position time events).entries =
    log.entries ++ log.newEntries stream position time events := by
  induction events generalizing log position with
  | nil => simp [pushAll, newEntries]
  | cons event events ih => simp [pushAll, newEntries, ih]

@[simp] theorem pushAll_versions :
    (log.pushAll stream position time events).versions = log.versions := by
  induction events generalizing log position with
  | nil => rfl
  | cons event events ih => simp [pushAll, ih]

@[simp] theorem pushAll_deleted :
    (log.pushAll stream position time events).deleted = log.deleted := by
  induction events generalizing log position with
  | nil => rfl
  | cons event events ih => simp [pushAll, ih]

theorem stream_of_mem_newEntries {e : Entry}
    (h : e ∈ log.newEntries stream position time events) : e.record.stream = stream := by
  induction events generalizing log position with
  | nil => cases h
  | cons event events ih =>
      rcases List.mem_cons.1 h with rfl | h
      · rfl
      · exact ih _ _ h

theorem encoded_newEntries :
    (log.newEntries stream position time events).map (·.record.encoded) = events := by
  induction events generalizing log position with
  | nil => rfl
  | cons event events ih =>
      simp only [newEntries, List.map_cons, ih]
      rfl

end PushAll

/-! ## Numbered logs -/

/-- Every scope is numbered, the log knows the next number of each of them, and ids are places in
the whole log. -/
structure Numbered (log : Log) : Prop where
  positions_eq : ∀ scope : Scope, scope.IsSteady → log.positions scope = List.range (log.size scope)
  nextCommit_eq : log.nextCommit = log.size .all
  heads_eq : ∀ name, (log.heads.get? name).getD 0 = log.size (.category name)
  id_eq : ∀ e ∈ log.history, e.record.id = e.record.commit

theorem numbered_empty : Log.empty.Numbered :=
  ⟨fun _ _ => rfl, rfl, fun _ => rfl, fun _ h => by cases h⟩

theorem size_push (log : Log) (stream : String) (position : Nat) (time : Int)
    (event : EncodedEvent) (scope : Scope) :
    (log.push stream position time event).size scope =
      log.size scope + (log.nextPosition? stream position scope).toList.length := by
  rw [size, positions_push, List.length_append, size]

/-- A record of a numbered log takes the next number of each of its scopes, if its position within
its stream is the next one. -/
theorem Numbered.nextPosition? {log : Log} (h : log.Numbered) {stream : String} {position : Nat}
    (hp : Text.hasPrefix tombstoneMark stream = false → position = log.size (.stream stream))
    {scope : Scope} (hs : scope.IsSteady) {p : Nat}
    (hn : log.nextPosition? stream position scope = some p) : p = log.size scope := by
  cases scope with
  | all =>
      simp only [Log.nextPosition?, Option.some.injEq] at hn
      rw [← hn, h.nextCommit_eq]
  | category name =>
      simp only [Log.nextPosition?] at hn
      split at hn
      · simp only [Option.some.injEq] at hn
        rw [← hn, h.heads_eq]
      · cases hn
  | stream name =>
      simp only [Log.nextPosition?] at hn
      split at hn
      · rename_i he
        subst he
        simp only [Option.some.injEq] at hn
        rw [← hn, hp hs]
      · cases hn

theorem Numbered.push {log : Log} (h : log.Numbered) {stream : String} {position : Nat}
    (hp : Text.hasPrefix tombstoneMark stream = false → position = log.size (.stream stream))
    (time : Int) (event : EncodedEvent) : (log.push stream position time event).Numbered where
  positions_eq scope hs := by
    rw [positions_push, size_push, h.positions_eq scope hs]
    cases hn : log.nextPosition? stream position scope with
    | none => simp
    | some p =>
        rw [h.nextPosition? hp hs hn]
        simp [List.range_succ]
  nextCommit_eq := by
    rw [size_push, ← h.nextCommit_eq]
    rfl
  heads_eq name := by
    rw [size_push, ← h.heads_eq]
    simp only [Log.nextPosition?, Log.push, nextEntry]
    cases hc : streamCategory? stream with
    | none => simp
    | some own =>
        simp only [Option.map_some, Table.get?_insert, Option.some.injEq]
        by_cases ho : own = name
        · subst ho
          simp
        · simp [ho, Ne.symm ho]
  id_eq e he := by
    rw [history_push, List.mem_append, List.mem_singleton] at he
    rcases he with he | rfl
    · exact h.id_eq e he
    · rfl

/-- The next position within the stream itself grows with every record. -/
theorem size_push_self (log : Log) (stream : String) (position : Nat) (time : Int)
    (event : EncodedEvent) : (log.push stream position time event).size (.stream stream) =
      log.size (.stream stream) + 1 := by
  rw [size_push]
  simp [nextPosition?]

theorem Numbered.pushAll {log : Log} (h : log.Numbered) {stream : String} {position : Nat}
    (hp : Text.hasPrefix tombstoneMark stream = false → position = log.size (.stream stream))
    (time : Int) (events : List EncodedEvent) :
    (log.pushAll stream position time events).Numbered := by
  induction events generalizing log position with
  | nil => exact h
  | cons event events ih =>
      refine ih (h.push hp time event) ?_
      intro hm
      rw [size_push_self, hp hm]

/-! ## Order -/

section Order

variable {log : Log} {scope : Scope} {e e' : Entry} {p p' : Nat}

/-- Records that are written later have higher positions. -/
theorem Numbered.ordered (h : log.Numbered) (hs : scope.IsSteady) :
    log.history.Pairwise fun e e' => ∀ p, scope.position? e = some p →
      ∀ p', scope.position? e' = some p' → p < p' := by
  have hp : (log.positions scope).Pairwise (· < ·) := by
    rw [h.positions_eq scope hs]
    exact List.pairwise_lt_range
  exact List.pairwise_filterMap.1 hp

theorem Numbered.lt_size (h : log.Numbered) (hs : scope.IsSteady) (he : e ∈ log.history)
    (hp : scope.position? e = some p) : p < log.size scope := by
  have hm : p ∈ log.positions scope := List.mem_filterMap.2 ⟨e, he, hp⟩
  rw [h.positions_eq scope hs] at hm
  exact List.mem_range.1 hm

/-- At a position there is one record only. -/
theorem Numbered.entry_unique (h : log.Numbered) (hs : scope.IsSteady) (he : e ∈ log.history)
    (he' : e' ∈ log.history) (hp : scope.position? e = some p) (hp' : scope.position? e' = some p) :
    e = e' := by
  have ho := List.pairwise_iff_getElem.1 (h.ordered hs)
  obtain ⟨i, hi, rfl⟩ := List.getElem_of_mem he
  obtain ⟨j, hj, rfl⟩ := List.getElem_of_mem he'
  rcases Nat.lt_trichotomy i j with hij | rfl | hij
  · exact absurd (ho i j hi hj hij p hp p hp') (Nat.lt_irrefl p)
  · rfl
  · exact absurd (ho j i hj hi hij p hp' p hp) (Nat.lt_irrefl p)

/-- No two records have the same id. -/
theorem Numbered.id_unique (h : log.Numbered) (he : e ∈ log.history) (he' : e' ∈ log.history)
    (hid : e.record.id = e'.record.id) : e = e' := by
  rw [h.id_eq e he, h.id_eq e' he'] at hid
  have hs : Scope.all.IsSteady := trivial
  exact h.entry_unique hs he he' rfl (congrArg some hid.symm)

/-- What is written after a log has the positions after those of the log. -/
theorem Numbered.size_le (h : log.Numbered) {log' : Log} (h' : log'.Numbered)
    (hs : scope.IsSteady) {news : List Entry} (hn : log'.history = log.history ++ news)
    (he : e ∈ news) (hp : scope.position? e = some p) : log.size scope ≤ p := by
  have ho := h'.ordered hs
  rw [hn, List.pairwise_append] at ho
  refine Nat.le_of_not_lt fun hlt => ?_
  have hm : p ∈ log.positions scope := by
    rw [h.positions_eq scope hs]
    exact List.mem_range.2 hlt
  obtain ⟨e₀, he₀, hp₀⟩ := List.mem_filterMap.1 hm
  exact absurd (ho.2.2 e₀ he₀ e he p hp₀ p hp) (Nat.lt_irrefl p)

end Order

end Log

end EventSourcing
