import EventSourcing.Proofs.Log.Numbering

/-!
# Coherent logs

The list of readable entries, the versions of streams and the set of deleted streams tell the same
story as all that was ever written (`Log.Coherent`). The empty log is coherent and every step keeps
that, so the log of every server that has started empty is (`Server.coherent_after`).
-/

namespace EventSourcing

namespace Log

/-- All entries of a stream that were ever written. -/
def historyOf (log : Log) (stream : String) : List Entry :=
  log.history.filter fun e => e.record.stream = stream

structure Coherent (log : Log) : Prop extends log.Numbered where
  entries_sublist : log.entries.Sublist log.history
  /-- All entries of a stream can be read until it is deleted. -/
  entries_eq : ∀ x, x ∉ log.deleted →
    (log.entries.filter fun e => e.record.stream = x) = log.historyOf x
  versions_eq : ∀ x, Text.hasPrefix tombstoneMark x = false → x ∉ log.deleted →
    log.versions.get? x = if log.size (.stream x) = 0 then none else some (log.size (.stream x))

theorem coherent_empty : Log.empty.Coherent :=
  { numbered_empty with
    entries_sublist := List.Sublist.refl _
    entries_eq := fun _ _ => rfl
    versions_eq := fun _ _ _ => rfl }

/-! ## The positions of a stream -/

theorem positions_stream (log : Log) (x : String) :
    log.positions (.stream x) = (log.historyOf x).map (·.record.position) := by
  unfold positions historyOf Scope.position?
  induction log.history with
  | nil => rfl
  | cons e es ih =>
      by_cases h : e.record.stream = x
      · simp [h, ih]
      · simp [h, ih]

theorem size_stream (log : Log) (x : String) : log.size (.stream x) = (log.historyOf x).length := by
  rw [size, positions_stream, List.length_map]

/-- What is read of a single stream. -/
theorem map_record_entriesFrom (log : Log) (x : String) (start : Nat) :
    (log.entriesFrom (.stream x) start).map (fun e => e.2.record) =
      ((log.entries.filter fun e => e.record.stream = x).filter
        fun e => start ≤ e.record.position).map (·.record) := by
  unfold entriesFrom Scope.position?
  induction log.entries with
  | nil => rfl
  | cons e es ih =>
      by_cases h : e.record.stream = x
      · by_cases hle : start ≤ e.record.position
        · simp [h, hle, ih]
        · simp [h, hle, ih]
      · simp [h, ih]

/-! ## Appends -/

section Append

variable {log log' : Log} {stream : String} {expected : Expectation} {events : List EncodedEvent}
  {time : Int} {version : Nat}

/-- What an append does that goes through. -/
theorem append_eq_ok (h : log.append stream expected events time = .ok (version, log')) :
    stream ∉ log.deleted ∧ expected.Matches ((log.versions.get? stream).getD 0) ∧
    version = (log.versions.get? stream).getD 0 + events.length ∧
    log' = { log.pushAll stream ((log.versions.get? stream).getD 0) time events with
      versions := if events = [] then log.versions else log.versions.insert stream version } := by
  unfold append at h
  split at h
  · cases h
  · rename_i hd
    simp only at h
    split at h
    · rename_i hm
      simp only [pushAll_versions, Except.ok.injEq, Prod.mk.injEq] at h
      obtain ⟨rfl, rfl⟩ := h
      exact ⟨hd, hm, rfl, rfl⟩
    · cases h

theorem exists_append (hd : stream ∉ log.deleted)
    (hm : expected.Matches ((log.versions.get? stream).getD 0)) (events : List EncodedEvent)
    (time : Int) : ∃ log', log.append stream expected events time =
      .ok ((log.versions.get? stream).getD 0 + events.length, log') := by
  unfold append
  rw [if_neg hd, if_pos hm]
  exact ⟨_, rfl⟩

theorem history_append (h : log.append stream expected events time = .ok (version, log')) :
    log'.history =
      log.history ++ log.newEntries stream ((log.versions.get? stream).getD 0) time events := by
  obtain ⟨-, -, -, rfl⟩ := append_eq_ok h
  exact history_pushAll ..

theorem append_deleted (h : log.append stream expected events time = .ok (version, log')) :
    log'.deleted = log.deleted := by
  obtain ⟨-, -, -, rfl⟩ := append_eq_ok h
  exact pushAll_deleted ..

theorem filter_newEntries (log : Log) (stream x : String) (position : Nat) (time : Int)
    (events : List EncodedEvent) :
    ((log.newEntries stream position time events).filter fun e => e.record.stream = x) =
      if x = stream then log.newEntries stream position time events else [] := by
  have hs : ∀ e ∈ log.newEntries stream position time events, e.record.stream = stream :=
    fun _ he => stream_of_mem_newEntries _ _ _ _ _ he
  by_cases h : x = stream
  · subst h
    rw [if_pos rfl]
    exact List.filter_eq_self.2 fun e he => decide_eq_true (hs e he)
  · rw [if_neg h]
    refine List.filter_eq_nil_iff.2 fun e he => ?_
    rw [hs e he]
    simpa using Ne.symm h

theorem historyOf_append (h : log.append stream expected events time = .ok (version, log'))
    (x : String) : log'.historyOf x = log.historyOf x ++
      if x = stream then
        log.newEntries stream ((log.versions.get? stream).getD 0) time events
      else [] := by
  rw [historyOf, history_append h, List.filter_append, filter_newEntries, historyOf]

theorem length_newEntries (log : Log) (stream : String) (position : Nat) (time : Int)
    (events : List EncodedEvent) :
    (log.newEntries stream position time events).length = events.length := by
  rw [← List.length_map (·.record.encoded), encoded_newEntries]

theorem size_append (h : log.append stream expected events time = .ok (version, log'))
    (x : String) : log'.size (.stream x) =
      log.size (.stream x) + if x = stream then events.length else 0 := by
  rw [size_stream, historyOf_append h, List.length_append, size_stream]
  by_cases hx : x = stream
  · simp [hx, length_newEntries]
  · simp [hx]

/-- A stream that is not deleted has as many records as its version says. -/
theorem Coherent.version_eq (hc : log.Coherent) {x : String}
    (hm : Text.hasPrefix tombstoneMark x = false) (hd : x ∉ log.deleted) :
    (log.versions.get? x).getD 0 = log.size (.stream x) := by
  rw [hc.versions_eq x hm hd]
  split <;> simp_all

theorem Coherent.append (hc : log.Coherent)
    (h : log.append stream expected events time = .ok (version, log')) : log'.Coherent := by
  obtain ⟨hd, -, hv, hl⟩ := append_eq_ok h
  have hp (hm : Text.hasPrefix tombstoneMark stream = false) :
      (log.versions.get? stream).getD 0 = log.size (.stream stream) := hc.version_eq hm hd
  have hn := hc.pushAll hp time events
  refine { (?_ : log'.Numbered) with entries_sublist := ?_, entries_eq := ?_, versions_eq := ?_ }
  · rw [hl]
    exact ⟨hn.positions_eq, hn.nextCommit_eq, hn.heads_eq, hn.id_eq⟩
  · rw [history_append h, hl]
    simp only [pushAll_entries]
    exact hc.entries_sublist.append (List.Sublist.refl _)
  · intro x hx
    rw [append_deleted h] at hx
    rw [historyOf_append h, hl]
    simp only [pushAll_entries, List.filter_append, filter_newEntries, hc.entries_eq x hx]
  · intro x hx hxd
    rw [append_deleted h] at hxd
    rw [size_append h, hl]
    have hv' := hc.versions_eq x hx hxd
    by_cases he : events = []
    · simp [he, hv']
    · have hpos : events.length ≠ 0 := fun h0 => he (List.length_eq_zero_iff.1 h0)
      simp only [he, if_false, Table.get?_insert]
      by_cases hxs : x = stream
      · subst hxs
        rw [hp hx] at hv
        simp only [if_true, hv]
        rw [if_neg (by omega)]
      · simp [hxs, hv']

end Append

/-! ## Deletions -/

section Tombstone

variable {log log' : Log} {stream : String} {time : Int}

/-- The log without the records of a stream that is deleted. -/
def cleared (log : Log) (stream : String) : Log :=
  { log with
    entries := log.entries.filter fun e => e.record.stream ≠ stream
    versions := log.versions.erase stream
    deleted := stream :: log.deleted }

/-- What is left of another stream is what was there of it before. -/
theorem filter_cleared (log : Log) {stream x : String} (hne : x ≠ stream) :
    ((log.cleared stream).entries.filter fun e => e.record.stream = x) =
      log.entries.filter fun e => e.record.stream = x := by
  rw [cleared, List.filter_filter]
  refine List.filter_congr fun e _ => ?_
  by_cases he : e.record.stream = x
  · simp [he, hne]
  · simp [he]

/-- What a deletion does that goes through. -/
theorem tombstone_eq_ok (h : log.tombstone stream time = .ok log') :
    stream ∉ log.deleted ∧
    log' = (log.cleared stream).push (tombstoneMark ++ stream) 0 time ⟨streamDeletedType, [], []⟩ := by
  unfold tombstone at h
  split at h
  · cases h
  · rename_i hd
    simp only [Except.ok.injEq] at h
    exact ⟨hd, h.symm⟩

theorem exists_tombstone (hd : stream ∉ log.deleted) (time : Int) :
    ∃ log', log.tombstone stream time = .ok log' := by
  unfold tombstone
  rw [if_neg hd]
  exact ⟨_, rfl⟩

theorem tombstone_deleted (h : log.tombstone stream time = .ok log') :
    log'.deleted = stream :: log.deleted := by
  obtain ⟨-, rfl⟩ := tombstone_eq_ok h
  rfl

theorem history_tombstone (h : log.tombstone stream time = .ok log') :
    log'.history = log.history ++
      [log.nextEntry (tombstoneMark ++ stream) 0 time ⟨streamDeletedType, [], []⟩] := by
  obtain ⟨-, rfl⟩ := tombstone_eq_ok h
  exact history_push ..

/-- The mark belongs to no stream but those of marks. -/
theorem historyOf_tombstone (h : log.tombstone stream time = .ok log') {x : String}
    (hx : Text.hasPrefix tombstoneMark x = false) : log'.historyOf x = log.historyOf x := by
  have hne : tombstoneMark ++ stream ≠ x := by
    intro he
    rw [← he, hasPrefix_tombstoneMark] at hx
    cases hx
  rw [historyOf, history_tombstone h, List.filter_append, historyOf]
  simp [nextEntry, hne]

theorem Coherent.tombstone (hc : log.Coherent) (h : log.tombstone stream time = .ok log') :
    log'.Coherent := by
  obtain ⟨-, hl⟩ := tombstone_eq_ok h
  have hcl : (log.cleared stream).Numbered :=
    ⟨hc.positions_eq, hc.nextCommit_eq, hc.heads_eq, hc.id_eq⟩
  have hm : ¬ Text.hasPrefix tombstoneMark (tombstoneMark ++ stream) = false := by
    simp [hasPrefix_tombstoneMark]
  refine { (?_ : log'.Numbered) with entries_sublist := ?_, entries_eq := ?_, versions_eq := ?_ }
  · rw [hl]
    exact hcl.push (fun h => absurd h hm) time _
  · rw [history_tombstone h, hl, push_entries]
    exact (List.filter_sublist.trans hc.entries_sublist).append (List.Sublist.refl _)
  · intro x hx
    rw [tombstone_deleted h, List.mem_cons, not_or] at hx
    rw [hl, push_entries, List.filter_append, log.filter_cleared hx.1, hc.entries_eq x hx.2, ← hl,
      historyOf, historyOf, history_tombstone h, List.filter_append]
    rfl
  · intro x hx hxd
    rw [tombstone_deleted h, List.mem_cons, not_or] at hxd
    have hsize : log'.size (.stream x) = log.size (.stream x) := by
      rw [size_stream, historyOf_tombstone h hx, size_stream]
    rw [hsize, ← hc.versions_eq x hx hxd.2, hl, push_versions, cleared, Table.get?_erase,
      if_neg hxd.1]

end Tombstone

/-! ## Steps and runs -/

theorem Coherent.step {log log' : Log} (hc : log.Coherent) (h : log.Step log') : log'.Coherent := by
  cases h with
  | append h => exact hc.append h
  | tombstone h => exact hc.tombstone h

theorem Coherent.before {log log' : Log} (hc : log.Coherent) (h : log.Before log') :
    log'.Coherent := by
  induction h with
  | refl => exact hc
  | tail _ hs ih => exact ih.step hs

/-- What was written can be read until its stream is deleted. -/
theorem Coherent.mem_entries {log : Log} (hc : log.Coherent) {e : Entry} (he : e ∈ log.history)
    (hd : e.record.stream ∉ log.deleted) : e ∈ log.entries := by
  have hm : e ∈ log.historyOf e.record.stream := List.mem_filter.2 ⟨he, decide_eq_true rfl⟩
  rw [← hc.entries_eq _ hd] at hm
  exact (List.mem_filter.1 hm).1

theorem Step.history {log log' : Log} (h : log.Step log') : log.history <+: log'.history := by
  cases h with
  | append h => exact ⟨_, (history_append h).symm⟩
  | tombstone h => exact ⟨_, (history_tombstone h).symm⟩

/-- What was written stays written. -/
theorem Before.history {log log' : Log} (h : log.Before log') : log.history <+: log'.history := by
  induction h with
  | refl => exact List.prefix_refl _
  | tail _ hs ih => exact ih.trans hs.history

/-- What can be read was there before or is new. -/
theorem Step.entries {log log' : Log} (h : log.Step log') :
    ∃ news, log'.history = log.history ++ news ∧
      ∀ e ∈ log'.entries, e ∈ log.entries ∨ e ∈ news := by
  cases h with
  | append h =>
      refine ⟨_, history_append h, fun e he => ?_⟩
      obtain ⟨-, -, -, rfl⟩ := append_eq_ok h
      rw [pushAll_entries] at he
      exact List.mem_append.1 he
  | tombstone h =>
      refine ⟨_, history_tombstone h, fun e he => ?_⟩
      obtain ⟨-, rfl⟩ := tombstone_eq_ok h
      rw [push_entries, List.mem_append] at he
      exact he.imp_left fun he => (List.mem_filter.1 he).1

theorem Step.size_le {log log' : Log} (h : log.Step log') (scope : Scope) :
    log.size scope ≤ log'.size scope := by
  obtain ⟨news, hn, -⟩ := h.entries
  unfold size positions
  rw [hn, List.filterMap_append, List.length_append]
  exact Nat.le_add_right _ _

theorem Step.deleted {log log' : Log} (h : log.Step log') : log.deleted ⊆ log'.deleted := by
  cases h with
  | append h => rw [append_deleted h]; exact fun _ hx => hx
  | tombstone h => rw [tombstone_deleted h]; exact List.subset_cons_self _ _

/-- What was deleted stays deleted. -/
theorem Before.deleted {log log' : Log} (h : log.Before log') : log.deleted ⊆ log'.deleted := by
  induction h with
  | refl => exact fun _ hx => hx
  | tail _ hs ih => exact fun _ hx => hs.deleted (ih hx)

end Log

/-- Whatever a server that has started empty is asked, its log is coherent. -/
theorem Server.coherent_after (now : Nat) (requests : List Request) :
    ((Server.start now).after requests).log.Coherent :=
  Log.coherent_empty.before ((Server.start now).after_before requests)

end EventSourcing
