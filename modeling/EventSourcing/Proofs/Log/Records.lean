import EventSourcing.Proofs.Log.Coherence

/-!
# The records of a stream

A stream with a plain name, one that the log gives no meaning to, is read as all records that were
ever written to it, until it is deleted. Whatever happens to the log, they only get more.
-/

namespace EventSourcing

/-! ## Plain names -/

/-- Whether a name is not one of those that the log gives a meaning to. -/
def IsPlainName (name : String) : Prop := Text.hasPrefix "$" name = false

instance : DecidablePred IsPlainName := fun name =>
  inferInstanceAs (Decidable (Text.hasPrefix "$" name = false))

theorem not_isPlainName_append (rest : String) : ¬ IsPlainName ("$" ++ rest) := by
  simp [IsPlainName, Text.hasPrefix_iff.2 ⟨rest, rfl⟩]

theorem IsPlainName.not_tombstone {name : String} (h : IsPlainName name) :
    Text.hasPrefix tombstoneMark name = false := by
  rw [Bool.eq_false_iff]
  intro hm
  obtain ⟨rest, rfl⟩ := Text.hasPrefix_iff.1 hm
  have he : tombstoneMark ++ rest = "$" ++ ("$" ++ rest) := by
    rw [← String.append_assoc]
    rfl
  rw [he] at h
  exact not_isPlainName_append _ h

/-- A plain name addresses the stream of that name. -/
theorem IsPlainName.scope {name : String} (h : IsPlainName name) :
    Scope.ofName name = .stream name := by
  unfold Scope.ofName
  rw [if_neg]
  · cases hs : Text.strip? categoryMark name with
    | none => rfl
    | some rest =>
        rw [Text.strip?_eq_some_iff.1 hs] at h
        have he : categoryMark ++ rest = "$" ++ ("ce-" ++ rest) := by
          rw [← String.append_assoc]
          rfl
        rw [he] at h
        exact absurd h (not_isPlainName_append _)
  · rintro rfl
    exact not_isPlainName_append "all" h

namespace Log

/-- All records that were ever written to a stream. -/
def recordsOf (log : Log) (stream : String) : List StoredRecord :=
  (log.historyOf stream).map (·.record)

theorem length_recordsOf (log : Log) (x : String) :
    (log.recordsOf x).length = log.size (.stream x) := by
  rw [recordsOf, List.length_map, size_stream]

theorem Before.recordsOf {log log' : Log} (h : log.Before log') (x : String) :
    log.recordsOf x <+: log'.recordsOf x :=
  (h.history.filter _).map _

/-- An append adds its events to the records of the stream. -/
theorem exists_recordsOf_append {log log' : Log} {stream : String} {expected : Expectation}
    {events : List EncodedEvent} {time : Int} {version : Nat}
    (h : log.append stream expected events time = .ok (version, log')) :
    ∃ news, log'.recordsOf stream = log.recordsOf stream ++ news ∧
      news.map Record.encoded = events := by
  let position := (log.versions.get? stream).getD 0
  refine ⟨(log.newEntries stream position time events).map (·.record), ?_, ?_⟩
  · rw [recordsOf, historyOf_append h, if_pos rfl, List.map_append, recordsOf]
  · rw [List.map_map]
    exact encoded_newEntries log stream position time events

section Coherent

variable {log : Log} (hc : log.Coherent) {x : String} (hx : IsPlainName x)

include hc hx

theorem Coherent.read_records (hd : x ∉ log.deleted) (start : Nat) : log.read x start =
    .ok ((log.recordsOf x).filter fun r => start ≤ r.position) := by
  rw [read, if_neg hd, hx.scope, map_record_entriesFrom, hc.entries_eq x hd, recordsOf,
    List.filter_map]
  rfl

theorem Coherent.read_zero (hd : x ∉ log.deleted) : log.read x 0 = .ok (log.recordsOf x) := by
  rw [hc.read_records hx hd]
  simp

theorem Coherent.position_recordsOf :
    (log.recordsOf x).map (·.position) = List.range (log.recordsOf x).length := by
  rw [recordsOf, List.map_map, List.length_map, ← size_stream,
    ← hc.positions_eq (.stream x) hx.not_tombstone, positions_stream]
  rfl

end Coherent

end Log

end EventSourcing
