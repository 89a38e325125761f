import EventSourcing.Proofs.Log.Records
import Mathlib.Logic.Function.Basic

/-!
# The log as a plain store of streams

A plain store keeps for every stream the list of its events, and whether it was deleted. On names
that do not start with `$` the log answers as a plain store does, whatever else is asked of its
server in between (`Server.answers_eq_plain`). The simulation is a function: what a plain store would
hold is read off all that was ever written (`Log.plain`).
-/

namespace EventSourcing

/-! ## Plain stores -/

structure PlainStream where
  events : List EncodedEvent
  deleted : Bool

namespace PlainStream

def empty : PlainStream := ⟨[], false⟩

/-- The number of events; none if there are none. -/
def version? (s : PlainStream) : Option Nat :=
  if s.events = [] then none else some s.events.length

end PlainStream

/-- An event at its place in a stream. -/
structure FiledEvent where
  stream : String
  position : Nat
  event : EncodedEvent

abbrev PlainStore := String → PlainStream

namespace PlainStore

def empty : PlainStore := fun _ => .empty

/-- The events of a stream, each at its index. -/
def filed (store : PlainStore) (stream : String) : List FiledEvent :=
  (store stream).events.zipIdx.map fun (event, index) => ⟨stream, index, event⟩

theorem filter_zipIdx {α : Type} (l : List α) (start n : Nat) :
    ((l.zipIdx n).filter fun p => start ≤ p.2) = (l.zipIdx n).drop (start - n) := by
  induction l generalizing n with
  | nil => simp
  | cons a l ih =>
      rw [List.zipIdx_cons, List.filter_cons, ih]
      by_cases h : start ≤ n
      · have h₁ : start - n = 0 := by omega
        have h₂ : start - (n + 1) = 0 := by omega
        simp [h, h₁, h₂]
      · have h₁ : start - n = start - (n + 1) + 1 := by omega
        simp [h, h₁]

/-- The events from a position on are those from an index on. -/
theorem filter_filed (store : PlainStore) (stream : String) (start : Nat) :
    ((store.filed stream).filter fun f => start ≤ f.position) = (store.filed stream).drop start := by
  rw [filed, List.filter_map, ← List.map_drop]
  exact congrArg _ (filter_zipIdx ..)

/-- A call on a stream. A deleted stream fails every call. -/
def call (store : PlainStore) (c : StreamCall) : StreamAnswer FiledEvent × PlainStore :=
  let s := store c.stream
  if s.deleted then (c.failed (.streamDeleted c.stream), store)
  else
    match c with
    | .append stream expected events =>
      if expected.Matches s.events.length then
        (.appended (.ok (s.events.length + events.length)),
          Function.update store stream { s with events := s.events ++ events })
      else (.appended (.error (.wrongExpectedVersion stream expected s.version?)), store)
    | .read stream start => (.records (.ok ((store.filed stream).drop start)), store)
    | .version _ => (.version (.ok s.version?), store)
    | .tombstone stream =>
      (.deleted (.ok ()), Function.update store stream { s with deleted := true })

end PlainStore

/-! ## What the log holds as a plain store -/

def Record.filed (r : StoredRecord) : FiledEvent := ⟨r.stream, r.position, r.encoded⟩

namespace Log

/-- The plain store that a log stands for. -/
def plain (log : Log) : PlainStore := fun x =>
  ⟨(log.historyOf x).map (·.record.encoded), decide (x ∈ log.deleted)⟩

/-- Whether a log stands for the store as far as plain names go. -/
def Models (log : Log) (store : PlainStore) : Prop := ∀ x, IsPlainName x → log.plain x = store x

theorem length_plain (log : Log) (x : String) :
    (log.plain x).events.length = log.size (.stream x) := by
  rw [size_stream]
  exact List.length_map ..

section Coherent

variable {log : Log} (hc : log.Coherent) {x : String} (hx : IsPlainName x)

include hc hx

theorem Coherent.plain_version? (hd : x ∉ log.deleted) :
    (log.plain x).version? = log.versions.get? x := by
  rw [hc.versions_eq x hx.not_tombstone hd, ← length_plain, PlainStream.version?]
  simp only [List.length_eq_zero_iff]

/-- The records of a stream are its events, each at its index. -/
theorem Coherent.filed_historyOf :
    (log.historyOf x).map (·.record.filed) = log.plain.filed x := by
  have hpos := hc.position_recordsOf hx
  rw [recordsOf, List.map_map, List.length_map] at hpos
  refine List.ext_getElem ?_ fun i h₁ h₂ => ?_
  · simp [PlainStore.filed, plain]
  · simp only [List.length_map] at h₁
    have hi : (log.historyOf x)[i].record.position = i := by
      have := List.getElem_of_eq hpos (i := i) (by simpa using h₁)
      simpa using this
    have hs : (log.historyOf x)[i].record.stream = x :=
      of_decide_eq_true (List.mem_filter.1 (List.getElem_mem h₁)).2
    simp [PlainStore.filed, plain, Record.filed, hi, hs]

/-- Reading a stream that was not deleted gives its events from an index on. -/
theorem Coherent.read_eq (hd : x ∉ log.deleted) (start : Nat) :
    (log.read x start).map (List.map Record.filed) = .ok ((log.plain.filed x).drop start) := by
  rw [hc.read_records hx hd, ← PlainStore.filter_filed, ← hc.filed_historyOf hx, recordsOf,
    List.filter_map, List.filter_map]
  simp [Except.map, Function.comp_def, Record.filed]

end Coherent

/-! ## Calls on plain names -/

theorem models_empty : Log.empty.Models PlainStore.empty := fun _ _ => rfl

theorem plain_append {log log' : Log} {stream : String} {expected : Expectation}
    {events : List EncodedEvent} {time : Int} {version : Nat}
    (h : log.append stream expected events time = .ok (version, log')) :
    log'.plain = Function.update log.plain stream
      { log.plain stream with events := (log.plain stream).events ++ events } := by
  funext x
  simp only [plain, historyOf_append h, append_deleted h, List.map_append]
  by_cases hx : x = stream
  · subst hx
    simp only [if_true, encoded_newEntries, Function.update_self]
  · simp [hx, plain]

theorem plain_tombstone {log log' : Log} {stream : String} {time : Int}
    (h : log.tombstone stream time = .ok log') {x : String} (hx : IsPlainName x) :
    log'.plain x = Function.update log.plain stream { log.plain stream with deleted := true } x := by
  simp only [plain, historyOf_tombstone h hx.not_tombstone, tombstone_deleted h]
  by_cases hxs : x = stream
  · subst hxs
    simp
  · simp [hxs, plain]

/-- What is called on another stream leaves a stream as it is. -/
theorem plain_call_of_ne (log : Log) (time : Int) (c : StreamCall) {x : String}
    (hx : IsPlainName x) (hne : x ≠ c.stream) : (log.call time c).2.plain x = log.plain x := by
  cases c with
  | append stream expected events =>
      simp only [call]
      split
      · rename_i version log' h
        rw [plain_append h]
        exact Function.update_of_ne hne ..
      · rfl
  | read stream start => rfl
  | version stream => rfl
  | tombstone stream =>
      simp only [call]
      split
      · rename_i log' h
        rw [plain_tombstone h hx]
        exact Function.update_of_ne hne ..
      · rfl

theorem Models.update {log log' : Log} {store : PlainStore} (hm : log.Models store)
    {stream : String} {f : PlainStream → PlainStream} (hs : IsPlainName stream)
    (h : ∀ x, IsPlainName x →
      log'.plain x = Function.update log.plain stream (f (log.plain stream)) x) :
    log'.Models (Function.update store stream (f (store stream))) := by
  intro x hx
  rw [h x hx, hm stream hs]
  by_cases hxs : x = stream
  · subst hxs
    simp only [Function.update_self]
  · simp only [Function.update_of_ne hxs, hm x hx]

theorem call_of_deleted {log : Log} {c : StreamCall} (hd : c.stream ∈ log.deleted) (time : Int) :
    log.call time c = (c.failed (.streamDeleted c.stream), log) := by
  cases c with
  | append stream expected events =>
      simp only [StreamCall.stream] at hd
      simp only [call, append, if_pos hd]
      rfl
  | read stream start =>
      simp only [StreamCall.stream] at hd
      simp only [call, read, if_pos hd]
      rfl
  | version stream =>
      simp only [StreamCall.stream] at hd
      simp only [call, version?, if_pos hd]
      rfl
  | tombstone stream =>
      simp only [StreamCall.stream] at hd
      simp only [call, tombstone, if_pos hd]
      rfl

/-- A call on a plain name is answered as by the plain store, and leaves a log that stands for the
plain store after it. -/
theorem Models.call {log : Log} {store : PlainStore} (hm : log.Models store) (hc : log.Coherent)
    (time : Int) {c : StreamCall} (hx : IsPlainName c.stream) :
    (log.call time c).1.map Record.filed = (store.call c).1 ∧
      (log.call time c).2.Models (store.call c).2 := by
  have hst := hm c.stream hx
  have hdel : (store c.stream).deleted = decide (c.stream ∈ log.deleted) := by
    rw [← hst]
    rfl
  by_cases hd : c.stream ∈ log.deleted
  · have hcall : store.call c = (c.failed (.streamDeleted c.stream), store) := by
      simp [PlainStore.call, hdel, hd]
    rw [call_of_deleted hd, hcall]
    refine ⟨?_, hm⟩
    cases c <;> rfl
  have hnot : ¬ (store c.stream).deleted = true := by simpa [hdel] using hd
  have hlen : (store c.stream).events.length = (log.versions.get? c.stream).getD 0 := by
    rw [hc.version_eq hx.not_tombstone hd, ← length_plain, hst]
  have hver : (store c.stream).version? = log.versions.get? c.stream := by
    rw [← hst, hc.plain_version? hx hd]
  simp only [PlainStore.call]
  rw [if_neg hnot]
  cases c with
  | append stream expected events =>
      simp only [StreamCall.stream] at hx hd hlen hver
      simp only [StreamCall.stream, Log.call]
      by_cases he : expected.Matches ((log.versions.get? stream).getD 0)
      · obtain ⟨log', h⟩ := exists_append hd he events time
        rw [← hlen] at he h
        simp only [h, he, if_true]
        refine ⟨rfl, ?_⟩
        exact hm.update (f := fun t => { t with events := t.events ++ events }) hx
          fun x _ => congrFun (plain_append h) x
      · simp only [append, if_neg hd, if_neg he]
        rw [← hlen] at he
        simp only [he, if_false, hver]
        exact ⟨rfl, hm⟩
  | read stream start =>
      simp only [StreamCall.stream] at hx hd hst
      have hf : log.plain.filed stream = store.filed stream := by
        simp only [PlainStore.filed, hst]
      have hr := hc.read_eq hx hd start
      rw [hf] at hr
      exact ⟨congrArg StreamAnswer.records hr, hm⟩
  | version stream =>
      simp only [StreamCall.stream] at hd hver
      refine ⟨?_, hm⟩
      simp only [Log.call, version?, if_neg hd, StreamCall.stream, hver]
      rfl
  | tombstone stream =>
      simp only [StreamCall.stream] at hx hd
      obtain ⟨log', h⟩ := exists_tombstone hd time
      simp only [StreamCall.stream, Log.call]
      rw [h]
      refine ⟨rfl, ?_⟩
      exact hm.update (f := fun t => { t with deleted := true }) hx fun x hx => plain_tombstone h hx

end Log

/-! ## Runs -/

/-- The call on a plain name that a request makes. -/
def Request.plainCall? : Request → Option StreamCall
  | .call c => if IsPlainName c.stream then some c else none
  | _ => none

/-- What is answered to the calls on plain names among the requests. -/
def Server.plainAnswers (s : Server) : List Request → List (StreamAnswer FiledEvent)
  | [] => []
  | r :: rs =>
    (r.plainCall?.map fun c => (s.call c).1.map Record.filed).toList ++
      (s.serve r).2.plainAnswers rs

/-- What a plain store answers to the calls on plain names among the requests. -/
def PlainStore.answers (store : PlainStore) : List Request → List (StreamAnswer FiledEvent)
  | [] => []
  | r :: rs =>
    match r.plainCall? with
    | some c => (store.call c).1 :: answers (store.call c).2 rs
    | none => answers store rs

/-- What makes no call on a plain name leaves what the log stands for. -/
theorem Log.Models.serve {s : Server} {store : PlainStore} (hm : s.log.Models store) {r : Request}
    (hr : r.plainCall? = none) : (s.serve r).2.log.Models store := by
  by_cases h : ∃ c, r = .call c
  · obtain ⟨c, rfl⟩ := h
    intro x hx
    have hne : x ≠ c.stream := by
      rintro rfl
      simp [Request.plainCall?, hx] at hr
    have hl : (s.serve (.call c)).2.log = (s.log.call s.time c).2 := (s.call_eq c).2
    rw [hl, Log.plain_call_of_ne _ _ _ hx hne, hm x hx]
  · rw [s.serve_log_of_ne_call fun c hc => h ⟨c, hc⟩]
    exact hm

theorem Server.plainAnswers_eq {s : Server} {store : PlainStore} (hm : s.log.Models store)
    (hc : s.log.Coherent) (requests : List Request) :
    s.plainAnswers requests = store.answers requests := by
  induction requests generalizing s store with
  | nil => rfl
  | cons r rs ih =>
      have hc' := hc.before (s.serve_before r)
      simp only [plainAnswers, PlainStore.answers]
      cases hr : r.plainCall? with
      | none => exact ih (hm.serve hr) hc'
      | some c =>
          obtain ⟨rfl, hx⟩ : r = .call c ∧ IsPlainName c.stream := by
            cases r with
            | call d =>
                simp only [Request.plainCall?] at hr
                split at hr
                · rename_i hx
                  cases hr
                  exact ⟨rfl, hx⟩
                · cases hr
            | _ => cases hr
          obtain ⟨ha, hl⟩ := s.call_eq c
          obtain ⟨hanswer, hmodels⟩ := hm.call hc s.time hx
          rw [← hl] at hmodels
          simp only [Option.map_some, Option.toList_some, List.singleton_append, ha, hanswer]
          rw [← ih hmodels hc']
          rfl

/-- On plain names a server answers as a plain store does, whatever it is asked besides. -/
theorem Server.answers_eq_plain (now : Nat) (requests : List Request) :
    (Server.start now).plainAnswers requests = PlainStore.empty.answers requests :=
  Server.plainAnswers_eq Log.models_empty Log.coherent_empty requests

end EventSourcing
