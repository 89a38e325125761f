import EventSourcing.Proofs.Log.Coherence
import Mathlib.Data.List.TakeWhile
import Mathlib.Tactic.Set

/-!
# What a catch-up reader has before it

A catch-up reader hands out first its backlog and then what the live feed brings. Both together
(`CatchUp.upcoming`) are, in order, records of its scope, and none is missing that can still be read
(`Log.Pending`). Polls take the first of them away; writing adds to their end.
-/

namespace EventSourcing

/-- The first deliveries of those entries that belong to the scope. -/
def Scope.deliveries (scope : Scope) (es : List Entry) : List Delivery :=
  es.filterMap fun e => (scope.position? e).map fun p => .first p e.record

namespace Scope

variable (scope : Scope)

theorem mem_deliveries {es : List Entry} {d : Delivery} : d ∈ scope.deliveries es ↔
    ∃ e ∈ es, ∃ p, scope.position? e = some p ∧ d = .first p e.record := by
  simp only [deliveries, List.mem_filterMap, Option.map_eq_some_iff]
  simp only [eq_comm]

theorem deliveries_append (es fs : List Entry) :
    scope.deliveries (es ++ fs) = scope.deliveries es ++ scope.deliveries fs :=
  List.filterMap_append

theorem deliveries_cons_some {e : Entry} {p : Nat} (h : scope.position? e = some p)
    (es : List Entry) : scope.deliveries (e :: es) = .first p e.record :: scope.deliveries es := by
  simp only [deliveries, List.filterMap_cons, h, Option.map_some]

/-- Entries of other scopes bring nothing. -/
theorem deliveries_dropWhile (es : List Entry) :
    scope.deliveries (es.dropWhile fun e => (scope.position? e).isNone) = scope.deliveries es := by
  induction es with
  | nil => rfl
  | cons e es ih =>
      cases h : scope.position? e with
      | none =>
          rw [List.dropWhile_cons_of_pos (by rw [h]; rfl), ih]
          simp only [deliveries, List.filterMap_cons, h, Option.map_none]
      | some p => rw [List.dropWhile_cons_of_neg (by rw [h]; exact Bool.false_ne_true)]

end Scope

/-! ## Readers -/

namespace CatchUp

/-- All that the reader hands out if nothing more is written. -/
def upcoming (c : CatchUp) (log : Log) : List Delivery :=
  c.backlog ++ c.scope.deliveries (log.history.drop c.next)

variable {s : Server} {c c' : CatchUp} {d : Delivery}

theorem toList_unread (s : Server) (c : CatchUp) :
    (s.log.written.extract c.next).toList = s.log.history.drop c.next := by
  rw [Array.toList_extract, Log.history, List.extract_eq_take_drop]
  exact List.take_of_length_le (by simp)

/-- What a poll leaves of a reader: it takes `ds` from what is before the reader. -/
structure Consumes (log : Log) (c : CatchUp) (ds : List Delivery) (c' : CatchUp) : Prop where
  scope : c'.scope = c.scope
  next_le : c.next ≤ log.history.length → c'.next ≤ log.history.length
  upcoming : c.upcoming log = ds ++ c'.upcoming log

theorem drop_takeWhile_length {α : Type} (p : α → Bool) (l : List α) :
    l.drop (l.takeWhile p).length = l.dropWhile p := by
  have h := congrArg (List.drop (l.takeWhile p).length)
    (List.takeWhile_append_dropWhile (p := p) (l := l))
  rw [List.drop_left] at h
  exact h.symm

/-- Asking the feed takes the next record of the scope, or finds that there is none. -/
theorem pollFeed_consumes (hb : c.backlog = []) {p : Poll} (h : c.pollFeed s = (p, c'))
    (hp : ∀ e, p ≠ .failed e) : ∃ ds, c.Consumes s.log ds c' ∧
      ((∃ d, p = .delivery d ∧ ds = [d]) ∨ (∀ d, p ≠ .delivery d) ∧ ds = []) := by
  have hsize : s.log.history.length = s.log.written.size := Array.length_toList
  have hup : c.upcoming s.log = c.scope.deliveries (s.log.history.drop c.next) := by
    rw [upcoming, hb, List.nil_append]
  rw [← Scope.deliveries_dropWhile] at hup
  unfold pollFeed at h
  simp only [toList_unread, drop_takeWhile_length] at h
  split at h
  · obtain ⟨rfl, -⟩ := Prod.mk.inj h
    exact absurd rfl (hp _)
  · split at h
    · rename_i hnil
      obtain ⟨rfl, rfl⟩ := Prod.mk.inj h
      refine ⟨[], ⟨rfl, fun _ => Nat.le_of_eq hsize.symm, ?_⟩, .inr ⟨fun d => ?_, rfl⟩⟩
      · rw [hup, hnil, upcoming, hb, ← hsize, List.drop_length]
        rfl
      · split <;> exact Poll.noConfusion
    · rename_i e rest hrest
      obtain ⟨rfl, rfl⟩ := Prod.mk.inj h
      have he := List.head?_dropWhile_not (fun e => (c.scope.position? e).isNone)
        (s.log.history.drop c.next)
      rw [hrest] at he
      obtain ⟨q, hq⟩ := Option.isSome_iff_exists.1 (Option.isNone_eq_false_iff.1 he)
      have hdrop := congrArg (List.drop 1) (drop_takeWhile_length
        (fun e => (c.scope.position? e).isNone) (s.log.history.drop c.next))
      rw [hrest, List.drop_drop, List.drop_drop] at hdrop
      have hlt := congrArg List.length hrest
      rw [← drop_takeWhile_length, List.drop_drop, List.length_drop, List.length_cons] at hlt
      refine ⟨[_], ⟨rfl, fun _ => ?_, ?_⟩, .inl ⟨_, rfl, rfl⟩⟩
      · show c.next + _ + 1 ≤ _
        omega
      rw [hup, hrest, upcoming, hb, List.nil_append, Nat.add_assoc, hdrop,
        Scope.deliveries_cons_some _ hq, hq]
      rfl

theorem poll_consumes {p : Poll} (h : c.poll s = (p, c')) (hp : ∀ e, p ≠ .failed e) :
    ∃ ds, c.Consumes s.log ds c' ∧
      ((∃ d, p = .delivery d ∧ ds = [d]) ∨ (∀ d, p ≠ .delivery d) ∧ ds = []) := by
  unfold poll at h
  split at h
  · obtain ⟨rfl, -⟩ := Prod.mk.inj h
    exact absurd rfl (hp _)
  · split at h
    · rename_i d rest hb
      obtain ⟨rfl, rfl⟩ := Prod.mk.inj h
      refine ⟨[d], ⟨rfl, fun hle => hle, ?_⟩, .inl ⟨d, rfl, rfl⟩⟩
      rw [upcoming, hb]
      rfl
    · rename_i hb
      exact pollFeed_consumes hb h hp

/-- What is written comes after all that is before the reader already. -/
theorem upcoming_grow {log log' : Log} {news : List Entry} (hn : log'.history = log.history ++ news)
    (hle : c.next ≤ log.history.length) :
    c.upcoming log' = c.upcoming log ++ c.scope.deliveries news := by
  rw [upcoming, upcoming, hn, List.drop_append_of_le_length hle, Scope.deliveries_append,
    List.append_assoc]

theorem backlog_eq (log : Log) (scope : Scope) (start : Nat) :
    ((log.entriesFrom scope start).map fun (p, e) => Delivery.first p e.record) =
      (scope.deliveries log.entries).filter fun d => start ≤ d.position := by
  unfold Log.entriesFrom Scope.deliveries
  induction log.entries with
  | nil => rfl
  | cons e es ih =>
      cases hp : scope.position? e with
      | none => simpa [hp] using ih
      | some p =>
          by_cases hle : start ≤ p
          · simpa [hp, hle, Delivery.first] using ih
          · simpa [hp, hle, Delivery.first] using ih

/-- A reader is opened unless it is turned away. -/
theorem openAt_eq (s : Server) (stream : String) (start : Option Nat) :
    openAt s stream start =
      match s.turnAways with
      | 0 =>
        (.ok ⟨.ofName stream, (s.log.entriesFrom (.ofName stream) (start.getD 0)).map fun (p, e) =>
          .first p e.record, s.log.written.size, s.epoch⟩, s)
      | n + 1 => (.error (.connection "subscribe refused"), { s with turnAways := n }) := by
  rw [openAt, Server.letIn]
  cases s.turnAways <;> rfl

/-- What is before a reader that was just opened. -/
theorem openAt_eq_ok {stream : String} {start : Option Nat} {s' : Server}
    (h : openAt s stream start = (.ok c, s')) :
    s'.log = s.log ∧ c.scope = .ofName stream ∧ c.next = s.log.history.length ∧
      c.upcoming s.log = (c.scope.deliveries s.log.entries).filter
        fun d => start.getD 0 ≤ d.position := by
  have hl := s.openAt_log stream start
  rw [h] at hl
  unfold openAt at h
  split at h
  · cases (Prod.mk.inj h).1
  · rename_i s₁ hin
    have hlog : s₁.log = s.log := by
      have hlet := s.letIn_log
      rwa [hin] at hlet
    obtain ⟨hc, rfl⟩ := Prod.mk.inj h
    obtain rfl := Except.ok.inj hc
    refine ⟨hl, rfl, by simp [hlog, Log.history], ?_⟩
    simp only [upcoming, backlog_eq, hlog]
    rw [← Array.length_toList, ← Log.history, List.drop_length]
    exact List.append_nil _

end CatchUp

/-! ## What is still to come -/

/-- From a position on, `ds` are records of the scope in order, and all of them from `initial` on
that can still be read. -/
structure Log.Pending (log : Log) (scope : Scope) (initial position : Nat) (ds : List Delivery) :
    Prop where
  sublist : ds.Sublist (scope.deliveries log.history)
  le : ∀ d ∈ ds, position ≤ d.position
  covers : ∀ e ∈ log.history, ∀ p, scope.position? e = some p → initial ≤ p → position ≤ p →
    e.record.stream ∉ log.deleted → .first p e.record ∈ ds

namespace Log

variable {log log' : Log} {scope : Scope} {initial position : Nat} {d : Delivery}
  {ds : List Delivery}

theorem Numbered.deliveries_ordered (h : log.Numbered) (hs : scope.IsSteady) :
    (scope.deliveries log.history).Pairwise fun d d' => d.position < d'.position := by
  refine List.pairwise_filterMap.2 ((h.ordered hs).imp ?_)
  intro e e' ho d hd d' hd'
  obtain ⟨p, hp, rfl⟩ := Option.map_eq_some_iff.1 hd
  obtain ⟨p', hp', rfl⟩ := Option.map_eq_some_iff.1 hd'
  exact ho p hp p' hp'

/-- Once the first record is dealt with, those after it are left. -/
theorem Pending.tail (hl : log.Numbered) (hs : scope.IsSteady)
    (h : log.Pending scope initial position (d :: ds)) :
    log.Pending scope initial (d.position + 1) ds where
  sublist := (List.sublist_cons_self d ds).trans h.sublist
  le := (List.pairwise_cons.1 ((hl.deliveries_ordered hs).sublist h.sublist)).1
  covers e he p hp hi hlt hd := by
    have hle := h.le d List.mem_cons_self
    rcases List.mem_cons.1 (h.covers e he p hp hi (by omega) hd) with hm | hm
    · have hpos : p = d.position := congrArg Delivery.position hm
      omega
    · exact hm

/-- A record before the first one that is left cannot be read any more, or lies before `position`
or `initial`. -/
theorem Pending.position_le (hl : log.Numbered) (hs : scope.IsSteady)
    (h : log.Pending scope initial position (d :: ds)) {e : Entry} (he : e ∈ log.history) {p : Nat}
    (hp : scope.position? e = some p) (hi : initial ≤ p) (hle : position ≤ p)
    (hd : e.record.stream ∉ log.deleted) : d.position ≤ p := by
  rcases List.mem_cons.1 (h.covers e he p hp hi hle hd) with hm | hm
  · exact Nat.le_of_eq (congrArg Delivery.position hm).symm
  · have ho := (List.pairwise_cons.1 ((hl.deliveries_ordered hs).sublist h.sublist)).1
    exact Nat.le_of_lt (ho _ hm)

theorem Pending.grow (hl : log.Numbered) (hl' : log'.Numbered) (hs : scope.IsSteady)
    (h : log.Pending scope initial position ds) (hle : position ≤ log.size scope)
    (hdel : log.deleted ⊆ log'.deleted) {news : List Entry}
    (hn : log'.history = log.history ++ news) :
    log'.Pending scope initial position (ds ++ scope.deliveries news) where
  sublist := by
    rw [hn, Scope.deliveries_append]
    exact h.sublist.append (List.Sublist.refl _)
  le d hd := by
    rcases List.mem_append.1 hd with hd | hd
    · exact h.le d hd
    · obtain ⟨e, he, p, hp, rfl⟩ := scope.mem_deliveries.1 hd
      exact Nat.le_trans hle (hl.size_le hl' hs hn he hp)
  covers e he p hp hi hlt hd := by
    rw [hn, List.mem_append] at he
    rcases he with he | he
    · exact List.mem_append_left _ (h.covers e he p hp hi hlt fun hm => hd (hdel hm))
    · exact List.mem_append_right _ (scope.mem_deliveries.2 ⟨e, he, p, hp, rfl⟩)

/-- All that can be read from a position on. -/
theorem Coherent.pending (hl : log.Coherent) {start : Nat} (hle : position ≤ start)
    (hstart : start = initial ∨ start = position) : log.Pending scope initial position
      ((scope.deliveries log.entries).filter fun d => start ≤ d.position) where
  sublist := List.filter_sublist.trans (hl.entries_sublist.filterMap _)
  le d hd := Nat.le_trans hle (of_decide_eq_true (List.mem_filter.1 hd).2)
  covers e he p hp hi hlt hd := by
    have hsp : start ≤ p := by omega
    exact List.mem_filter.2 ⟨scope.mem_deliveries.2 ⟨e, hl.mem_entries he hd, p, hp, rfl⟩,
      decide_eq_true hsp⟩

end Log

end EventSourcing
