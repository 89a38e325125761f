import EventSourcing.Proofs.Subscription.Pending
import EventSourcing.Subscription.Loop

/-!
# What a subscription has emitted

Below its position, a catch-up subscription has emitted the records of its scope that the consumer
has to get, in order and without a hole (`Log.Emitted`). This is kept when the first of the records
that are still to come is emitted or passed over, and when more is written.
-/

namespace EventSourcing

variable {E : Type}

theorem Verdict.eq_deliver {v : Verdict E} {record : Record E} (h : v.delivered? = some record) :
    v = .deliver record := by
  cases v with
  | deliver r => exact congrArg _ (Option.some.inj h)
  | _ => cases h

/-- How a record that is delivered for the first time goes to the consumer. -/
def Emission.first (record : Record E) (id : RecordId) : Emission E := ⟨record, id, 0⟩

/-- Below a position, `emitted` are the records of the scope that have to be emitted, in order. -/
structure Log.Emitted [DomainEvent E] (log : Log) (scope : Scope) (initial position : Nat)
    (emitted : List (Nat × Emission E)) : Prop where
  sorted : (emitted.map (·.1)).Pairwise (· < ·)
  below : ∀ x ∈ emitted, x.1 < position
  genuine : ∀ x ∈ emitted, ∃ e ∈ log.history, scope.position? e = some x.1 ∧
    ∃ record, Verdict.of E e.record = .deliver record ∧ x.2 = .first record e.record.id
  complete : ∀ e ∈ log.history, ∀ p record, scope.position? e = some p → initial ≤ p →
    p < position → Verdict.of E e.record = .deliver record → e.record.stream ∉ log.deleted →
    (p, .first record e.record.id) ∈ emitted

namespace Log.Emitted

variable [DomainEvent E] {log log' : Log} {scope : Scope} {initial position : Nat}
  {emitted : List (Nat × Emission E)} {e : Entry} {p : Nat} {ds : List Delivery}

theorem nil (log : Log) (scope : Scope) (initial : Nat) :
    log.Emitted scope initial 0 ([] : List (Nat × Emission E)) where
  sorted := List.Pairwise.nil
  below _ hx := by cases hx
  genuine _ hx := by cases hx
  complete _ _ _ _ _ _ hlt := absurd hlt (Nat.not_lt_zero _)

/-- An entry below the next position is below the last one or is the one between. -/
theorem eq_or_lt (hl : log.Numbered) (hs : scope.IsSteady)
    (hp : log.Pending scope initial position (.first p e.record :: ds)) (he : e ∈ log.history)
    (hpos : scope.position? e = some p) {e' : Entry} (he' : e' ∈ log.history) {q : Nat}
    (hq : scope.position? e' = some q) (hi : initial ≤ q) (hlt : q < p + 1)
    (hd : e'.record.stream ∉ log.deleted) : q < position ∨ (e' = e ∧ q = p) := by
  by_cases hle : position ≤ q
  · have hge : p ≤ q := hp.position_le hl hs he' hq hi hle hd
    obtain rfl : q = p := by omega
    exact .inr ⟨hl.entry_unique hs he' he hq hpos, rfl⟩
  · exact .inl (Nat.not_le.1 hle)

/-- A record that the consumer does not get is dealt with by itself. -/
theorem pass (h : log.Emitted scope initial position emitted) (hl : log.Numbered)
    (hs : scope.IsSteady) (hp : log.Pending scope initial position (.first p e.record :: ds))
    (he : e ∈ log.history) (hpos : scope.position? e = some p)
    (hv : (Verdict.of E e.record).delivered? = none) :
    log.Emitted scope initial (p + 1) emitted where
  sorted := h.sorted
  below x hx := Nat.lt_succ_of_le
    (Nat.le_of_lt (Nat.lt_of_lt_of_le (h.below x hx) (hp.le _ List.mem_cons_self)))
  genuine := h.genuine
  complete e' he' q record hq hi hlt hv' hd := by
    rcases eq_or_lt hl hs hp he hpos he' hq hi hlt hd with hlt | ⟨rfl, rfl⟩
    · exact h.complete e' he' q record hq hi hlt hv' hd
    · rw [hv'] at hv
      cases hv

theorem emit (h : log.Emitted scope initial position emitted) (hl : log.Numbered)
    (hs : scope.IsSteady) (hp : log.Pending scope initial position (.first p e.record :: ds))
    (he : e ∈ log.history) (hpos : scope.position? e = some p) {record : Record E}
    (hv : Verdict.of E e.record = .deliver record) :
    log.Emitted scope initial (p + 1) (emitted ++ [(p, .first record e.record.id)]) where
  sorted := by
    rw [List.map_append, List.pairwise_append]
    refine ⟨h.sorted, List.pairwise_singleton _ _, fun q hq q' hq' => ?_⟩
    obtain ⟨x, hx, rfl⟩ := List.mem_map.1 hq
    obtain rfl := List.mem_singleton.1 hq'
    exact Nat.lt_of_lt_of_le (h.below x hx) (hp.le _ List.mem_cons_self)
  below x hx := by
    rcases List.mem_append.1 hx with hx | hx
    · exact Nat.lt_succ_of_le
        (Nat.le_of_lt (Nat.lt_of_lt_of_le (h.below x hx) (hp.le _ List.mem_cons_self)))
    · obtain rfl := List.mem_singleton.1 hx
      exact Nat.lt_succ_self p
  genuine x hx := by
    rcases List.mem_append.1 hx with hx | hx
    · exact h.genuine x hx
    · obtain rfl := List.mem_singleton.1 hx
      exact ⟨e, he, hpos, record, hv, rfl⟩
  complete e' he' q record' hq hi hlt hv' hd := by
    rcases eq_or_lt hl hs hp he hpos he' hq hi hlt hd with hlt | ⟨rfl, rfl⟩
    · exact List.mem_append_left _ (h.complete e' he' q record' hq hi hlt hv' hd)
    · obtain rfl := Verdict.deliver.inj (hv.symm.trans hv')
      exact List.mem_append_right _ (List.mem_singleton_self _)

theorem grow (h : log.Emitted scope initial position emitted) (hl : log.Numbered)
    (hl' : log'.Numbered) (hs : scope.IsSteady) (hle : position ≤ log.size scope)
    (hdel : log.deleted ⊆ log'.deleted) {news : List Entry}
    (hn : log'.history = log.history ++ news) : log'.Emitted scope initial position emitted where
  sorted := h.sorted
  below := h.below
  genuine x hx := by
    obtain ⟨e, he, hx⟩ := h.genuine x hx
    exact ⟨e, hn ▸ List.mem_append_left _ he, hx⟩
  complete e he p record hp hi hlt hv hd := by
    rw [hn, List.mem_append] at he
    rcases he with he | he
    · exact h.complete e he p record hp hi hlt hv fun hm => hd (hdel hm)
    · have hge := hl.size_le hl' hs hn he hp
      omega

/-- What has to be emitted is emitted exactly once. -/
theorem filter_eq (h : log.Emitted scope initial position emitted) {x : Nat × Emission E}
    (hx : x ∈ emitted) : emitted.filter (fun y => y.1 = x.1) = [x] := by
  have hs := List.pairwise_map.1 h.sorted
  obtain ⟨before, rest, rfl⟩ := List.append_of_mem hx
  rw [List.pairwise_append, List.pairwise_cons] at hs
  have hb : before.filter (fun y => y.1 = x.1) = [] := by
    refine List.filter_eq_nil_iff.2 fun y hy => ?_
    have hlt := hs.2.2 y hy x List.mem_cons_self
    simpa using Nat.ne_of_lt hlt
  have hr : rest.filter (fun y => y.1 = x.1) = [] := by
    refine List.filter_eq_nil_iff.2 fun y hy => ?_
    have hlt := hs.2.1.1 y hy
    simpa using Nat.ne_of_gt hlt
  simp [hb, hr]

end Log.Emitted

end EventSourcing
