import EventSourcing.Proofs.Group.Holdings
import EventSourcing.Proofs.Log.Coherence
import Mathlib.Tactic.Set

/-!
# Conservation in a group

What a group holds, with what was ever acknowledged and skipped, is just what the group ever handed
out, each record once; and below the cursor nothing of the log is missing (`Group.Conserved`).
-/

namespace EventSourcing

/-- What came out of a group so far. -/
structure GroupHistory where
  handedOut : List Delivery := []
  acknowledged : List RecordId := []
  skipped : List RecordId := []

/-- The last of the settled ids, as many as a group remembers. -/
def recent (ids : List RecordId) : List RecordId := ids.drop (ids.length - historyLength)

theorem addSettled_recent (ids : List RecordId) (id : RecordId) :
    addSettled (recent ids) id = recent (ids ++ [id]) := by
  have hpos : 0 < historyLength := by decide
  unfold addSettled recent
  rw [List.length_drop, List.length_append, List.length_singleton]
  split
  · rename_i h
    have hle : historyLength ≤ ids.length := by omega
    have hd : ids.length + 1 - historyLength = ids.length - historyLength + 1 := by omega
    rw [List.drop_drop, hd, List.drop_append_of_le_length (by omega)]
  · rename_i h
    have h₁ : ids.length - historyLength = 0 := by omega
    have h₂ : ids.length + 1 - historyLength = 0 := by omega
    rw [h₁, h₂, List.drop_zero, List.drop_zero]

/-- What is handed out in two turns keeps off the ids that are closed from the start, if it does so
in each turn. -/
theorem exists_handedOut_append {closed closed₁ : List RecordId} {ds ds₁ ds₂ : List Delivery}
    (hc : closed ⊆ closed₁) (h₁ : ∃ xs, ds₁ = ds ++ xs ∧ ∀ d ∈ xs, d.ackId ∉ closed)
    (h₂ : ∃ ys, ds₂ = ds₁ ++ ys ∧ ∀ d ∈ ys, d.ackId ∉ closed₁) :
    ∃ zs, ds₂ = ds ++ zs ∧ ∀ d ∈ zs, d.ackId ∉ closed := by
  obtain ⟨xs, rfl, hx⟩ := h₁
  obtain ⟨ys, rfl, hy⟩ := h₂
  refine ⟨xs ++ ys, List.append_assoc .., fun d hd => ?_⟩
  rcases List.mem_append.1 hd with hd | hd
  · exact hx d hd
  · exact fun hm => hy d hd (hc hm)

namespace Group

/-- The ids that a list of requests to settle does settle, in order. -/
def settling (step : Group → RecordId → Group) : Group → List RecordId → List RecordId
  | _, [] => []
  | g, id :: ids => (if g.isOutstanding id then [id] else []) ++ settling step (step g id) ids

/-- The ids that the group may never hand out again. -/
def closed (g : Group) (h : GroupHistory) : List RecordId :=
  ackIds g.parked ++ h.acknowledged ++ h.skipped

/-- All places where a record that was handed out may be. -/
def places (g : Group) (h : GroupHistory) : List RecordId :=
  g.unsettled ++ h.acknowledged ++ h.skipped

/-- Whether a delivery hands out a record of the scope, at its position there. -/
def IsGenuine (log : Log) (scope : Scope) (d : Delivery) : Prop :=
  ∃ e ∈ log.history, scope.position? e = some d.position ∧ d.record = e.record ∧
    d.ackId = e.record.id

structure Conserved (log : Log) (g : Group) (h : GroupHistory) : Prop where
  /-- No id is in two places, or twice in one. -/
  nodup : (g.places h).Nodup
  /-- In the places are the records that were handed out, and nothing else. -/
  mem_places : ∀ id, id ∈ g.places h ↔ id ∈ ackIds h.handedOut
  genuine : ∀ d ∈ h.handedOut, IsGenuine log g.scope d
  below_cursor : ∀ d ∈ h.handedOut, d.position < g.cursor
  /-- No record below the cursor was left out. -/
  reached : ∀ e ∈ log.entries, ∀ p, g.scope.position? e = some p → g.settings.startFrom ≤ p →
    p < g.cursor → e.record.id ∈ ackIds h.handedOut
  acknowledged_eq : g.acknowledged = recent h.acknowledged
  skipped_eq : g.skipped = recent h.skipped
  /-- What may be handed out again was handed out before. -/
  live : ∀ d ∈ g.live, ∃ d₀ ∈ h.handedOut, d.Repeats d₀
  cursor_le : g.cursor ≤ max g.settings.startFrom (log.size g.scope)

variable {log log' : Log} {g g' : Group} {h h' : GroupHistory} {d : Delivery}

/-- The next record is the lowest one that is not below the cursor. -/
theorem next?_eq_some (hl : log.Coherent) (hs : g.scope.IsSteady) {p : Nat} {e : Entry}
    (hn : g.next? log.entries = some (p, e)) :
    e ∈ log.entries ∧ g.scope.position? e = some p ∧ g.cursor ≤ p ∧
      ∀ e' ∈ log.entries, ∀ q, g.scope.position? e' = some q → g.cursor ≤ q → p ≤ q := by
  have ho := (hl.ordered hs).sublist hl.entries_sublist
  obtain ⟨before, e₀, rest, hes, hf, hb⟩ := List.findSome?_eq_some_iff.1 hn
  rw [hes] at ho ⊢
  split at hf
  · rename_i p₀ hp
    split at hf
    · rename_i hle
      simp only [Option.some.injEq, Prod.mk.injEq] at hf
      obtain ⟨rfl, rfl⟩ := hf
      refine ⟨by simp, hp, hle, fun e' he' q hq hcq => ?_⟩
      rcases List.mem_append.1 he' with he' | he'
      · have h := hb e' he'
        simp [hq, hcq] at h
      · rcases List.mem_cons.1 he' with rfl | he'
        · exact Nat.le_of_eq (Option.some.inj (hp.symm.trans hq))
        · have hlater := (List.pairwise_cons.1 (List.pairwise_append.1 ho).2.1).1
          exact Nat.le_of_lt (hlater e' he' _ hp q hq)
    · cases hf
  · cases hf

theorem conserved_new (log : Log) (scope : Scope) (settings : GroupSettings) :
    (new scope settings).Conserved log {} where
  nodup := List.nodup_nil
  mem_places _ := Iff.rfl
  genuine _ hd := by cases hd
  below_cursor _ hd := by cases hd
  reached e _ p _ hs hc := absurd hc (Nat.not_lt.2 hs)
  acknowledged_eq := rfl
  skipped_eq := rfl
  live _ hd := by cases hd
  cursor_le := Nat.le_max_left _ _

/-- A record that the group holds is moved to what was acknowledged or skipped. -/
structure Settled (g : Group) (h : GroupHistory) (d : Delivery) (g' : Group) (h' : GroupHistory) :
    Prop where
  frame : g' = { g with
    sent := g'.sent, retry := g'.retry, acknowledged := g'.acknowledged, skipped := g'.skipped }
  unsettled : g.unsettled.Perm (d.ackId :: g'.unsettled)
  live : g'.live ⊆ g.live
  perm : (h'.acknowledged ++ h'.skipped).Perm (d.ackId :: (h.acknowledged ++ h.skipped))
  handedOut : h'.handedOut = h.handedOut
  acknowledged : g'.acknowledged = recent h'.acknowledged
  skipped : g'.skipped = recent h'.skipped

theorem Settled.places (hs : Settled g h d g' h') : (g'.places h').Perm (g.places h) := by
  simp only [Group.places, List.append_assoc]
  exact (hs.perm.append_left _).trans
    (List.perm_middle.trans (hs.unsettled.symm.append_right _))

namespace Conserved

theorem unsettled_nodup (hc : g.Conserved log h) : g.unsettled.Nodup :=
  (List.nodup_append.1 (List.nodup_append.1 hc.nodup).1).1

/-- What is closed is not live. -/
theorem notMem_closed (hc : g.Conserved log h) (hd : d ∈ g.live) : d.ackId ∉ g.closed h := by
  have hn := hc.nodup
  have hl : d.ackId ∈ ackIds g.live := List.mem_map_of_mem hd
  have hp : g.places h = ackIds g.live ++ g.closed h := by
    simp only [places, closed, unsettled, Group.live, ackIds, List.map_append, List.append_assoc]
  rw [hp] at hn
  exact fun hm => (List.nodup_append.1 hn).2.2 _ hl _ hm rfl

theorem closed_subset (hc : g.Conserved log h) : g.closed h ⊆ ackIds h.handedOut := by
  intro id hid
  refine (hc.mem_places id).1 ?_
  simp only [closed, places, unsettled, List.mem_append] at hid ⊢
  rcases hid with (hid | hid) | hid
  · exact .inl (.inl (.inr hid))
  · exact .inl (.inr hid)
  · exact .inr hid

/-! ## Steps -/

/-- Moving records around changes nothing. -/
theorem rearranged (hc : g.Conserved log h) (hr : g.Rearranged g') : g'.Conserved log h where
  nodup := by
    have hp : (g'.places h).Perm (g.places h) := (hr.perm.append_right _).append_right _
    exact hp.nodup_iff.2 hc.nodup
  mem_places id := by
    have hp : (g'.places h).Perm (g.places h) := (hr.perm.append_right _).append_right _
    exact hp.mem_iff.trans (hc.mem_places id)
  genuine := hr.scope ▸ hc.genuine
  below_cursor := hr.cursor ▸ hc.below_cursor
  reached := by
    rw [hr.scope, hr.settings, hr.cursor]
    exact hc.reached
  acknowledged_eq := hr.acknowledged ▸ hc.acknowledged_eq
  skipped_eq := hr.skipped ▸ hc.skipped_eq
  live d hd := by
    obtain ⟨d₁, hd₁, h₁⟩ := hr.live d hd
    obtain ⟨d₀, hd₀, h₀⟩ := hc.live d₁ hd₁
    exact ⟨d₀, hd₀, h₁.trans h₀⟩
  cursor_le := by
    rw [hr.cursor, hr.settings, hr.scope]
    exact hc.cursor_le

/-- So does handing out once more what is live. -/
theorem again (hc : g.Conserved log h) (hd : d ∈ g.live) :
    g.Conserved log { h with handedOut := h.handedOut ++ [d] } := by
  obtain ⟨d₀, hd₀, hr⟩ := hc.live d hd
  have hmem : ∀ x ∈ h.handedOut ++ [d], ∃ x₀ ∈ h.handedOut, x.Repeats x₀ := by
    intro x hx
    rcases List.mem_append.1 hx with hx | hx
    · exact ⟨x, hx, .refl x⟩
    · obtain rfl := List.mem_singleton.1 hx
      exact ⟨d₀, hd₀, hr⟩
  have hids (id : RecordId) : id ∈ ackIds (h.handedOut ++ [d]) ↔ id ∈ ackIds h.handedOut := by
    rw [ackIds, List.map_append, List.mem_append, List.map_singleton, List.mem_singleton]
    refine ⟨?_, .inl⟩
    rintro (hid | rfl)
    · exact hid
    · exact hr.ackId ▸ List.mem_map_of_mem hd₀
  refine { hc with mem_places := ?_, genuine := ?_, below_cursor := ?_, reached := ?_, live := ?_ }
  · exact fun id => (hc.mem_places id).trans (hids id).symm
  · intro x hx
    obtain ⟨x₀, hx₀, hr⟩ := hmem x hx
    obtain ⟨e, he, hp, hrec, hid⟩ := hc.genuine x₀ hx₀
    exact ⟨e, he, hr.position ▸ hp, hr.record.trans hrec, hr.ackId.trans hid⟩
  · intro x hx
    obtain ⟨x₀, hx₀, hr⟩ := hmem x hx
    rw [hr.position]
    exact hc.below_cursor x₀ hx₀
  · exact fun e he p hp hs hlt => (hids _).2 (hc.reached e he p hp hs hlt)
  · intro x hx
    obtain ⟨x₀, hx₀, hr⟩ := hc.live x hx
    exact ⟨x₀, List.mem_append_left _ hx₀, hr⟩

/-- A record whose position is not below the cursor was never handed out. -/
theorem notMem_handedOut (hc : g.Conserved log h) (hl : log.Numbered) {e : Entry} {p : Nat}
    (he : e ∈ log.history) (hp : g.scope.position? e = some p) (hle : g.cursor ≤ p) :
    e.record.id ∉ ackIds h.handedOut := by
  intro hm
  obtain ⟨d, hd, hid⟩ := List.mem_map.1 hm
  obtain ⟨e', he', hp', -, hid'⟩ := hc.genuine d hd
  obtain rfl : e = e' := hl.id_unique he he' (hid.symm.trans hid')
  have hlt := hc.below_cursor d hd
  have heq : d.position = p := Option.some.inj (hp'.symm.trans hp)
  omega

/-- The next record is moved below the cursor and is in flight then. -/
theorem fresh (hc : g.Conserved log h) (hl : log.Coherent) (hs : g.scope.IsSteady) {e : Entry}
    {p : Nat} (hn : g.next? log.entries = some (p, e)) (now : Nat) :
    ({ g with cursor := p + 1 }.handOut (.first p e.record) now).Conserved log
      { h with handedOut := h.handedOut ++ [Delivery.first p e.record] } := by
  obtain ⟨he, hp, hle, hfirst⟩ := next?_eq_some hl hs hn
  have hmem := hl.entries_sublist.subset he
  set d := Delivery.first p e.record
  have hnew : d.ackId ∉ ackIds h.handedOut := hc.notMem_handedOut hl.toNumbered hmem hp hle
  have hplace : d.ackId ∉ g.places h := fun hm => hnew ((hc.mem_places _).1 hm)
  have hflight : d.ackId ∉ ackIds { g with cursor := p + 1 }.inFlight := fun hm =>
    hplace (by simp only [places, unsettled, List.mem_append]; exact .inl (.inl (.inl (.inl hm))))
  have hperm : (({ g with cursor := p + 1 }.handOut d now).places h).Perm
      (d.ackId :: g.places h) := ((handOut_perm hflight now).append_right _).append_right _
  have hids (id : RecordId) :
      id ∈ ackIds (h.handedOut ++ [d]) ↔ id = d.ackId ∨ id ∈ ackIds h.handedOut := by
    rw [ackIds, List.map_append, List.mem_append, List.map_singleton, List.mem_singleton, or_comm]
  refine ⟨?_, ?_, ?_, ?_, ?_, hc.acknowledged_eq, hc.skipped_eq, ?_, ?_⟩
  · exact hperm.nodup_iff.2 (List.nodup_cons.2 ⟨hplace, hc.nodup⟩)
  · intro id
    rw [hids, ← hc.mem_places id]
    exact hperm.mem_iff.trans List.mem_cons
  · intro x hx
    rcases List.mem_append.1 hx with hx | hx
    · exact hc.genuine x hx
    · obtain rfl := List.mem_singleton.1 hx
      exact ⟨e, hmem, hp, rfl, rfl⟩
  · intro x hx
    rcases List.mem_append.1 hx with hx | hx
    · exact Nat.lt_succ_of_lt (Nat.lt_of_lt_of_le (hc.below_cursor x hx) hle)
    · obtain rfl := List.mem_singleton.1 hx
      exact Nat.lt_succ_self p
  · intro e' he' q hq hsq hlt
    rw [hids]
    by_cases hqc : q < g.cursor
    · exact .inr (hc.reached e' he' q hq hsq hqc)
    · obtain rfl : p = q :=
        Nat.le_antisymm (hfirst e' he' q hq (Nat.not_lt.1 hqc)) (Nat.lt_succ_iff.1 hlt)
      have hee := hl.entry_unique hs (hl.entries_sublist.subset he') hmem hq hp
      exact .inl (by rw [hee]; rfl)
  · intro x hx
    rcases List.mem_cons.1 (live_handOut hflight now hx) with rfl | hx
    · exact ⟨d, by simp, .refl d⟩
    · obtain ⟨x₀, hx₀, hr⟩ := hc.live x hx
      exact ⟨x₀, List.mem_append_left _ hx₀, hr⟩
  · exact Nat.le_trans (hl.lt_size hs hmem hp) (Nat.le_max_right _ _)

/-- Settling a record moves it to what was acknowledged or skipped. -/
theorem settled (hc : g.Conserved log h) (hs : Settled g h d g' h') : g'.Conserved log h' where
  nodup := hs.places.nodup_iff.2 hc.nodup
  mem_places id := by
    rw [hs.handedOut]
    exact hs.places.mem_iff.trans (hc.mem_places id)
  genuine := by
    rw [hs.handedOut, hs.frame]
    exact hc.genuine
  below_cursor := by
    rw [hs.handedOut, hs.frame]
    exact hc.below_cursor
  reached := by
    rw [hs.handedOut, hs.frame]
    exact hc.reached
  acknowledged_eq := hs.acknowledged
  skipped_eq := hs.skipped
  live x hx := by
    rw [hs.handedOut]
    exact hc.live x (hs.live hx)
  cursor_le := by
    rw [hs.frame]
    exact hc.cursor_le

/-- A log that goes on changes nothing for a group. -/
theorem grow (hc : g.Conserved log h) (hl : log.Coherent) (hl' : log'.Coherent)
    (hs : g.scope.IsSteady) (hstep : log.Step log') : g.Conserved log' h := by
  obtain ⟨news, hn, hentries⟩ := hstep.entries
  refine { hc with genuine := ?_, reached := ?_, cursor_le := ?_ }
  · intro d hd
    obtain ⟨e, he, hg⟩ := hc.genuine d hd
    exact ⟨e, hstep.history.subset he, hg⟩
  · intro e he p hp hsp hlt
    rcases hentries e he with he | he
    · exact hc.reached e he p hp hsp hlt
    · have hle := hl.size_le hl'.toNumbered hs hn he hp
      have hcur := hc.cursor_le
      omega
  · have hle := hstep.size_le g.scope
    have hcur := hc.cursor_le
    omega

end Conserved

/-! ## Operations -/

/-- What an operation makes of a group that conserves its records: it closes more of them, and hands
out none that is closed. -/
structure Advanced (log : Log) (g : Group) (h : GroupHistory) (g' : Group) (h' : GroupHistory) :
    Prop where
  scope : g'.scope = g.scope
  conserved : g'.Conserved log h'
  closed : g.closed h ⊆ g'.closed h'
  handedOut : ∃ ds, h'.handedOut = h.handedOut ++ ds ∧ ∀ d ∈ ds, d.ackId ∉ g.closed h

theorem Advanced.trans {g₁ : Group} {h₁ : GroupHistory} (h₀₁ : Advanced log g h g₁ h₁)
    (h₁₂ : Advanced log g₁ h₁ g' h') : Advanced log g h g' h' where
  scope := h₁₂.scope.trans h₀₁.scope
  conserved := h₁₂.conserved
  closed _ hid := h₁₂.closed (h₀₁.closed hid)
  handedOut := exists_handedOut_append h₀₁.closed h₀₁.handedOut h₁₂.handedOut

theorem Rearranged.closed (hr : g.Rearranged g') (h : GroupHistory) :
    g.closed h ⊆ g'.closed h := by
  intro id hid
  simp only [Group.closed, List.mem_append] at hid ⊢
  exact hid.imp_left (.imp_left fun hp => hr.parked hp)

namespace Conserved

theorem advanced_rearranged (hc : g.Conserved log h) (hr : g.Rearranged g') :
    Advanced log g h g' h :=
  ⟨hr.scope, hc.rearranged hr, hr.closed h, [], (List.append_nil _).symm, fun _ hd => by cases hd⟩

theorem polled (hc : g.Conserved log h) (hl : log.Coherent) (hs : g.scope.IsSteady)
    {o : Option Delivery} (hp : g.Polled log.entries o g') :
    Advanced log g h g' { h with handedOut := h.handedOut ++ o.toList } := by
  cases hp with
  | idle hr =>
      rw [Option.toList_none, List.append_nil]
      exact hc.advanced_rearranged hr
  | @again _ d hr hd =>
      have hc' := hc.rearranged hr
      refine ⟨hr.scope, hc'.again hd, hr.closed h, [d], rfl, fun x hx => ?_⟩
      obtain rfl := List.mem_singleton.1 hx
      exact fun hm => hc'.notMem_closed hd (hr.closed h hm)
  | @fresh g₁ p e hr hn now =>
      have hc' := hc.rearranged hr
      have hs' : g₁.scope.IsSteady := by rwa [hr.scope]
      refine ⟨hr.scope, hc'.fresh hl hs' hn now, hr.closed h, [.first p e.record], rfl, fun x hx => ?_⟩
      obtain rfl := List.mem_singleton.1 hx
      obtain ⟨he, hp, hle, -⟩ := next?_eq_some hl hs' hn
      have hnew := hc'.notMem_handedOut hl.toNumbered (hl.entries_sublist.subset he) hp hle
      exact fun hm => hnew (hc.closed_subset hm)

theorem recallAll (hc : g.Conserved log h) : Advanced log g h g.recallAll h :=
  hc.advanced_rearranged g.recallAll_rearranged

theorem advanced_settled (hc : g.Conserved log h) (hs : Settled g h d g' h') :
    Advanced log g h g' h' where
  scope := by rw [hs.frame]
  conserved := hc.settled hs
  closed := by
    have hp : g'.parked = g.parked := by rw [hs.frame]
    intro id hid
    simp only [Group.closed, hp, List.append_assoc] at hid ⊢
    rw [List.mem_append] at hid ⊢
    exact hid.imp_right fun hm => hs.perm.mem_iff.2 (List.mem_cons_of_mem _ hm)
  handedOut := ⟨[], by rw [hs.handedOut, List.append_nil], fun _ hd => by cases hd⟩

theorem ackOne (hc : g.Conserved log h) (id : RecordId) :
    Advanced log g h (g.ackOne id)
      { h with acknowledged := h.acknowledged ++ if g.isOutstanding id then [id] else [] } := by
  unfold Group.ackOne isOutstanding
  cases ht : g.takeBack? id with
  | none => simpa using hc.advanced_rearranged (.refl g)
  | some x =>
      obtain ⟨d, g₁⟩ := x
      obtain ⟨rfl, hr⟩ := takeBack?_released hc.unsettled_nodup ht
      have hack : g₁.acknowledged = g.acknowledged := by rw [hr.frame]
      have hskip : g₁.skipped = g.skipped := by rw [hr.frame]
      simp only [Option.isSome_some, if_true]
      refine hc.advanced_settled ⟨by rw [hr.frame], hr.perm, hr.live, ?_, rfl, ?_,
        hskip.trans hc.skipped_eq⟩
      · simp only [List.append_assoc]
        exact List.perm_middle
      · rw [hack, hc.acknowledged_eq, addSettled_recent]

theorem skipOne (hc : g.Conserved log h) (id : RecordId) :
    Advanced log g h (g.nackOne .skip id)
      { h with skipped := h.skipped ++ if g.isOutstanding id then [id] else [] } := by
  unfold nackOne isOutstanding
  cases ht : g.takeBack? id with
  | none => simpa using hc.advanced_rearranged (.refl g)
  | some x =>
      obtain ⟨d, g₁⟩ := x
      obtain ⟨rfl, hr⟩ := takeBack?_released hc.unsettled_nodup ht
      have hack : g₁.acknowledged = g.acknowledged := by rw [hr.frame]
      have hskip : g₁.skipped = g.skipped := by rw [hr.frame]
      simp only [Option.isSome_some, if_true]
      refine hc.advanced_settled ⟨by rw [hr.frame], hr.perm, hr.live, ?_, rfl,
        hack.trans hc.acknowledged_eq, ?_⟩
      · simp only [← List.append_assoc]
        exact List.perm_append_singleton _ _
      · rw [hskip, hc.skipped_eq, addSettled_recent]

theorem ack (hc : g.Conserved log h) (ids : List RecordId) :
    Advanced log g h (g.ack ids)
      { h with acknowledged := h.acknowledged ++ settling Group.ackOne g ids } := by
  induction ids generalizing g h with
  | nil => simpa [Group.ack, settling] using hc.advanced_rearranged (.refl g)
  | cons id ids ih =>
      have h₁ := hc.ackOne id
      have h₂ := ih h₁.conserved
      simp only [List.append_assoc] at h₂
      exact h₁.trans h₂

theorem skip (hc : g.Conserved log h) (ids : List RecordId) :
    Advanced log g h (g.nack ids .skip)
      { h with skipped := h.skipped ++ settling (nackOne .skip) g ids } := by
  induction ids generalizing g h with
  | nil => simpa [Group.nack, settling] using hc.advanced_rearranged (.refl g)
  | cons id ids ih =>
      have h₁ := hc.skipOne id
      have h₂ := ih h₁.conserved
      simp only [List.append_assoc] at h₂
      exact h₁.trans h₂

theorem nack {action : Refusal} (hc : g.Conserved log h) (ha : action ≠ .skip)
    (ids : List RecordId) : Advanced log g h (g.nack ids action) h :=
  hc.advanced_rearranged (nack_rearranged hc.unsettled_nodup ha ids)

end Conserved

end Group

end EventSourcing
