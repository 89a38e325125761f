import EventSourcing.Log.Group
import Mathlib.Data.List.Perm.Basic

/-!
# What a group holds

A group holds the records that it has handed out and that are not settled: in flight, in the retry
queue, or parked. Every operation on a group moves ids between these places, takes one out to settle
it, or hands out a new record; none copies or drops an id.
-/

namespace EventSourcing

/-- Whether the one delivery hands out the record of the other, perhaps another time. -/
def Delivery.Repeats (d d₀ : Delivery) : Prop := d = { d₀ with retryCount := d.retryCount }

theorem Delivery.Repeats.refl (d : Delivery) : d.Repeats d := rfl

theorem Delivery.repeats_again (d : Delivery) : d.again.Repeats d := rfl

theorem Delivery.Repeats.trans {d₁ d₂ d₃ : Delivery} (h₁ : d₁.Repeats d₂) (h₂ : d₂.Repeats d₃) :
    d₁.Repeats d₃ := by
  unfold Repeats at *
  rw [h₁, h₂]

theorem Delivery.Repeats.ackId {d d₀ : Delivery} (h : d.Repeats d₀) : d.ackId = d₀.ackId := by
  rw [h]

theorem Delivery.Repeats.position {d d₀ : Delivery} (h : d.Repeats d₀) :
    d.position = d₀.position := by
  rw [h]

theorem Delivery.Repeats.record {d d₀ : Delivery} (h : d.Repeats d₀) : d.record = d₀.record := by
  rw [h]

/-- The ids of deliveries. -/
abbrev ackIds (ds : List Delivery) : List RecordId := ds.map (·.ackId)

namespace Group

/-- The deliveries in flight. -/
def inFlight (g : Group) : List Delivery := g.sent.map (·.delivery)

/-- What may be handed out again. -/
def live (g : Group) : List Delivery := g.inFlight ++ g.retry

/-- The ids of all records that the group holds. -/
def unsettled (g : Group) : List RecordId := ackIds g.inFlight ++ ackIds g.retry ++ ackIds g.parked

/-! ## Moving ids around -/

/-- The one group holds what the other holds, perhaps in other places. -/
structure Rearranged (g g' : Group) : Prop where
  frame : g' = { g with sent := g'.sent, retry := g'.retry, parked := g'.parked }
  perm : g'.unsettled.Perm g.unsettled
  live : ∀ d ∈ g'.live, ∃ d₀ ∈ g.live, d.Repeats d₀
  parked : ackIds g.parked ⊆ ackIds g'.parked

namespace Rearranged

variable {g g' g'' : Group}

theorem refl (g : Group) : g.Rearranged g :=
  ⟨rfl, .refl _, fun d h => ⟨d, h, .refl d⟩, fun _ h => h⟩

theorem trans (h₁ : g.Rearranged g') (h₂ : g'.Rearranged g'') : g.Rearranged g'' where
  frame := h₂.frame.trans (by rw [h₁.frame])
  perm := h₂.perm.trans h₁.perm
  live d hd := by
    obtain ⟨d₁, hd₁, hr₁⟩ := h₂.live d hd
    obtain ⟨d₀, hd₀, hr₀⟩ := h₁.live d₁ hd₁
    exact ⟨d₀, hd₀, hr₁.trans hr₀⟩
  parked := fun _ hx => h₂.parked (h₁.parked hx)

theorem scope (h : g.Rearranged g') : g'.scope = g.scope := by rw [h.frame]

theorem settings (h : g.Rearranged g') : g'.settings = g.settings := by rw [h.frame]

theorem cursor (h : g.Rearranged g') : g'.cursor = g.cursor := by rw [h.frame]

theorem acknowledged (h : g.Rearranged g') : g'.acknowledged = g.acknowledged := by rw [h.frame]

theorem skipped (h : g.Rearranged g') : g'.skipped = g.skipped := by rw [h.frame]

theorem nodup (h : g.Rearranged g') (hn : g.unsettled.Nodup) : g'.unsettled.Nodup :=
  h.perm.nodup_iff.2 hn

end Rearranged

/-! ## Taking out and putting in -/

/-- A delivery was taken out of the one group, which left the other. -/
structure Released (g g' : Group) (d : Delivery) : Prop where
  frame : g' = { g with sent := g'.sent, retry := g'.retry }
  perm : g.unsettled.Perm (d.ackId :: g'.unsettled)
  mem : d ∈ g.live
  live : g'.live ⊆ g.live

theorem Released.notMem {g g' : Group} {d : Delivery} (h : g.Released g' d)
    (hn : g.unsettled.Nodup) : d.ackId ∉ g'.unsettled :=
  (List.nodup_cons.1 (h.perm.nodup_iff.1 hn)).1

/-- A delivery that is taken out and put into another place is rearranged. -/
theorem Released.rearranged {g g₁ g' : Group} {d d' : Delivery} (h : g.Released g₁ d)
    (frame : g' = { g₁ with sent := g'.sent, retry := g'.retry, parked := g'.parked })
    (perm : g'.unsettled.Perm (d.ackId :: g₁.unsettled)) (hd : d'.Repeats d)
    (live : g'.live ⊆ d' :: g₁.live) (parked : ackIds g₁.parked ⊆ ackIds g'.parked) :
    g.Rearranged g' where
  frame := frame.trans (by rw [h.frame])
  perm := perm.trans h.perm.symm
  live x hx := by
    rcases List.mem_cons.1 (live hx) with rfl | hx
    · exact ⟨d, h.mem, hd⟩
    · exact ⟨x, h.live hx, .refl x⟩
  parked := by
    have he : g₁.parked = g.parked := by rw [h.frame]
    rwa [he] at parked

theorem nodup_inFlight {g : Group} (hn : g.unsettled.Nodup) : (ackIds g.inFlight).Nodup :=
  (List.nodup_append.1 (List.nodup_append.1 hn).1).1

theorem nodup_live {g : Group} (hn : g.unsettled.Nodup) : (ackIds g.live).Nodup := by
  rw [live, ackIds, List.map_append]
  exact (List.nodup_append.1 hn).1

theorem ackIds_inFlight_dropSent {g : Group} (hn : g.unsettled.Nodup) (id : RecordId) :
    ackIds (g.dropSent id).inFlight = (ackIds g.inFlight).erase id := by
  rw [(nodup_inFlight hn).erase_eq_filter]
  simp only [ackIds, inFlight, dropSent, List.filter_map, List.map_map]
  congr 1
  refine List.filter_congr fun f _ => ?_
  by_cases h : f.delivery.ackId = id
  · simp [h]
  · simp [h]

theorem dropSent_released {g : Group} (hn : g.unsettled.Nodup) {d : Delivery}
    (h : d ∈ g.inFlight) : g.Released (g.dropSent d.ackId) d where
  frame := rfl
  perm := by
    have hm : d.ackId ∈ ackIds g.inFlight := List.mem_map_of_mem h
    simp only [unsettled, ackIds_inFlight_dropSent hn]
    exact ((List.perm_cons_erase hm).append_right _).append_right _
  mem := List.mem_append_left _ h
  live := by
    have hs : (g.dropSent d.ackId).inFlight ⊆ g.inFlight :=
      List.map_subset _ (List.filter_subset_self _)
    exact List.append_subset.2 ⟨fun x hx => List.mem_append_left _ (hs hx),
      List.subset_append_right _ _⟩

theorem eraseP_released {g : Group} {as bs : List Delivery} {d : Delivery}
    (h : g.retry = as ++ d :: bs) : g.Released { g with retry := as ++ bs } d where
  frame := rfl
  perm := by
    simp only [unsettled, h, ackIds, List.map_append, List.map_cons, List.append_assoc,
      List.cons_append, inFlight]
    rw [← List.append_assoc, ← List.append_assoc (List.map _ _) (List.map _ as)]
    exact List.perm_middle
  mem := List.mem_append_right _ (by rw [h]; exact List.mem_append_right _ List.mem_cons_self)
  live := by
    intro x hx
    simp only [live, inFlight, List.mem_append, h, List.mem_cons] at hx ⊢
    rcases hx with hx | hx | hx
    · exact .inl hx
    · exact .inr (.inl hx)
    · exact .inr (.inr (.inr hx))

/-- What is taken back was outstanding. -/
theorem takeBack?_released {g g' : Group} {id : RecordId} {d : Delivery} (hn : g.unsettled.Nodup)
    (h : g.takeBack? id = some (d, g')) : d.ackId = id ∧ g.Released g' d := by
  unfold takeBack? at h
  split at h
  · rename_i f hf
    simp only [Option.some.injEq, Prod.mk.injEq] at h
    obtain ⟨rfl, rfl⟩ := h
    obtain rfl : f.delivery.ackId = id := by simpa using List.find?_some hf
    exact ⟨rfl, dropSent_released hn (List.mem_map_of_mem (List.mem_of_find?_eq_some hf))⟩
  · split at h
    · rename_i d₀ hd
      simp only [Option.some.injEq, Prod.mk.injEq] at h
      obtain ⟨rfl, rfl⟩ := h
      obtain ⟨hp, as, bs, hr, has⟩ := List.find?_eq_some_iff_append.1 hd
      refine ⟨by simpa using hp, ?_⟩
      rw [hr, List.eraseP_append_right _ (by simpa using has), List.eraseP_cons, hp, cond_true]
      exact eraseP_released hr
    · cases h

/-! ## Handing out -/

theorem sent_dropSent_of_notMem {g : Group} {id : RecordId} (h : id ∉ ackIds g.inFlight) :
    (g.dropSent id).sent = g.sent := by
  refine List.filter_eq_self.2 fun f hf => decide_eq_true ?_
  rintro rfl
  exact h (List.mem_map.2 ⟨f.delivery, List.mem_map.2 ⟨f, hf, rfl⟩, rfl⟩)

theorem inFlight_handOut {g : Group} {d : Delivery} (h : d.ackId ∉ ackIds g.inFlight)
    (now : Nat) : (g.handOut d now).inFlight = g.inFlight ++ [d] := by
  simp only [inFlight, handOut, sent_dropSent_of_notMem h, List.map_append, List.map_cons,
    List.map_nil]

theorem handOut_perm {g : Group} {d : Delivery} (h : d.ackId ∉ ackIds g.inFlight) (now : Nat) :
    (g.handOut d now).unsettled.Perm (d.ackId :: g.unsettled) := by
  simp only [unsettled, inFlight_handOut h, ackIds, List.map_append, List.map_cons, List.map_nil,
    List.append_assoc, List.cons_append, List.nil_append]
  exact List.perm_middle

theorem live_handOut {g : Group} {d : Delivery} (h : d.ackId ∉ ackIds g.inFlight) (now : Nat) :
    (g.handOut d now).live ⊆ d :: g.live := by
  intro x hx
  simp only [live, inFlight_handOut h, List.append_assoc] at hx
  exact List.perm_middle.subset hx

theorem mem_live_handOut (g : Group) (d : Delivery) (now : Nat) : d ∈ (g.handOut d now).live := by
  simp [live, inFlight, handOut]

/-- A held delivery that is handed out again only changes its place. -/
theorem Released.again {g g₁ : Group} {d : Delivery} (h : g.Released g₁ d)
    (hn : g.unsettled.Nodup) (now : Nat) : g.Rearranged (g₁.handOut d.again now) := by
  have hf : d.again.ackId ∉ ackIds g₁.inFlight := fun hm =>
    h.notMem hn (List.mem_append_left _ (List.mem_append_left _ hm))
  exact h.rearranged rfl (handOut_perm hf now) d.repeats_again (live_handOut hf now) fun _ hx => hx

/-- A held delivery that is parked only changes its place. -/
theorem Released.park {g g₁ : Group} {d d' : Delivery} (h : g.Released g₁ d) (hd : d'.Repeats d) :
    g.Rearranged { g₁ with parked := g₁.parked ++ [d'] } := by
  refine h.rearranged rfl ?_ hd (List.subset_cons_self _ _) ?_
  · simp only [unsettled, ackIds, List.map_append, List.map_cons, List.map_nil, hd.ackId]
    rw [← List.append_assoc]
    exact List.perm_append_singleton _ _
  · simp only [ackIds, List.map_append]
    exact List.subset_append_left _ _

theorem ackIds_again (ds : List Delivery) : ackIds (ds.map Delivery.again) = ackIds ds := by
  rw [ackIds, List.map_map]
  rfl

/-- Parking deliveries from the retry queue only changes their places. -/
theorem park_rearranged {g : Group} {spent rest : List Delivery} (h : g.retry = spent ++ rest) :
    g.Rearranged { g with parked := g.parked ++ spent.map Delivery.again, retry := rest } where
  frame := rfl
  perm := by
    have hs : ackIds (spent.map Delivery.again) = ackIds spent := ackIds_again spent
    simp only [ackIds] at hs
    simp only [unsettled, h, inFlight, ackIds, List.map_append, hs, List.append_assoc]
    refine List.Perm.append_left _ ?_
    rw [← List.append_assoc]
    exact List.perm_append_comm
  live d hd := by
    refine ⟨d, ?_, .refl d⟩
    simp only [live, inFlight, List.mem_append, h] at hd ⊢
    rcases hd with hd | hd
    · exact .inl hd
    · exact .inr (.inr hd)
  parked := by
    simp only [ackIds, List.map_append]
    exact List.subset_append_left _ _

/-- What a group does when it is asked for a delivery. -/
inductive Polled (g : Group) (entries : List Entry) : Option Delivery → Group → Prop
  /-- It hands out nothing. -/
  | idle {g' : Group} (h : g.Rearranged g') : Polled g entries none g'
  /-- It hands out once more what it holds. -/
  | again {g' : Group} {d : Delivery} (h : g.Rearranged g') (hd : d ∈ g'.live) :
      Polled g entries (some d) g'
  /-- It hands out the next record of its scope. -/
  | fresh {g' : Group} {p : Nat} {e : Entry} (h : g.Rearranged g')
      (hn : g'.next? entries = some (p, e)) (now : Nat) :
      Polled g entries (some (.first p e.record))
        ({ g' with cursor := p + 1 }.handOut (.first p e.record) now)

theorem Rearranged.polled {g g' g'' : Group} {entries : List Entry} {o : Option Delivery}
    (hr : g.Rearranged g') (h : g'.Polled entries o g'') : g.Polled entries o g'' := by
  cases h with
  | idle h => exact .idle (hr.trans h)
  | again h hd => exact .again (hr.trans h) hd
  | fresh h hn now => exact .fresh (hr.trans h) hn now

theorem pollRetry_none {g g' : Group} {now : Nat} (h : g.pollRetry now = (none, g')) :
    g.Rearranged g' := by
  have hr : g.retry = g.retry.takeWhile g.isSpent ++ g.retry.dropWhile g.isSpent :=
    List.takeWhile_append_dropWhile.symm
  unfold pollRetry at h
  cases hd : g.retry.dropWhile g.isSpent with
  | cons d rest => simp [hd] at h
  | nil =>
      simp only [hd, Prod.mk.injEq, true_and] at h
      rw [hd] at hr
      rw [← h]
      exact park_rearranged hr

theorem pollRetry_some {g g' : Group} {now : Nat} {d : Delivery} (hn : g.unsettled.Nodup)
    (h : g.pollRetry now = (some d, g')) : g.Rearranged g' ∧ d ∈ g'.live := by
  have hr : g.retry = g.retry.takeWhile g.isSpent ++ g.retry.dropWhile g.isSpent :=
    List.takeWhile_append_dropWhile.symm
  unfold pollRetry at h
  cases hd : g.retry.dropWhile g.isSpent with
  | nil => simp [hd] at h
  | cons d₀ rest =>
      simp only [hd, Prod.mk.injEq, Option.some.injEq] at h
      obtain ⟨rfl, rfl⟩ := h
      rw [hd] at hr
      refine ⟨?_, mem_live_handOut ..⟩
      have hp := park_rearranged hr
      have ho := eraseP_released (g := { g with
        parked := g.parked ++ (g.retry.takeWhile g.isSpent).map Delivery.again
        retry := d₀ :: rest }) (List.nil_append (d₀ :: rest)).symm
      exact hp.trans (ho.again (hp.nodup hn) now)

theorem pollExpired_polled {g : Group} {f : Sent} (hn : g.unsettled.Nodup) (hf : f ∈ g.sent)
    (entries : List Entry) (now : Nat) :
    g.Polled entries (g.pollExpired f now).1 (g.pollExpired f now).2 := by
  have hr := dropSent_released hn (List.mem_map_of_mem hf)
  unfold pollExpired
  split
  · exact .idle (hr.park (.refl _))
  · exact .again (hr.again hn now) (mem_live_handOut ..)

/-- A group that is asked for a delivery does one of three things. -/
theorem poll_polled {g : Group} (hn : g.unsettled.Nodup) (entries : List Entry) (now : Nat) :
    g.Polled entries (g.poll entries now).1 (g.poll entries now).2 := by
  unfold poll
  split
  · rename_i d g' h
    obtain ⟨hr, hd⟩ := pollRetry_some hn h
    exact .again hr hd
  · rename_i g' h
    have hr := pollRetry_none h
    refine hr.polled ?_
    split
    · rename_i f hf
      have hmem : f ∈ g'.sent := List.mem_of_mem_filter (List.minOn?_mem hf)
      exact pollExpired_polled (hr.nodup hn) hmem entries now
    · unfold pollNew
      split
      · exact .idle (.refl _)
      · rename_i p e he
        exact .fresh (.refl _) he now

/-! ## Settling -/

theorem recallAll_rearranged (g : Group) : g.Rearranged g.recallAll := by
  have hp := List.mergeSort_perm g.inFlight fun a b => a.position ≤ b.position
  refine ⟨rfl, ?_, ?_, fun _ hx => hx⟩
  · simp only [unsettled, recallAll, ackIds, List.map_append, inFlight, List.map_nil,
      List.nil_append]
    exact ((hp.map _).append_right _).append_right _
  · intro d hd
    refine ⟨d, ?_, .refl d⟩
    simp only [live, recallAll, inFlight, List.map_nil, List.nil_append, List.mem_append] at hd ⊢
    exact hd.imp_left hp.mem_iff.1

/-- A record that is handed back stays with the group, unless it is skipped. -/
theorem nackOne_rearranged {g : Group} {action : Refusal} (hn : g.unsettled.Nodup)
    (ha : action ≠ .skip) (id : RecordId) : g.Rearranged (g.nackOne action id) := by
  unfold nackOne
  split
  · exact .refl g
  · rename_i d g₁ h
    obtain ⟨-, hr⟩ := takeBack?_released hn h
    cases action with
    | park => exact hr.park (.refl d)
    | retry =>
        refine hr.rearranged rfl ?_ (.refl d) ?_ fun _ hx => hx
        · simp only [unsettled, ackIds, List.map_append, List.map_cons, List.map_nil]
          rw [← List.append_assoc, List.append_assoc _ [d.ackId]]
          exact List.perm_middle
        · intro x hx
          simp only [live, ← List.append_assoc] at hx
          exact (List.perm_append_singleton _ _).subset hx
    | skip => exact absurd rfl ha
    | stop =>
        refine hr.rearranged rfl ?_ (.refl d) ?_ fun _ hx => hx
        · simp only [unsettled, ackIds, List.map_cons, List.append_assoc, List.cons_append]
          exact List.perm_middle
        · exact List.perm_middle.subset

theorem nack_rearranged {g : Group} {action : Refusal} (hn : g.unsettled.Nodup)
    (ha : action ≠ .skip) (ids : List RecordId) : g.Rearranged (g.nack ids action) := by
  induction ids generalizing g with
  | nil => exact .refl g
  | cons id ids ih =>
      have h₁ := nackOne_rearranged hn ha id
      exact h₁.trans (ih (h₁.nodup hn))

end Group

end EventSourcing
