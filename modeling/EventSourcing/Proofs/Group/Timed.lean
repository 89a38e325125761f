import EventSourcing.Proofs.Group.Conservation
import EventSourcing.Proofs.Group.Timeline

/-!
# Groups and their timelines

A group knows of each record that it holds when it was handed out last, and whether it has come back
since (`Group.Timed`). So whatever it hands out is allowed by then, and what it parks of its own
accord is exhausted.
-/

namespace EventSourcing.Group

/-- The group holds what was handed out as it was handed out last, and holds nothing else. -/
structure Timed (log : Log) (now : Nat) (t : Timeline) (g : Group) : Prop where
  nodup : g.unsettled.Nodup
  held : ∀ id ∈ g.unsettled, t.handOuts id ≠ []
  /-- What is in flight says when it was handed out. -/
  sent : ∀ f ∈ g.sent, (t.handOuts f.delivery.ackId).getLast? = some (f.delivery, f.sentAt)
  /-- What waits to be handed out again has come back. -/
  retry : ∀ d ∈ g.retry, (∃ time, (t.handOuts d.ackId).getLast? = some (d, time)) ∧
    t.Returned d.ackId
  genuine : ∀ d time, .handedOut d time ∈ t →
    IsGenuine log g.scope d ∧ d.position < g.cursor ∧ time ≤ now
  disciplined : t.Disciplined g.settings

/-! ## Where records come from and go -/

theorem mem_of_next?_eq_some {g : Group} {entries : List Entry} {p : Nat} {e : Entry}
    (hn : g.next? entries = some (p, e)) :
    e ∈ entries ∧ g.scope.position? e = some p ∧ g.cursor ≤ p := by
  obtain ⟨e', he, hf⟩ := List.exists_of_findSome?_eq_some hn
  split at hf
  · rename_i q hq
    split at hf
    · obtain ⟨rfl, rfl⟩ := Prod.mk.inj (Option.some.inj hf)
      exact ⟨he, hq, ‹_›⟩
    · cases hf
  · cases hf

theorem takeBack?_subset {g g' : Group} {id : RecordId} {d : Delivery}
    (h : g.takeBack? id = some (d, g')) : g'.sent ⊆ g.sent ∧ g'.retry ⊆ g.retry := by
  unfold takeBack? at h
  split at h
  · obtain rfl := (Prod.mk.inj (Option.some.inj h)).2
    exact ⟨List.filter_subset_self _, List.Subset.refl _⟩
  · split at h
    · obtain rfl := (Prod.mk.inj (Option.some.inj h)).2
      exact ⟨List.Subset.refl _, List.eraseP_subset⟩
    · cases h

/-- Where a record that is handed back may go. -/
theorem nackOne_subset {g : Group} (hn : g.unsettled.Nodup) (action : Refusal) (id : RecordId) :
    (g.nackOne action id).sent ⊆ g.sent ∧
    (∀ d ∈ (g.nackOne action id).retry, d ∈ g.retry ∨
      d ∈ g.live ∧ d.ackId = id ∧ (action = .retry ∨ action = .stop)) ∧
    ∀ x ∈ ackIds (g.nackOne action id).parked, x ∈ ackIds g.parked ∨ action = .park ∧ x = id := by
  unfold nackOne
  cases ht : g.takeBack? id with
  | none => exact ⟨List.Subset.refl _, fun d hd => .inl hd, fun x hx => .inl hx⟩
  | some x =>
      obtain ⟨d, g₁⟩ := x
      obtain ⟨rfl, hr⟩ := takeBack?_released hn ht
      obtain ⟨hs, hq⟩ := takeBack?_subset ht
      have hp : g₁.parked = g.parked := by rw [hr.frame]
      have hkept : ∀ x ∈ ackIds g₁.parked, x ∈ ackIds g.parked ∨ action = .park ∧ x = d.ackId :=
        fun x hx => .inl (hp ▸ hx)
      cases action with
      | park =>
          refine ⟨hs, fun x hx => .inl (hq hx), fun x hx => ?_⟩
          simp only [ackIds, List.map_append, List.mem_append, List.map_singleton,
            List.mem_singleton, hp] at hx
          exact hx.imp_right fun hx => ⟨rfl, hx⟩
      | retry =>
          refine ⟨hs, fun x hx => ?_, hkept⟩
          rcases List.mem_append.1 hx with hx | hx
          · exact .inl (hq hx)
          · obtain rfl := List.mem_singleton.1 hx
            exact .inr ⟨hr.mem, rfl, .inl rfl⟩
      | skip => exact ⟨hs, fun x hx => .inl (hq hx), hkept⟩
      | stop =>
          refine ⟨hs, fun x hx => ?_, hkept⟩
          rcases List.mem_cons.1 hx with rfl | hx
          · exact .inr ⟨hr.mem, rfl, .inr rfl⟩
          · exact .inl (hq hx)

namespace Timed

/-! ## Changes of a group -/

variable {log log' : Log} {now now' : Nat} {t : Timeline} {g g₁ g' : Group} {d : Delivery}
  {e : GroupEvent} {id : RecordId}

theorem new (log : Log) (now : Nat) (scope : Scope) (settings : GroupSettings)
    (h : ∀ id, t.handOuts id = []) : (Group.new scope settings).Timed log now t where
  nodup := List.nodup_nil
  held id hid := by cases hid
  sent f hf := by cases hf
  retry d hd := by cases hd
  genuine d time hd := by
    have hmem := Timeline.mem_handOuts.2 ⟨hd, rfl⟩
    rw [h] at hmem
    cases hmem
  disciplined := .of_handOuts_eq_nil h

theorem mono (h : g.Timed log now t) (hl : log.history <+: log'.history) (hn : now ≤ now') :
    g.Timed log' now' t where
  nodup := h.nodup
  held := h.held
  sent := h.sent
  retry := h.retry
  genuine d time hd := by
    obtain ⟨⟨e, he, hg⟩, hlt, hle⟩ := h.genuine d time hd
    exact ⟨⟨e, hl.subset he, hg⟩, hlt, Nat.le_trans hle hn⟩
  disciplined := h.disciplined

/-- The cursor goes up. -/
theorem advance (h : g.Timed log now t) {cursor : Nat} (hc : g.cursor ≤ cursor) :
    Timed log now t { g with cursor := cursor } where
  nodup := h.nodup
  held := h.held
  sent := h.sent
  retry := h.retry
  genuine d time hd := by
    obtain ⟨hg, hlt, hle⟩ := h.genuine d time hd
    exact ⟨hg, Nat.lt_of_lt_of_le hlt hc, hle⟩
  disciplined := h.disciplined

/-- What was settled is nothing that the group still holds. -/
theorem settled (h : g.Timed log now t) (acknowledged skipped : List RecordId) :
    Timed log now t { g with acknowledged := acknowledged, skipped := skipped } :=
  ⟨h.nodup, h.held, h.sent, h.retry, h.genuine, h.disciplined⟩

/-- Something happens other than that a record is handed out. -/
theorem note (h : g.Timed log now t) (he : e.handOut? = none) : g.Timed log now (t ++ [e]) := by
  have hsame (id : RecordId) : Timeline.handOuts (t ++ [e]) id = t.handOuts id := by
    rw [Timeline.handOuts_append, Timeline.handOuts_of_handOut? he, List.append_nil]
  refine ⟨h.nodup, fun id hid => ?_, fun f hf => ?_, fun d hd => ?_, fun d time hd => ?_, ?_⟩
  · rw [hsame]
    exact h.held id hid
  · rw [hsame]
    exact h.sent f hf
  · rw [hsame]
    exact ⟨(h.retry d hd).1, (h.retry d hd).2.append (Timeline.handOuts_of_handOut? he _)⟩
  · rcases List.mem_append.1 hd with hd | hd
    · exact h.genuine d time hd
    · obtain rfl := List.mem_singleton.1 hd
      cases he
  · refine h.disciplined.snoc ?_
    cases e with
    | handedOut d time => cases he
    | _ => trivial

/-- Records that the group holds are moved to the retry queue once they have come back, or are put
elsewhere or settled. -/
theorem moved (h : g.Timed log now t) (hframe : g'.scope = g.scope ∧ g'.settings = g.settings ∧
      g'.cursor = g.cursor) (hn : g'.unsettled.Nodup) (hu : g'.unsettled ⊆ g.unsettled)
    (hs : g'.sent ⊆ g.sent)
    (hr : ∀ d ∈ g'.retry, d ∈ g.retry ∨ d ∈ g.inFlight ∧ t.Returned d.ackId) :
    g'.Timed log now t := by
  obtain ⟨hscope, hsettings, hcursor⟩ := hframe
  refine ⟨hn, fun id hid => h.held id (hu hid), fun f hf => h.sent f (hs hf), fun d hd => ?_, ?_, ?_⟩
  · rcases hr d hd with hd | ⟨hd, hback⟩
    · exact h.retry d hd
    · obtain ⟨f, hf, rfl⟩ := List.mem_map.1 hd
      exact ⟨⟨f.sentAt, h.sent f hf⟩, hback⟩
  · rw [hscope, hcursor]
    exact h.genuine
  · rw [hsettings]
    exact h.disciplined

/-- A record that the group does not hold any more, or has never held, is handed out. -/
theorem handedOut (h : g.Timed log now t) (hnew : d.ackId ∉ g.unsettled)
    (hg : IsGenuine log g.scope d) (hlt : d.position < g.cursor)
    (ha : t.Allows g.settings (.handedOut d now)) :
    (g.handOut d now).Timed log now (t ++ [.handedOut d now]) := by
  have hflight : d.ackId ∉ ackIds g.inFlight := fun hm =>
    hnew (List.mem_append_left _ (List.mem_append_left _ hm))
  have hperm := handOut_perm hflight now
  have hother {id : RecordId} (hid : id ∈ g.unsettled) :
      Timeline.handOuts [.handedOut d now] id = [] :=
    Timeline.handOuts_of_ne (fun he => hnew (he ▸ hid)) now
  have hlast {id : RecordId} (hid : id ∈ g.unsettled) :
      Timeline.handOuts (t ++ [.handedOut d now]) id = t.handOuts id := by
    rw [Timeline.handOuts_append, hother hid, List.append_nil]
  refine ⟨?_, fun id hid => ?_, fun f hf => ?_, fun x hx => ?_, fun x time hx => ?_, ?_⟩
  · exact hperm.nodup_iff.2 (List.nodup_cons.2 ⟨hnew, h.nodup⟩)
  · rcases List.mem_cons.1 (hperm.subset hid) with rfl | hid
    · rw [Timeline.handOuts_append, Timeline.handOuts_self]
      simp
    · rw [hlast hid]
      exact h.held id hid
  · rw [handOut, sent_dropSent_of_notMem hflight] at hf
    rcases List.mem_append.1 hf with hf | hf
    · have hid : f.delivery.ackId ∈ g.unsettled := List.mem_append_left _ (List.mem_append_left _
        (List.mem_map_of_mem (List.mem_map_of_mem hf)))
      rw [hlast hid]
      exact h.sent f hf
    · obtain rfl := List.mem_singleton.1 hf
      rw [Timeline.handOuts_append, Timeline.handOuts_self]
      exact List.getLast?_concat
  · have hid : x.ackId ∈ g.unsettled :=
      List.mem_append_left _ (List.mem_append_right _ (List.mem_map_of_mem hx))
    rw [hlast hid]
    exact ⟨(h.retry x hx).1, (h.retry x hx).2.append (hother hid)⟩
  · rcases List.mem_append.1 hx with hx | hx
    · exact h.genuine x time hx
    · obtain ⟨rfl, rfl⟩ := GroupEvent.handedOut.inj (List.mem_singleton.1 hx)
      exact ⟨hg, hlt, Nat.le_refl _⟩
  · exact h.disciplined.snoc ha

/-! ## Polls -/

theorem exhausted (h : g.Timed log now t) {time : Nat}
    (hlast : (t.handOuts d.ackId).getLast? = some (d, time)) (hspent : g.isSpent d = true)
    (hdue : t.IsDue g.settings d.ackId now) : t.Exhausted g.settings d.ackId now := by
  refine ⟨Nat.le_antisymm (h.disciplined.length_le _) ?_, hdue⟩
  rw [← Timeline.retryCount_last (h.disciplined.retryCounts _) hlast]
  exact Nat.succ_le_succ (of_decide_eq_true hspent)

theorem released (h : g.Timed log now t) (hr : g.Released g₁ d) (hs : g₁.sent ⊆ g.sent)
    (hq : g₁.retry ⊆ g.retry) : g₁.Timed log now t := by
  refine h.moved ?_ (List.nodup_cons.1 (hr.perm.nodup_iff.1 h.nodup)).2
    (fun id hid => hr.perm.mem_iff.2 (List.mem_cons_of_mem _ hid)) hs fun d hd => .inl (hq hd)
  rw [hr.frame]
  exact ⟨rfl, rfl, rfl⟩

/-- A record that the group holds is handed out once more. -/
theorem again (h : g.Timed log now t) (hr : g.Released g₁ d) (hs : g₁.sent ⊆ g.sent)
    (hq : g₁.retry ⊆ g.retry) {time : Nat}
    (hlast : (t.handOuts d.ackId).getLast? = some (d, time)) (hspent : g.isSpent d = false)
    (hdue : t.IsDue g.settings d.ackId now) :
    (g₁.handOut d.again now).Timed log now (t ++ [.handedOut d.again now]) := by
  obtain ⟨hmem, -⟩ := Timeline.mem_handOuts.1 (List.mem_of_getLast? hlast)
  obtain ⟨hg, hlt, -⟩ := h.genuine d time hmem
  have hscope : g₁.scope = g.scope := by rw [hr.frame]
  have hcursor : g₁.cursor = g.cursor := by rw [hr.frame]
  have hsettings : g₁.settings = g.settings := by rw [hr.frame]
  refine (h.released hr hs hq).handedOut (hr.notMem h.nodup) (hscope ▸ hg) (hcursor ▸ hlt) ?_
  rw [hsettings]
  exact .inr ⟨d, time, hlast, rfl, Nat.lt_of_not_le (of_decide_eq_false hspent), hdue⟩

/-- What a group parks when it looks for a delivery is exhausted. -/
theorem pollRetry (h : g.Timed log now t) :
    (g.pollRetry now).2.Timed log now
      (t ++ (g.pollRetry now).1.toList.map fun d => .handedOut d now) ∧
    ∀ id ∈ ackIds (g.pollRetry now).2.parked,
      id ∈ ackIds g.parked ∨ t.Exhausted g.settings id now := by
  have hsplit : g.retry = g.retry.takeWhile g.isSpent ++ g.retry.dropWhile g.isSpent :=
    List.takeWhile_append_dropWhile.symm
  have hparked : ∀ id ∈ ackIds (g.parked ++ (g.retry.takeWhile g.isSpent).map Delivery.again),
      id ∈ ackIds g.parked ∨ t.Exhausted g.settings id now := by
    intro id hid
    rw [ackIds, List.map_append, List.mem_append] at hid
    refine hid.imp_right fun hid => ?_
    rw [← ackIds, ackIds_again] at hid
    obtain ⟨d, hd, rfl⟩ := List.mem_map.1 hid
    obtain ⟨⟨time, hlast⟩, hback⟩ := h.retry d (hsplit ▸ List.mem_append_left _ hd)
    exact h.exhausted hlast (List.all_eq_true.1 List.all_takeWhile d hd) (.inl hback)
  have hr := park_rearranged hsplit
  have h₁ : Timed log now t { g with
      parked := g.parked ++ (g.retry.takeWhile g.isSpent).map Delivery.again
      retry := g.retry.dropWhile g.isSpent } :=
    h.moved ⟨rfl, rfl, rfl⟩ (hr.nodup h.nodup) hr.perm.subset (List.Subset.refl _)
      fun d hd => .inl (hsplit ▸ List.mem_append_right _ hd)
  unfold Group.pollRetry
  cases hd : g.retry.dropWhile g.isSpent with
  | nil =>
      rw [hd] at h₁
      exact ⟨(List.append_nil t).symm ▸ h₁, hparked⟩
  | cons d rest =>
      have hmem : d ∈ g.retry := by
        rw [hsplit, hd]
        exact List.mem_append_right _ List.mem_cons_self
      obtain ⟨⟨time, hlast⟩, hback⟩ := h.retry d hmem
      have hspent : g.isSpent d = false := by
        have hhead := List.head?_dropWhile_not g.isSpent g.retry
        rwa [hd] at hhead
      rw [hd] at h₁
      have ho := eraseP_released (g := { g with
        parked := g.parked ++ (g.retry.takeWhile g.isSpent).map Delivery.again
        retry := d :: rest }) (List.nil_append (d :: rest)).symm
      exact ⟨h₁.again ho (List.Subset.refl _) (List.subset_cons_self _ _) hlast hspent (.inl hback),
        hparked⟩

theorem pollExpired (h : g.Timed log now t) {f : Sent} (hf : f ∈ g.sent)
    (hover : g.settings.messageTimeout ≤ now - f.sentAt) :
    (g.pollExpired f now).2.Timed log now
      (t ++ (g.pollExpired f now).1.toList.map fun d => .handedOut d now) ∧
    ∀ id ∈ ackIds (g.pollExpired f now).2.parked,
      id ∈ ackIds g.parked ∨ t.Exhausted g.settings id now := by
  have hlast := h.sent f hf
  obtain ⟨hmem, -⟩ := Timeline.mem_handOuts.1 (List.mem_of_getLast? hlast)
  have hle := (h.genuine _ _ hmem).2.2
  have hdue : t.IsDue g.settings f.delivery.ackId now :=
    .inr ⟨f.delivery, f.sentAt, hlast, by omega⟩
  have hr := dropSent_released h.nodup (List.mem_map_of_mem hf)
  have hs : (g.dropSent f.delivery.ackId).sent ⊆ g.sent := List.filter_subset_self _
  unfold Group.pollExpired
  cases hspent : g.isSpent f.delivery with
  | true =>
      have hp := hr.park f.delivery.repeats_again
      simp only [if_true, Option.toList_none, List.map_nil, List.append_nil]
      refine ⟨h.moved ⟨rfl, rfl, rfl⟩ (hp.nodup h.nodup) hp.perm.subset hs fun d hd => .inl hd,
        fun id hid => ?_⟩
      rw [ackIds, List.map_append, List.mem_append] at hid
      refine hid.imp_right fun hid => ?_
      have hspent' := h.exhausted hlast hspent hdue
      obtain rfl := List.mem_singleton.1 hid
      exact hspent'
  | false =>
      simp only [Bool.false_eq_true, if_false, Option.toList_some, List.map_singleton]
      exact ⟨h.again hr hs (List.Subset.refl _) hlast hspent hdue, fun id hid => .inl hid⟩

theorem pollNew (h : g.Timed log now t) (hl : log.Coherent) :
    (g.pollNew log.entries now).2.Timed log now
      (t ++ (g.pollNew log.entries now).1.toList.map fun d => .handedOut d now) ∧
    (g.pollNew log.entries now).2.parked = g.parked := by
  unfold Group.pollNew
  cases hn : g.next? log.entries with
  | none => exact ⟨(List.append_nil t).symm ▸ h, rfl⟩
  | some x =>
      obtain ⟨p, e⟩ := x
      obtain ⟨hentry, hp, hle⟩ := mem_of_next?_eq_some hn
      have he := hl.entries_sublist.subset hentry
      have hnone : t.handOuts e.record.id = [] := by
        refine List.eq_nil_iff_forall_not_mem.2 fun ⟨d, time⟩ hd => ?_
        obtain ⟨hmem, hid⟩ := Timeline.mem_handOuts.1 hd
        obtain ⟨⟨e', he', hp', -, hid'⟩, hlt, -⟩ := h.genuine d time hmem
        obtain rfl : e' = e := hl.id_unique he' he (hid'.symm.trans hid)
        obtain rfl := Option.some.inj (hp'.symm.trans hp)
        exact absurd hlt (Nat.not_lt.2 hle)
      have hnew : (Delivery.first p e.record).ackId ∉ g.unsettled := fun hm => h.held _ hm hnone
      refine ⟨(h.advance (Nat.le_succ_of_le hle)).handedOut hnew ⟨e, he, hp, rfl, rfl⟩
        (Nat.lt_succ_self p) (.inl ⟨hnone, rfl, fun d time hd => ?_⟩), rfl⟩
      exact Nat.lt_of_lt_of_le (h.genuine d time hd).2.1 hle

/-- A group that is asked for a delivery hands out what may be handed out, and parks what is
exhausted. -/
theorem poll (h : g.Timed log now t) (hl : log.Coherent) :
    (g.poll log.entries now).2.Timed log now
      (t ++ (g.poll log.entries now).1.toList.map fun d => .handedOut d now) ∧
    ∀ id ∈ ackIds (g.poll log.entries now).2.parked,
      id ∈ ackIds g.parked ∨ t.Exhausted g.settings id now := by
  obtain ⟨hr, hparked⟩ := h.pollRetry
  unfold Group.poll
  rcases hp : g.pollRetry now with ⟨_ | d, g₁⟩
  · rw [hp] at hr hparked
    have h₁ : g₁.Timed log now t := (List.append_nil t) ▸ hr
    have hsettings : g₁.settings = g.settings := (pollRetry_none hp).settings
    simp only
    cases hx : g₁.expired? now with
    | some f =>
        have hf := List.mem_filter.1 (List.minOn?_mem hx)
        obtain ⟨h₂, hparked₂⟩ := h₁.pollExpired hf.1 (of_decide_eq_true hf.2)
        rw [hsettings] at hparked₂
        exact ⟨h₂, fun id hid => (hparked₂ id hid).elim (hparked id) .inr⟩
    | none =>
        obtain ⟨h₂, hparked₂⟩ := h₁.pollNew hl
        exact ⟨h₂, fun id hid => hparked id (hparked₂ ▸ hid)⟩
  · rw [hp] at hr hparked
    exact ⟨hr, hparked⟩

/-! ## Handing back -/

theorem ackOne (h : g.Timed log now t) (id : RecordId) :
    (g.ackOne id).Timed log now t ∧ (g.ackOne id).parked = g.parked := by
  unfold Group.ackOne
  cases ht : g.takeBack? id with
  | none => exact ⟨h, rfl⟩
  | some x =>
      obtain ⟨d, g₁⟩ := x
      obtain ⟨-, hr⟩ := takeBack?_released h.nodup ht
      obtain ⟨hs, hq⟩ := takeBack?_subset ht
      exact ⟨(h.released hr hs hq).settled _ _, by rw [hr.frame]⟩

theorem ack (h : g.Timed log now t) (ids : List RecordId) :
    (g.ack ids).Timed log now t ∧ (g.ack ids).parked = g.parked := by
  induction ids generalizing g with
  | nil => exact ⟨h, rfl⟩
  | cons id ids ih =>
      obtain ⟨h₁, hp₁⟩ := h.ackOne id
      obtain ⟨h₂, hp₂⟩ := ih h₁
      exact ⟨h₂, hp₂.trans hp₁⟩

/-- A record that is handed back is parked if that was asked for, and else may be handed out again
once it has come back. -/
theorem nackOne (h : g.Timed log now t) {action : Refusal} (id : RecordId)
    (hback : action = .retry ∨ action = .stop → t.Returned id) :
    (g.nackOne action id).Timed log now t ∧ ∀ x ∈ ackIds (g.nackOne action id).parked,
      x ∈ ackIds g.parked ∨ action = .park ∧ x = id := by
  obtain ⟨hs, hq, hp⟩ := nackOne_subset h.nodup action id
  refine ⟨?_, hp⟩
  by_cases ha : action = .skip
  · subst ha
    unfold Group.nackOne
    cases ht : g.takeBack? id with
    | none => exact h
    | some x =>
        obtain ⟨d, g₁⟩ := x
        obtain ⟨-, hr⟩ := takeBack?_released h.nodup ht
        obtain ⟨hs, hq⟩ := takeBack?_subset ht
        exact (h.released hr hs hq).settled _ _
  · have hr := nackOne_rearranged h.nodup ha id
    refine h.moved ⟨hr.scope, hr.settings, hr.cursor⟩ (hr.nodup h.nodup) hr.perm.subset hs
      fun d hd => ?_
    rcases hq d hd with hkept | ⟨hlive, hid, hret⟩
    · exact .inl hkept
    · rcases List.mem_append.1 hlive with hflight | hkept
      · exact .inr ⟨hflight, hid ▸ hback hret⟩
      · exact .inl hkept

theorem nack (h : g.Timed log now t) {action : Refusal} (ids : List RecordId)
    (hback : ∀ id ∈ ids, action = .retry ∨ action = .stop → t.Returned id) :
    (g.nack ids action).Timed log now t ∧ ∀ x ∈ ackIds (g.nack ids action).parked,
      x ∈ ackIds g.parked ∨ action = .park ∧ x ∈ ids := by
  induction ids generalizing g with
  | nil => exact ⟨h, fun x hx => .inl hx⟩
  | cons id ids ih =>
      obtain ⟨h₁, hp₁⟩ := h.nackOne id (hback id List.mem_cons_self)
      obtain ⟨h₂, hp₂⟩ := ih h₁ fun x hx => hback x (List.mem_cons_of_mem _ hx)
      refine ⟨h₂, fun x hx => ?_⟩
      rcases hp₂ x hx with hx | ⟨ha, hx⟩
      · refine (hp₁ x hx).imp_right fun ⟨ha, hx⟩ => ⟨ha, ?_⟩
        rw [hx]
        exact List.mem_cons_self
      · exact .inr ⟨ha, List.mem_cons_of_mem _ hx⟩

theorem recallAll (h : g.Timed log now t) (hback : ∀ id, t.Returned id) :
    g.recallAll.Timed log now t := by
  have hr := g.recallAll_rearranged
  refine h.moved ⟨rfl, rfl, rfl⟩ (hr.nodup h.nodup) hr.perm.subset (List.nil_subset _) fun d hd => ?_
  rcases List.mem_append.1 hd with hd | hd
  · exact .inr ⟨(List.mergeSort_perm _ _).subset hd, hback d.ackId⟩
  · exact .inl hd

end Timed

end EventSourcing.Group
