import EventSourcing.Proofs.Group.History
import EventSourcing.Proofs.Group.Redelivery

/-!
# What a group keeps

A record that a group has handed out stays with it, in flight, in the retry queue or parked, until
somebody acknowledges or skips it. Nothing else that is asked of the server, the loss of all
connections among it, takes a record out of a group (`Server.Retains.serve`). Who was connected
before connections were dropped settles nothing any more (`Server.ack_of_lost`,
`Server.nack_of_lost`).
-/

namespace EventSourcing

/-! ## Operations on a group -/

namespace Group

variable {g : Group} {h h' : GroupHistory}

theorem mem_unsettled_of_live {d : Delivery} (h : d ∈ g.live) : d.ackId ∈ g.unsettled := by
  have hid : d.ackId ∈ ackIds g.live := List.mem_map_of_mem h
  rw [live, ackIds, List.map_append] at hid
  exact List.mem_append_left _ hid

theorem unsettled_handOut (g : Group) (d : Delivery) (now : Nat) :
    g.unsettled ⊆ (g.handOut d now).unsettled := by
  intro id hid
  simp only [unsettled, List.mem_append, or_assoc] at hid ⊢
  refine hid.imp_left fun hid => ?_
  obtain ⟨f, hf, rfl⟩ : ∃ f ∈ g.sent, f.delivery.ackId = id := by simpa [inFlight] using hid
  by_cases he : f.delivery.ackId = d.ackId
  · rw [he]
    simp [inFlight, handOut]
  · refine List.mem_map_of_mem (List.mem_map_of_mem (List.mem_append_left _ ?_))
    exact List.mem_filter.2 ⟨hf, decide_eq_true he⟩

theorem unsettled_poll (hn : g.unsettled.Nodup) (entries : List Entry) (now : Nat) :
    g.unsettled ⊆ (g.poll entries now).2.unsettled ∧
      ∀ d, (g.poll entries now).1 = some d → d.ackId ∈ (g.poll entries now).2.unsettled := by
  have hp := poll_polled hn entries now
  revert hp
  generalize (g.poll entries now).1 = o
  generalize (g.poll entries now).2 = g'
  intro hp
  cases hp with
  | idle hr => exact ⟨hr.perm.symm.subset, fun d hd => by cases hd⟩
  | again hr hd =>
      refine ⟨hr.perm.symm.subset, fun d' hd' => ?_⟩
      obtain rfl := Option.some.inj hd'
      exact mem_unsettled_of_live hd
  | fresh hr hnext now =>
      refine ⟨fun id hid => unsettled_handOut _ _ now (hr.perm.symm.subset hid), fun d' hd' => ?_⟩
      obtain rfl := Option.some.inj hd'
      exact mem_unsettled_of_live (mem_live_handOut _ _ now)

/-- A step that takes the record with an id out of the group, if the group has it to give. -/
def Settles (step : Group → RecordId → Group) : Prop :=
  ∀ g id, (g.takeBack? id = none → step g id = g) ∧
    ∀ d g₁, g.takeBack? id = some (d, g₁) → (step g id).unsettled = g₁.unsettled

theorem settles_ackOne : Settles ackOne := by
  intro g id
  constructor
  · intro h
    simp only [ackOne, h]
  · intro d g₁ h
    simp only [ackOne, h]
    rfl

theorem settles_skipOne : Settles (nackOne .skip) := by
  intro g id
  constructor
  · intro h
    simp only [nackOne, h]
  · intro d g₁ h
    simp only [nackOne, h]
    rfl

/-- Of what the group has, only the ids that are settled leave it. -/
theorem Settles.unsettled {step : Group → RecordId → Group} (hs : Settles step)
    (hn : g.unsettled.Nodup) (ids : List RecordId) {id : RecordId} (hid : id ∈ g.unsettled) :
    id ∈ g.settling step ids ∨ id ∈ (ids.foldl step g).unsettled := by
  induction ids generalizing g with
  | nil => exact .inr hid
  | cons i ids ih =>
      simp only [settling, List.foldl_cons, List.mem_append, or_assoc]
      cases ht : g.takeBack? i with
      | none =>
          rw [(hs g i).1 ht]
          exact .inr (ih hn hid)
      | some x =>
          -- The record is settled first, and what else the group has is left to the other ids.
          obtain ⟨d, g₁⟩ := x
          obtain ⟨rfl, hr⟩ := takeBack?_released hn ht
          have hg₁ : (step g d.ackId).unsettled = g₁.unsettled := (hs g d.ackId).2 d g₁ ht
          rcases List.mem_cons.1 (hr.perm.subset hid) with rfl | hid
          · exact .inl (by simp [isOutstanding, ht])
          · have hn₁ := (List.nodup_cons.1 (hr.perm.nodup_iff.1 hn)).2
            exact .inr (ih (hg₁ ▸ hn₁) (hg₁ ▸ hid))

/-- What an operation comes to for the records of a group: only what the history notes as settled
leaves the group, and what is handed out stays there. -/
structure Kept (h : GroupHistory) (g : Group) (h' : GroupHistory) (g' : Group) : Prop where
  handedOut : ∀ id ∈ ackIds h'.handedOut, id ∈ ackIds h.handedOut ∨ id ∈ g'.unsettled
  acknowledged : h.acknowledged ⊆ h'.acknowledged
  skipped : h.skipped ⊆ h'.skipped
  unsettled : ∀ id ∈ g.unsettled, id ∈ h'.acknowledged ∨ id ∈ h'.skipped ∨ id ∈ g'.unsettled

theorem Kept.of_subset (h : GroupHistory) {g' : Group} (hs : g.unsettled ⊆ g'.unsettled) :
    Kept h g h g' where
  handedOut _ hid := .inl hid
  acknowledged := List.Subset.refl _
  skipped := List.Subset.refl _
  unsettled _ hid := .inr (.inr (hs hid))

theorem kept_poll (h : GroupHistory) (hn : g.unsettled.Nodup) (entries : List Entry) (now : Nat) :
    Kept h g { h with handedOut := h.handedOut ++ (g.poll entries now).1.toList }
      (g.poll entries now).2 := by
  obtain ⟨hsub, hnew⟩ := unsettled_poll hn entries now
  refine { Kept.of_subset h hsub with handedOut := fun id hid => ?_ }
  rw [ackIds, List.map_append, List.mem_append] at hid
  refine hid.imp_right fun hid => ?_
  obtain ⟨d, hd, rfl⟩ := List.mem_map.1 hid
  exact hnew d (Option.mem_toList.1 hd)

/-- Of what a group has, its members take out only what they settle. -/
theorem Answers.kept {entries : List Entry} {now : Nat} {g' : Group}
    (ha : g.Answers entries now h h' g') (hn : g.unsettled.Nodup) : Kept h g h' g' := by
  cases ha with
  | polled => exact kept_poll h hn entries now
  | acked ids =>
      refine ⟨fun _ hid => .inl hid, List.subset_append_left _ _, List.Subset.refl _,
        fun id hid => ?_⟩
      rcases settles_ackOne.unsettled hn ids hid with hid | hid
      · exact .inl (List.mem_append_right _ hid)
      · exact .inr (.inr hid)
  | nacked ha ids => exact .of_subset h (nack_rearranged hn ha ids).perm.symm.subset
  | skipped ids =>
      refine ⟨fun _ hid => .inl hid, List.Subset.refl _, List.subset_append_left _ _,
        fun id hid => ?_⟩
      rcases settles_skipOne.unsettled hn ids hid with hid | hid
      · exact .inr (.inl (List.mem_append_right _ hid))
      · exact .inr (.inr hid)

end Group

/-! ## Requests -/

namespace Server

variable {stream group : String} {h h' : GroupHistory} {s s' : Server} {m : Member}

/-- Whether the group holds the record with an id, in flight, in the retry queue or parked. -/
def Holds (s : Server) (stream group : String) (id : RecordId) : Prop :=
  ∃ g, s.group? stream group = some g ∧ id ∈ g.unsettled

/-- What the history says to have been handed out was settled, or the group still holds it. -/
structure Retains (stream group : String) (h : GroupHistory) (s : Server) : Prop where
  timed : ∃ t, s.Timed stream group t
  retained : ∀ id ∈ ackIds h.handedOut,
    id ∈ h.acknowledged ∨ id ∈ h.skipped ∨ s.Holds stream group id

namespace Retains

theorem nodup (hr : s.Retains stream group h) {g : Group} (hg : s.group? stream group = some g) :
    g.unsettled.Nodup := by
  obtain ⟨t, ht⟩ := hr.timed
  exact (ht.present g hg).nodup

theorem same (hr : s.Retains stream group h) (ht : ∃ t, s'.Timed stream group t)
    (hg : ∀ g, s.group? stream group = some g →
      ∃ g', s'.group? stream group = some g' ∧ g.unsettled ⊆ g'.unsettled) :
    s'.Retains stream group h where
  timed := ht
  retained id hid := by
    rcases hr.retained id hid with hid | hid | ⟨g, hs, hid⟩
    · exact .inl hid
    · exact .inr (.inl hid)
    · obtain ⟨g', hs', hsub⟩ := hg g hs
      exact .inr (.inr ⟨g', hs', hsub hid⟩)

theorem moved (hr : s.Retains stream group h) (ht : ∃ t, s'.Timed stream group t) {g g' : Group}
    (hs : s.group? stream group = some g) (hs' : s'.group? stream group = some g')
    (hk : Group.Kept h g h' g') : s'.Retains stream group h' where
  timed := ht
  retained id hid := by
    rcases hk.handedOut id hid with hid | hid
    · rcases hr.retained id hid with hid | hid | ⟨g₁, hs₁, hid⟩
      · exact .inl (hk.acknowledged hid)
      · exact .inr (.inl (hk.skipped hid))
      · obtain rfl := Option.some.inj (hs.symm.trans hs₁)
        rcases hk.unsettled id hid with hid | hid | hid
        · exact .inl hid
        · exact .inr (.inl hid)
        · exact .inr (.inr ⟨g', hs', hid⟩)
    · exact .inr (.inr ⟨g', hs', hid⟩)

/-- Whatever is asked of a server, what a group has handed out stays with it until it is settled. -/
theorem serve (hr : s.Retains stream group h) (r : Request) :
    (s.serve r).2.Retains stream group (note stream group h s r) := by
  obtain ⟨t, ht⟩ := hr.timed
  have ht' : ∃ t, (s.serve r).2.Timed stream group t := ⟨_, ht.serve r⟩
  cases hm : r.member? with
  | some m =>
      rcases s.group_of_member hm h with ⟨hg, hn⟩ | ⟨g, g', hg, hg', ha⟩
      · rw [hn]
        exact hr.same ht' fun g hs => ⟨g, hg.trans hs, List.Subset.refl _⟩
      · exact hr.moved ht' hg hg' (ha.kept (hr.nodup hg))
  | none =>
      -- Nobody but a member takes records out of a group.
      rw [note_of_no_member hm]
      refine hr.same ht' fun g hg => ?_
      have hstep := s.serve_group stream group r
      rw [hg] at hstep
      revert hstep
      generalize (s.serve r).2.group? stream group = g?
      generalize s.groupEvents stream group r = events
      intro hstep
      cases hstep with
      | kept => exact ⟨g, rfl, List.Subset.refl _⟩
      | recalled => exact ⟨_, rfl, g.recallAll_rearranged.perm.symm.subset⟩
      | polled => cases hm
      | acked => cases hm
      | nacked => cases hm

end Retains

/-! ## Lost connections -/

theorem connect_epoch (hc : Member.connect s stream group = (.ok m, s')) : m.epoch = s'.epoch := by
  unfold Member.connect at hc
  split at hc
  · cases (Prod.mk.inj hc).1
  · split at hc
    · cases (Prod.mk.inj hc).1
    · obtain ⟨hm, rfl⟩ := Prod.mk.inj hc
      rw [← Except.ok.inj hm]

/-- Once connections have been dropped, those that were open before are of an older epoch. -/
theorem lt_epoch_of_disconnectAll (hm : m.epoch ≤ s.epoch) (before later : List Request) :
    m.epoch < (s.after (before ++ .disconnectAll :: later)).epoch := by
  rw [after_append]
  calc m.epoch
    _ ≤ (s.after before).epoch := Nat.le_trans hm (s.after_notBefore before).epoch
    _ < (s.after before).disconnectAll.epoch := Nat.lt_succ_self _
    _ ≤ ((s.after before).after (.disconnectAll :: later)).epoch :=
      ((s.after before).disconnectAll.after_notBefore later).epoch

theorem checkEpoch_of_lost (h : m.epoch < s.epoch) :
    s.checkEpoch m.epoch = .error (.subscriptionDropped "connection reset") :=
  if_neg (Nat.ne_of_gt h)

theorem ack_of_lost (h : m.epoch < s.epoch) (ids : List RecordId) :
    m.ack s ids = (.error (.subscriptionDropped "connection reset"), s) := by
  simp only [Member.ack, checkEpoch_of_lost h]

theorem nack_of_lost (h : m.epoch < s.epoch) (ids : List RecordId) (action : Refusal) :
    m.nack s ids action = (.error (.subscriptionDropped "connection reset"), m, s) := by
  simp only [Member.nack, checkEpoch_of_lost h]

end Server

end EventSourcing
