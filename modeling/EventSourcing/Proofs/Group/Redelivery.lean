import EventSourcing.Proofs.Group.Run
import EventSourcing.Proofs.Group.Timed

/-!
# Redelivery in a run

Whatever a server is asked, what happens to the records of each of its groups is disciplined: no
record is handed out again before it is due, nor more often than the settings allow, and none is
parked before that unless a member asks for it (`Server.redelivery_disciplined`).
-/

namespace EventSourcing.Server

variable (stream group : String)

/-! ## What happens to a group -/

/-- What happens to the records of a group when a request is served. -/
def groupEvents (s : Server) : Request → Timeline
  | .pollMember m =>
    if m.stream = stream ∧ m.group = group then
      (m.poll s).1.delivery?.toList.map fun d => .handedOut d s.now
    else []
  | .nack m ids action =>
    if (m.stream = stream ∧ m.group = group) ∧ (m.nack s ids action).1.isOk then
      [.refused ids action]
    else []
  | .disconnectAll => [.recalled]
  | _ => []

/-- What happens to the records of a group while requests are served. -/
def timeline (s : Server) : List Request → Timeline
  | [] => []
  | r :: rs => s.groupEvents stream group r ++ timeline (s.serve r).2 rs

/-- What a request makes of a group that is there or not, and what happens to its records. -/
inductive GroupStep (s : Server) : Request → Option Group → Option Group → Timeline → Prop
  | kept {r : Request} (g? : Option Group) : GroupStep s r g? g? []
  | created (settings : GroupSettings) :
    GroupStep s (.createGroup stream group settings) none (some (.new (.ofName stream) settings)) []
  | polled {m : Member} (hm : m.stream = stream ∧ m.group = group) (g : Group) :
    GroupStep s (.pollMember m) (some g) (some (g.poll s.log.entries s.now).2)
      ((g.poll s.log.entries s.now).1.toList.map fun d => .handedOut d s.now)
  | acked (m : Member) (ids : List RecordId) (g : Group) :
    GroupStep s (.ack m ids) (some g) (some (g.ack ids)) []
  | nacked {m : Member} (hm : m.stream = stream ∧ m.group = group) (ids : List RecordId)
      (action : Refusal) (g : Group) :
    GroupStep s (.nack m ids action) (some g) (some (g.nack ids action)) [.refused ids action]
  | recalled (g? : Option Group) :
    GroupStep s .disconnectAll g? (g?.map Group.recallAll) [.recalled]

section Steps

variable {stream group} {s : Server} {r : Request}

theorem GroupStep.of_groups {s' : Server} (hs : s'.groups = s.groups) :
    GroupStep stream group s r (s.group? stream group) (s'.group? stream group) [] := by
  have hg : s'.group? stream group = s.group? stream group :=
    congrArg (·.get? (stream, group)) hs
  rw [hg]
  exact .kept _

theorem serve_group (s : Server) (stream group : String) (r : Request) :
    GroupStep stream group s r (s.group? stream group) ((s.serve r).2.group? stream group)
      (s.groupEvents stream group r) := by
  cases r with
  | call c => exact .of_groups (s.call_groups c)
  | createGroup stream' group' settings =>
      simp only [serve, createGroup]
      cases hg : s.group? stream' group' with
      | some g => exact .kept _
      | none =>
          rw [group?_setGroup]
          by_cases hkey : stream' = stream ∧ group' = group
          · obtain ⟨rfl, rfl⟩ := hkey
            rw [if_pos ⟨rfl, rfl⟩, hg]
            exact .created settings
          · rw [if_neg hkey]
            exact .kept _
  | openReader stream' start => exact .of_groups (s.openAt_groups stream' start)
  | pollReader c => exact .kept _
  | join stream' group' => exact .of_groups (s.connect_groups stream' group')
  | pollMember m =>
      simp only [serve, groupEvents]
      rcases s.poll_eq m with ⟨hp, hd⟩ | ⟨g, hg, hp, hd⟩
      · rw [hp, hd, Option.toList_none, List.map_nil, ite_self]
        exact .kept _
      · rw [hp, hd, group?_setGroup]
        by_cases hm : m.stream = stream ∧ m.group = group
        · rw [if_pos hm, if_pos hm, ← hm.1, ← hm.2, hg]
          exact .polled ⟨rfl, rfl⟩ g
        · rw [if_neg hm, if_neg hm]
          exact .kept _
  | ack m ids =>
      rcases s.ack_eq m ids with ⟨e, he⟩ | ⟨g, hg, he⟩
      · simp only [serve, he]
        exact .kept _
      · simp only [serve, he]
        rw [group?_setGroup]
        by_cases hm : m.stream = stream ∧ m.group = group
        · rw [if_pos hm, ← hm.1, ← hm.2, hg]
          exact .acked m ids g
        · rw [if_neg hm]
          exact .kept _
  | nack m ids action =>
      rcases s.nack_eq m ids action with ⟨e, he⟩ | ⟨g, m', hg, he⟩
      · simp only [serve, groupEvents, he]
        rw [if_neg fun h => Bool.false_ne_true h.2]
        exact .kept _
      · have hafter : (s.setGroup m.stream m.group (g.nack ids action)).wake.group? stream group =
            if m.stream = stream ∧ m.group = group then some (g.nack ids action)
            else s.group? stream group := group?_setGroup ..
        simp only [serve, groupEvents, he]
        rw [hafter]
        by_cases hm : m.stream = stream ∧ m.group = group
        · rw [if_pos hm, if_pos ⟨hm, rfl⟩, ← hm.1, ← hm.2, hg]
          exact .nacked ⟨rfl, rfl⟩ ids action g
        · rw [if_neg hm, if_neg fun h => hm h.1]
          exact .kept _
  | disconnectAll =>
      have hafter : s.disconnectAll.group? stream group =
          (s.group? stream group).map Group.recallAll := Table.get?_mapValues ..
      simp only [serve]
      rw [hafter]
      exact .recalled _
  | turnAway count => exact .kept _
  | elapse milliseconds => exact .kept _

/-- Neither the clock nor the epoch of connections is turned back. -/
structure NotBefore (s s' : Server) : Prop where
  now : s.now ≤ s'.now
  epoch : s.epoch ≤ s'.epoch

theorem NotBefore.refl (s : Server) : s.NotBefore s := ⟨Nat.le_refl _, Nat.le_refl _⟩

theorem NotBefore.trans {s₁ s₂ s₃ : Server} (h : s₁.NotBefore s₂) (h' : s₂.NotBefore s₃) :
    s₁.NotBefore s₃ := ⟨Nat.le_trans h.now h'.now, Nat.le_trans h.epoch h'.epoch⟩

theorem letIn_notBefore (s : Server) : s.NotBefore s.letIn.2 := by
  unfold letIn
  split <;> exact ⟨Nat.le_refl _, Nat.le_refl _⟩

theorem serve_notBefore (s : Server) (r : Request) : s.NotBefore (s.serve r).2 := by
  have hsame {s' : Server} (hn : s'.now = s.now) (he : s'.epoch = s.epoch) : s.NotBefore s' :=
    ⟨Nat.le_of_eq hn.symm, Nat.le_of_eq he.symm⟩
  cases r with
  | elapse milliseconds => exact ⟨Nat.le_add_right _ _, Nat.le_refl _⟩
  | disconnectAll => exact ⟨Nat.le_refl _, Nat.le_succ _⟩
  | call c =>
      cases c with
      | append stream expected events =>
          simp only [serve, call, append]
          split <;> exact hsame rfl rfl
      | tombstone stream =>
          simp only [serve, call, tombstone]
          split <;> exact hsame rfl rfl
      | _ => exact hsame rfl rfl
  | createGroup stream group settings =>
      simp only [serve, createGroup]
      split <;> exact hsame rfl rfl
  | openReader stream start =>
      have h := s.letIn_notBefore
      simp only [serve, CatchUp.openAt]
      split <;> rename_i hl <;> rw [hl] at h <;> exact h
  | join stream group =>
      have h := s.letIn_notBefore
      simp only [serve, Member.connect]
      split <;> rename_i hl <;> rw [hl] at h
      · exact h
      · split <;> exact h
  | pollMember m =>
      rcases s.poll_eq m with ⟨hp, -⟩ | ⟨g, -, hp, -⟩ <;> simp only [serve, hp] <;>
        exact hsame rfl rfl
  | ack m ids =>
      rcases s.ack_eq m ids with ⟨e, he⟩ | ⟨g, -, he⟩ <;> simp only [serve, he] <;>
        exact hsame rfl rfl
  | nack m ids action =>
      rcases s.nack_eq m ids action with ⟨e, he⟩ | ⟨g, m', -, he⟩ <;> simp only [serve, he] <;>
        exact hsame rfl rfl
  | _ => exact hsame rfl rfl

theorem after_notBefore (s : Server) (rs : List Request) : s.NotBefore (s.after rs) := by
  induction rs generalizing s with
  | nil => exact .refl s
  | cons r rs ih => exact (s.serve_notBefore r).trans (ih _)

/-! ## Groups in a run -/

/-- The group, if it is there, knows its timeline; else nothing was handed out by it. -/
structure Timed (stream group : String) (t : Timeline) (s : Server) : Prop where
  coherent : s.log.Coherent
  absent : s.group? stream group = none → ∀ id, t.handOuts id = []
  present : ∀ g, s.group? stream group = some g → g.Timed s.log s.now t

variable {t : Timeline}

/-- What is parked by a request, if it is parked there newly, was refused for good or is exhausted. -/
def ParksDuly (stream group : String) (t : Timeline) (s : Server) (g : Group) (r : Request)
    (id : RecordId) : Prop :=
  (∃ m ids, r = .nack m ids .park ∧ (m.stream = stream ∧ m.group = group) ∧ id ∈ ids) ∨
  ∃ m, r = .pollMember m ∧ (m.stream = stream ∧ m.group = group) ∧
    t.Exhausted g.settings id s.now

/-- A group that is there stays there and knows what happens to it. -/
theorem GroupStep.timed {g : Group} {g? : Option Group} {es : Timeline}
    (h : GroupStep stream group s r (some g) g? es) (hl : s.log.Coherent)
    (hg : g.Timed s.log s.now t) : ∃ g', g? = some g' ∧ g'.Timed s.log s.now (t ++ es) ∧
      ∀ id ∈ ackIds g'.parked, id ∈ ackIds g.parked ∨ ParksDuly stream group t s g r id := by
  cases h with
  | kept => exact ⟨g, rfl, (List.append_nil t).symm ▸ hg, fun id hid => .inl hid⟩
  | @polled m hm =>
      obtain ⟨hg', hparked⟩ := hg.poll hl
      exact ⟨_, rfl, hg', fun id hid => (hparked id hid).imp_right fun hx => .inr ⟨m, rfl, hm, hx⟩⟩
  | acked m ids =>
      obtain ⟨hg', hparked⟩ := hg.ack ids
      exact ⟨_, rfl, (List.append_nil t).symm ▸ hg', fun id hid => .inl (hparked ▸ hid)⟩
  | @nacked m hm ids action =>
      have hnoted : g.Timed s.log s.now (t ++ [.refused ids action]) := hg.note rfl
      obtain ⟨hg', hparked⟩ := hnoted.nack ids fun id hid hret =>
        Timeline.returned_of_returns (show id ∈ ids ∧ _ from ⟨hid, hret⟩)
      refine ⟨_, rfl, hg', fun id hid => (hparked id hid).imp_right ?_⟩
      rintro ⟨rfl, hmem⟩
      exact .inl ⟨m, ids, rfl, hm, hmem⟩
  | recalled =>
      have hnoted : g.Timed s.log s.now (t ++ [.recalled]) := hg.note rfl
      exact ⟨_, rfl, hnoted.recallAll fun id => Timeline.returned_of_returns (show True from trivial),
        fun id hid => .inl hid⟩

/-- Nothing happens to a group that is not there, but it may be created. -/
theorem GroupStep.of_none {g? : Option Group} {es : Timeline}
    (h : GroupStep stream group s r none g? es) :
    (∀ id, es.handOuts id = []) ∧ ∀ g', g? = some g' → ∃ settings, g' = .new (.ofName stream) settings := by
  cases h with
  | kept => exact ⟨fun _ => rfl, fun g' hg' => by cases hg'⟩
  | created settings => exact ⟨fun _ => rfl, fun g' hg' => ⟨settings, (Option.some.inj hg').symm⟩⟩
  | recalled => exact ⟨fun _ => rfl, fun g' hg' => by cases hg'⟩

theorem Timed.serve (h : s.Timed stream group t) (r : Request) :
    (s.serve r).2.Timed stream group (t ++ s.groupEvents stream group r) := by
  have hstep := s.serve_group stream group r
  have hl := h.coherent.before (s.serve_before r)
  cases hg : s.group? stream group with
  | some g =>
      rw [hg] at hstep
      obtain ⟨g₁, hg₁, ht, -⟩ := hstep.timed h.coherent (h.present g hg)
      refine ⟨hl, fun hn => ?_, fun g' hg' => ?_⟩
      · rw [hg₁] at hn
        cases hn
      · obtain rfl := Option.some.inj (hg₁.symm.trans hg')
        exact ht.mono (s.serve_before r).history (s.serve_notBefore r).now
  | none =>
      rw [hg] at hstep
      obtain ⟨hevents, hnew⟩ := hstep.of_none
      have hnil (id : RecordId) :
          Timeline.handOuts (t ++ s.groupEvents stream group r) id = [] := by
        rw [Timeline.handOuts_append, h.absent hg, hevents, List.nil_append]
      refine ⟨hl, fun _ => hnil, fun g' hg' => ?_⟩
      obtain ⟨settings, rfl⟩ := hnew g' hg'
      exact .new _ _ _ _ hnil

theorem Timed.after (h : s.Timed stream group t) (rs : List Request) :
    (s.after rs).Timed stream group (t ++ s.timeline stream group rs) := by
  induction rs generalizing s t with
  | nil =>
      rw [timeline, List.append_nil]
      exact h
  | cons r rs ih =>
      rw [timeline, ← List.append_assoc]
      exact ih (h.serve r)

theorem timed_start (stream group : String) (now : Nat) :
    (start now).Timed stream group [] :=
  ⟨Log.coherent_empty, fun _ _ => rfl, fun g hg => by cases hg⟩

end Steps

/-! ## The main result -/

/-- Whatever a server that has started empty is asked, each of its groups hands out a record with the
number of the times that it was handed out before, and not more often than its settings allow. A
record is handed out again only after it has come back or its time in flight is over, and for the
first time only in the order of positions. None is parked unless a member asks for it, or it is due
after it was handed out as often as allowed. -/
theorem redelivery_disciplined (now : Nat) (stream group : String) (rs : List Request) :
    let s := (start now).after rs
    let t := (start now).timeline stream group rs
    (s.group? stream group = none → ∀ id, t.handOuts id = []) ∧
    ∀ g, s.group? stream group = some g →
      (∀ id, (t.handOuts id).map (·.1.retryCount) = List.range (t.handOuts id).length ∧
        (t.handOuts id).length ≤ g.settings.maxRetryCount + 1) ∧
      (∀ a b c d₁ d₂ time₁ time₂,
        t = a ++ .handedOut d₁ time₁ :: b ++ .handedOut d₂ time₂ :: c → d₂.ackId = d₁.ackId →
        Timeline.handOuts b d₁.ackId = [] →
        (∃ e ∈ b, e.Returns d₁.ackId) ∨ time₁ + g.settings.messageTimeout ≤ time₂) ∧
      (∀ a c d₁ d₂ time₁ time₂, t = a ++ .handedOut d₂ time₂ :: c →
        Timeline.handOuts a d₂.ackId = [] → .handedOut d₁ time₁ ∈ a → d₁.position < d₂.position) ∧
      ∀ r g', (s.serve r).2.group? stream group = some g' →
        ∀ id ∈ ackIds g'.parked, id ∈ ackIds g.parked ∨ ParksDuly stream group t s g r id := by
  intro s t
  have hs : s.Timed stream group t := (timed_start stream group now).after rs
  refine ⟨hs.absent, fun g hg => ?_⟩
  have hg' := hs.present g hg
  have hd := hg'.disciplined
  refine ⟨fun id => ⟨hd.retryCounts id, hd.length_le id⟩, ?_, ?_, fun r g₁ hg₁ => ?_⟩
  · exact fun a b c d₁ d₂ time₁ time₂ ht hid hb => hd.between ht hid hb
  · exact fun a c d₁ d₂ time₁ time₂ ht hnone hmem => hd.first ht hnone hmem
  · have hstep := s.serve_group stream group r
    rw [hg] at hstep
    obtain ⟨g₂, hg₂, -, hparked⟩ := hstep.timed hs.coherent hg'
    obtain rfl := Option.some.inj (hg₂.symm.trans hg₁)
    exact hparked

/-- A record is handed out twice and is not answered in time. -/
def unansweredRun : List Request :=
  let reader : Member := ⟨"order-1", "readers", 0, false⟩
  [.createGroup "order-1" "readers" { messageTimeout := 100, maxRetryCount := 1 },
    .call (.append "order-1" .any [⟨"Placed", [], []⟩]),
    .pollMember reader, .elapse 100, .pollMember reader, .elapse 100]

/-- When the reader asks again, the record is parked because it is exhausted. -/
theorem redelivery_disciplined_unansweredRun :
    let s := (start 0).after unansweredRun
    let t := (start 0).timeline "order-1" "readers" unansweredRun
    let r : Request := .pollMember ⟨"order-1", "readers", 0, false⟩
    (t.handOuts 0).map (·.1.retryCount) = [0, 1] ∧
    ∃ g g', s.group? "order-1" "readers" = some g ∧
      (s.serve r).2.group? "order-1" "readers" = some g' ∧ ackIds g.parked = [] ∧
      ackIds g'.parked = [0] ∧ ParksDuly "order-1" "readers" t s g r 0 := by
  intro s t r
  have h := (redelivery_disciplined 0 "order-1" "readers" unansweredRun).2
  obtain ⟨g, hg⟩ : ∃ g, s.group? "order-1" "readers" = some g :=
    Option.isSome_iff_exists.1 (by decide +kernel)
  obtain ⟨g', hg'⟩ : ∃ g', (s.serve r).2.group? "order-1" "readers" = some g' :=
    Option.isSome_iff_exists.1 (by decide +kernel)
  have hbefore : (s.group? "order-1" "readers").map (fun g => ackIds g.parked) = some [] := by
    decide +kernel
  have hafter : ((s.serve r).2.group? "order-1" "readers").map (fun g => ackIds g.parked) =
      some [0] := by
    decide +kernel
  rw [hg] at hbefore
  rw [hg'] at hafter
  have hparked : ackIds g.parked = [] := Option.some.inj hbefore
  have hparked' : ackIds g'.parked = [0] := Option.some.inj hafter
  refine ⟨by decide +kernel, g, g', hg, hg', hparked, hparked', ?_⟩
  rcases (h g hg).2.2.2 r g' hg' 0 (hparked' ▸ List.mem_singleton_self 0) with hid | hid
  · rw [hparked] at hid
    cases hid
  · exact hid

end EventSourcing.Server
