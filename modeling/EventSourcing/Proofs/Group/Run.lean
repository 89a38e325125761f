import EventSourcing.Proofs.Group.Conservation

/-!
# Groups in a run

Whatever a server is asked, each of its groups conserves its records: every request that touches a
group is one of the operations of `Group.Conserved`.
-/

namespace EventSourcing

/-- The delivery that a poll brings. -/
def Poll.delivery? : Poll → Option Delivery
  | .delivery d => some d
  | _ => none

/-- The member on whose behalf something is asked. -/
def Request.member? : Request → Option Member
  | .pollMember m | .ack m _ | .nack m _ _ => some m
  | _ => none

/-- Notes what a request to a group made come out of it. -/
def GroupHistory.note (h : GroupHistory) (g : Group) : Request → Reply → GroupHistory
  | .pollMember _, .member p => { h with handedOut := h.handedOut ++ p.delivery?.toList }
  | .ack _ ids, .settled (.ok _) _ =>
    { h with acknowledged := h.acknowledged ++ g.settling Group.ackOne ids }
  | .nack _ ids .skip, .settled (.ok _) _ =>
    { h with skipped := h.skipped ++ g.settling (Group.nackOne .skip) ids }
  | _, _ => h

/-- What a group and its history become when one of its members polls or settles records. -/
inductive Group.Answers (entries : List Entry) (now : Nat) (h : GroupHistory) (g : Group) :
    GroupHistory → Group → Prop
  | polled : Answers entries now h g
      { h with handedOut := h.handedOut ++ (g.poll entries now).1.toList } (g.poll entries now).2
  | acked (ids : List RecordId) : Answers entries now h g
      { h with acknowledged := h.acknowledged ++ g.settling ackOne ids } (g.ack ids)
  | nacked {action : Refusal} (ha : action ≠ .skip) (ids : List RecordId) :
    Answers entries now h g h (g.nack ids action)
  | skipped (ids : List RecordId) : Answers entries now h g
      { h with skipped := h.skipped ++ g.settling (nackOne .skip) ids } (g.nack ids .skip)

theorem Group.Conserved.answers {log : Log} {g g' : Group} {h h' : GroupHistory} {now : Nat}
    (hc : g.Conserved log h) (hl : log.Coherent) (hs : g.scope.IsSteady)
    (ha : g.Answers log.entries now h h' g') : Group.Advanced log g h g' h' := by
  cases ha with
  | polled => exact hc.polled hl hs (Group.poll_polled hc.unsettled_nodup ..)
  | acked ids => exact hc.ack ids
  | nacked ha ids => exact hc.nack ha ids
  | skipped ids => exact hc.skip ids

namespace Server

section Observation

variable (stream group : String)

/-- Notes what comes out of one group when a request is served. -/
def note (h : GroupHistory) (s : Server) (r : Request) : GroupHistory :=
  match s.group? stream group, r.member? with
  | some g, some m => if m.stream = stream ∧ m.group = group then h.note g r (s.serve r).1 else h
  | _, _ => h

/-- What has come out of one group when all these requests have been served. -/
def noteAll (h : GroupHistory) (s : Server) : List Request → GroupHistory
  | [] => h
  | r :: rs => noteAll (note stream group h s r) (s.serve r).2 rs

/-- The ids that the group may never hand out again. -/
def closedIds (h : GroupHistory) (s : Server) : List RecordId :=
  (s.group? stream group).elim [] (·.closed h)

theorem noteAll_append (h : GroupHistory) (s : Server) (rs qs : List Request) :
    s.noteAll stream group h (rs ++ qs) =
      (s.after rs).noteAll stream group (s.noteAll stream group h rs) qs := by
  induction rs generalizing s h with
  | nil => rfl
  | cons r rs ih => exact ih _ _

/-- The group, if it is there, conserves its records; else nothing has come out of it. -/
structure Accounted (h : GroupHistory) (s : Server) : Prop where
  coherent : s.log.Coherent
  absent : s.group? stream group = none → h = {}
  present : ∀ g, s.group? stream group = some g →
    g.scope = .ofName stream ∧ g.Conserved s.log h

/-- What serving a request does to what is noted of a group. -/
structure Progress (h h' : GroupHistory) (s s' : Server) : Prop where
  accounted : s'.Accounted stream group h'
  closed : s.closedIds stream group h ⊆ s'.closedIds stream group h'
  handedOut : ∃ ds, h'.handedOut = h.handedOut ++ ds ∧ ∀ d ∈ ds, d.ackId ∉ s.closedIds stream group h

end Observation

section Progress

variable {stream group : String} {s s' : Server} {h h' : GroupHistory} {g g' : Group}

theorem Progress.same (ha : s.Accounted stream group h)
    (hg : s'.group? stream group = s.group? stream group) (hl : s'.log = s.log) :
    Progress stream group h h s s' where
  accounted := ⟨hl ▸ ha.coherent, hg ▸ ha.absent, by rw [hg, hl]; exact ha.present⟩
  closed := by
    unfold closedIds
    rw [hg]
    exact fun _ hid => hid
  handedOut := ⟨[], (List.append_nil _).symm, fun _ hd => by cases hd⟩

theorem Progress.moved (ha : s.Accounted stream group h)
    (hg : s.group? stream group = some g) (hg' : s'.group? stream group = some g')
    (hl : s'.log = s.log) (hm : Group.Advanced s.log g h g' h') :
    Progress stream group h h' s s' where
  accounted := by
    refine ⟨hl ▸ ha.coherent, fun hn => absurd (hg'.symm.trans hn) (by simp), fun g₁ hg₁ => ?_⟩
    obtain rfl := Option.some.inj (hg'.symm.trans hg₁)
    exact ⟨hm.scope.trans (ha.present g hg).1, hl ▸ hm.conserved⟩
  closed := by
    unfold closedIds
    rw [hg, hg']
    exact hm.closed
  handedOut := by
    unfold closedIds
    rw [hg]
    exact hm.handedOut

theorem Progress.trans {s₁ : Server} {h₁ : GroupHistory} (h₀₁ : Progress stream group h h₁ s s₁)
    (h₁₂ : Progress stream group h₁ h' s₁ s') : Progress stream group h h' s s' where
  accounted := h₁₂.accounted
  closed _ hid := h₁₂.closed (h₀₁.closed hid)
  handedOut := exists_handedOut_append h₀₁.closed h₀₁.handedOut h₁₂.handedOut

end Progress

/-! ## What requests do to groups -/

theorem group?_setGroup (s : Server) (stream group stream' group' : String) (g : Group) :
    (s.setGroup stream' group' g).group? stream group =
      if stream' = stream ∧ group' = group then some g else s.group? stream group := by
  unfold group? setGroup
  rw [Table.get?_insert]
  simp only [Prod.mk.injEq, eq_comm]

theorem letIn_groups (s : Server) : s.letIn.2.groups = s.groups := by
  unfold letIn
  split <;> rfl

theorem call_groups (s : Server) (c : StreamCall) : (s.call c).2.groups = s.groups := by
  cases c with
  | append stream expected events =>
      simp only [call, append]
      split <;> rfl
  | read stream start => rfl
  | version stream => rfl
  | tombstone stream =>
      simp only [call, tombstone]
      split <;> rfl

theorem openAt_groups (s : Server) (stream : String) (start : Option Nat) :
    (CatchUp.openAt s stream start).2.groups = s.groups := by
  have h := s.letIn_groups
  unfold CatchUp.openAt
  split <;> rename_i hl <;> rw [hl] at h <;> exact h

theorem connect_groups (s : Server) (stream group : String) :
    (Member.connect s stream group).2.groups = s.groups := by
  have h := s.letIn_groups
  unfold Member.connect
  split <;> rename_i hl <;> rw [hl] at h
  · exact h
  · split <;> exact h

theorem poll_eq (s : Server) (m : Member) :
    ((m.poll s).2 = s ∧ (m.poll s).1.delivery? = none) ∨
    ∃ g, s.group? m.stream m.group = some g ∧
      (m.poll s).2 = s.setGroup m.stream m.group (g.poll s.log.entries s.now).2 ∧
      (m.poll s).1.delivery? = (g.poll s.log.entries s.now).1 := by
  unfold Member.poll
  split
  · exact .inl ⟨rfl, rfl⟩
  · split
    · exact .inl ⟨rfl, rfl⟩
    · split
      · exact .inl ⟨rfl, rfl⟩
      · rename_i g hg
        refine .inr ⟨g, hg, ?_⟩
        split <;> rename_i hp <;> rw [hp]
        · exact ⟨rfl, rfl⟩
        · refine ⟨rfl, ?_⟩
          split <;> rfl

theorem ack_eq (s : Server) (m : Member) (ids : List RecordId) :
    (∃ e, m.ack s ids = (.error e, s)) ∨
    ∃ g, s.group? m.stream m.group = some g ∧
      m.ack s ids = (.ok (), s.setGroup m.stream m.group (g.ack ids)) := by
  unfold Member.ack
  split
  · exact .inl ⟨_, rfl⟩
  · split
    · exact .inl ⟨_, rfl⟩
    · rename_i g hg
      exact .inr ⟨g, hg, rfl⟩

theorem nack_eq (s : Server) (m : Member) (ids : List RecordId) (action : Refusal) :
    (∃ e, m.nack s ids action = (.error e, m, s)) ∨
    ∃ g m', s.group? m.stream m.group = some g ∧
      m.nack s ids action = (.ok (), m', (s.setGroup m.stream m.group (g.nack ids action)).wake) := by
  unfold Member.nack
  split
  · exact .inl ⟨_, rfl⟩
  · split
    · exact .inl ⟨_, rfl⟩
    · rename_i g hg
      exact .inr ⟨g, _, hg, rfl⟩

/-! ## Steps and runs -/

section Steps

variable {stream group : String} {s : Server} {h : GroupHistory}

theorem note_of_no_member {r : Request} (hr : r.member? = none) : note stream group h s r = h := by
  unfold note
  rw [hr]
  split
  · contradiction
  · rfl

/-- A request of a member is answered by its own group, or comes to nothing. -/
theorem serve_of_member (s : Server) {r : Request} {m : Member} (hr : r.member? = some m)
    (h : GroupHistory) :
    ((s.serve r).2.groups = s.groups ∧ ∀ g, h.note g r (s.serve r).1 = h) ∨
    ∃ g g', s.group? m.stream m.group = some g ∧
      (s.serve r).2.groups = (s.setGroup m.stream m.group g').groups ∧
      g.Answers s.log.entries s.now h (h.note g r (s.serve r).1) g' := by
  cases r with
  | pollMember m =>
      obtain rfl := Option.some.inj hr
      simp only [serve, GroupHistory.note]
      rcases s.poll_eq m with ⟨hp, hd⟩ | ⟨g, hg, hp, hd⟩
      · rw [hp, hd, Option.toList_none, List.append_nil]
        exact .inl ⟨rfl, fun _ => rfl⟩
      · rw [hp, hd]
        exact .inr ⟨g, _, hg, rfl, .polled⟩
  | ack m ids =>
      obtain rfl := Option.some.inj hr
      rcases s.ack_eq m ids with ⟨e, he⟩ | ⟨g, hg, he⟩
      · simp only [serve, he]
        exact .inl ⟨trivial, fun _ => rfl⟩
      · simp only [serve, he]
        exact .inr ⟨g, _, hg, rfl, .acked ids⟩
  | nack m ids action =>
      obtain rfl := Option.some.inj hr
      rcases s.nack_eq m ids action with ⟨e, he⟩ | ⟨g, m', hg, he⟩
      · simp only [serve, he]
        exact .inl ⟨trivial, fun _ => by cases action <;> rfl⟩
      · simp only [serve, he]
        refine .inr ⟨g, _, hg, rfl, ?_⟩
        cases action with
        | skip => exact .skipped ids
        | park => exact .nacked (by decide) ids
        | retry => exact .nacked (by decide) ids
        | stop => exact .nacked (by decide) ids
  | _ => cases hr

/-- What a request of a member comes to for a group: nothing, or the group is the member's own. -/
theorem group_of_member {r : Request} {m : Member} (hr : r.member? = some m) (s : Server)
    (h : GroupHistory) :
    ((s.serve r).2.group? stream group = s.group? stream group ∧ note stream group h s r = h) ∨
    ∃ g g', s.group? stream group = some g ∧ (s.serve r).2.group? stream group = some g' ∧
      g.Answers s.log.entries s.now h (note stream group h s r) g' := by
  have hnote (g : Group) (hg : s.group? stream group = some g) : note stream group h s r =
      if m.stream = stream ∧ m.group = group then h.note g r (s.serve r).1 else h := by
    simp only [note, hg, hr]
  rcases s.serve_of_member hr h with ⟨hgroups, hsame⟩ | ⟨g, g', hg, hgroups, ha⟩
  · refine .inl ⟨congrArg (·.get? (stream, group)) hgroups, ?_⟩
    cases hg : s.group? stream group with
    | none => simp only [note, hg]
    | some g => rw [hnote g hg, hsame, ite_self]
  · have hafter : (s.serve r).2.group? stream group =
        (s.setGroup m.stream m.group g').group? stream group :=
      congrArg (·.get? (stream, group)) hgroups
    rw [group?_setGroup] at hafter
    by_cases hm : m.stream = stream ∧ m.group = group
    · rw [if_pos hm] at hafter
      rw [hm.1, hm.2] at hg
      rw [hnote g hg, if_pos hm]
      exact .inr ⟨g, g', hg, hafter, ha⟩
    · rw [if_neg hm] at hafter
      refine .inl ⟨hafter, ?_⟩
      cases hg₀ : s.group? stream group with
      | none => simp only [note, hg₀]
      | some g₀ => rw [hnote g₀ hg₀, if_neg hm]

theorem Accounted.call (hs : (Scope.ofName stream).IsSteady) (ha : s.Accounted stream group h)
    (c : StreamCall) : Progress stream group h h s (s.call c).2 := by
  have hg : (s.call c).2.group? stream group = s.group? stream group :=
    congrArg (·.get? (stream, group)) (s.call_groups c)
  rcases s.serve_log (.call c) with hl | hl
  · exact .same ha hg hl
  · have hl' := ha.coherent.step hl
    refine ⟨⟨hl', hg ▸ ha.absent, fun g hg' => ?_⟩, ?_, [], (List.append_nil _).symm, ?_⟩
    · obtain ⟨hscope, hc⟩ := ha.present g (hg ▸ hg')
      exact ⟨hscope, hc.grow ha.coherent hl' (hscope ▸ hs) hl⟩
    · unfold closedIds
      rw [hg]
      exact fun _ hid => hid
    · exact fun _ hd => by cases hd

theorem Accounted.createGroup (ha : s.Accounted stream group h) (stream' group' : String)
    (settings : GroupSettings) :
    Progress stream group h h s (s.createGroup stream' group' settings) := by
  have hl := s.createGroup_log stream' group' settings
  unfold Server.createGroup at hl ⊢
  split
  · exact .same ha rfl rfl
  · rename_i hnone
    have hg := s.group?_setGroup stream group stream' group' (.new (.ofName stream') settings)
    split at hg
    · rename_i hkey
      obtain ⟨rfl, rfl⟩ := hkey
      obtain rfl := ha.absent hnone
      refine ⟨⟨ha.coherent, fun hn => absurd (hg.symm.trans hn) (by simp), fun g hg' => ?_⟩, ?_,
        [], rfl, fun _ hd => by cases hd⟩
      · obtain rfl := Option.some.inj (hg.symm.trans hg')
        exact ⟨rfl, Group.conserved_new ..⟩
      · unfold closedIds
        rw [hnone]
        exact List.nil_subset _
    · exact .same ha hg rfl

theorem Accounted.disconnectAll (ha : s.Accounted stream group h) :
    Progress stream group h h s s.disconnectAll := by
  have hg : s.disconnectAll.group? stream group =
      (s.group? stream group).map Group.recallAll := Table.get?_mapValues ..
  cases hg₀ : s.group? stream group with
  | none =>
      rw [hg₀] at hg
      exact .same ha (hg.trans hg₀.symm) rfl
  | some g =>
      rw [hg₀] at hg
      exact .moved ha hg₀ hg rfl (ha.present g hg₀).2.recallAll

/-- Every request keeps a group accounted for. -/
theorem Accounted.serve (hs : (Scope.ofName stream).IsSteady) (ha : s.Accounted stream group h)
    (r : Request) : Progress stream group h (note stream group h s r) s (s.serve r).2 := by
  cases hr : r.member? with
  | some m =>
      have hl : (s.serve r).2.log = s.log := s.serve_log_of_ne_call fun c hc => by
        rw [hc] at hr
        cases hr
      rcases s.group_of_member hr h with ⟨hg, hn⟩ | ⟨g, g', hg, hg', hanswers⟩
      · rw [hn]
        exact .same ha hg hl
      · obtain ⟨hscope, hc⟩ := ha.present g hg
        exact .moved ha hg hg' hl (hc.answers ha.coherent (hscope ▸ hs) hanswers)
  | none =>
      rw [note_of_no_member hr]
      cases r with
      | call c => exact ha.call hs c
      | createGroup stream' group' settings => exact ha.createGroup stream' group' settings
      | openReader stream' start =>
          exact .same ha (congrArg (·.get? (stream, group)) (s.openAt_groups stream' start))
            (s.openAt_log stream' start)
      | pollReader c => exact .same ha rfl rfl
      | join stream' group' =>
          exact .same ha (congrArg (·.get? (stream, group)) (s.connect_groups stream' group'))
            (s.connect_log stream' group')
      | disconnectAll => exact ha.disconnectAll
      | turnAway count => exact .same ha rfl rfl
      | elapse milliseconds => exact .same ha rfl rfl
      | _ => cases hr

theorem Accounted.after (hs : (Scope.ofName stream).IsSteady) (ha : s.Accounted stream group h)
    (rs : List Request) : Progress stream group h (s.noteAll stream group h rs) s (s.after rs) := by
  induction rs generalizing s h with
  | nil => exact .same ha rfl rfl
  | cons r rs ih =>
      have hr := ha.serve hs r
      exact hr.trans (ih hr.accounted)

end Steps

/-! ## The main result -/

/-- A group of a server that has started empty conserves its records, whatever is asked of the
server: nothing that was handed out is lost or settled twice, and nothing below the cursor is left
out. What is settled or parked by then is not handed out later on. -/
theorem group_conserved (now : Nat) {stream : String}
    (hs : Text.hasPrefix tombstoneMark stream = false) (group : String) (rs qs : List Request) :
    let s := (start now).after rs
    let h := (start now).noteAll stream group {} rs
    (s.group? stream group = none → h = {}) ∧
    (∀ g, s.group? stream group = some g → g.scope = .ofName stream ∧ g.Conserved s.log h ∧
      g.acknowledged.Nodup ∧ g.skipped.Nodup) ∧
    ∃ later, ((start now).noteAll stream group {} (rs ++ qs)).handedOut = h.handedOut ++ later ∧
      ∀ d ∈ later, d.ackId ∉ h.acknowledged ∧ d.ackId ∉ h.skipped ∧
        ∀ g, s.group? stream group = some g → d.ackId ∉ ackIds g.parked := by
  intro s h
  have hsteady := Scope.isSteady_ofName hs
  have hempty : (start now).Accounted stream group {} :=
    ⟨Log.coherent_empty, fun _ => rfl, fun g hg => by cases hg⟩
  have ha := (hempty.after hsteady rs).accounted
  refine ⟨ha.absent, fun g hg => ?_, ?_⟩
  · obtain ⟨hscope, hc⟩ := ha.present g hg
    have hn := hc.nodup
    unfold Group.places at hn
    refine ⟨hscope, hc, ?_, ?_⟩
    · rw [hc.acknowledged_eq]
      exact (List.nodup_append.1 (List.nodup_append.1 hn).1).2.1.sublist (List.drop_sublist ..)
    · rw [hc.skipped_eq]
      exact (List.nodup_append.1 hn).2.1.sublist (List.drop_sublist ..)
  · obtain ⟨later, hlater, hopen⟩ := (ha.after hsteady qs).handedOut
    rw [noteAll_append]
    refine ⟨later, hlater, fun d hd => ?_⟩
    have hnot := hopen d hd
    unfold closedIds at hnot
    cases hg : s.group? stream group with
    | none =>
        have hh : h = {} := ha.absent hg
        rw [hh]
        exact ⟨List.not_mem_nil, List.not_mem_nil, fun g hg => by cases hg⟩
    | some g =>
        rw [hg] at hnot
        simp only [Option.elim_some, Group.closed, List.mem_append, not_or] at hnot
        refine ⟨hnot.1.2, hnot.2, fun g' hg' => ?_⟩
        obtain rfl := Option.some.inj hg'
        exact hnot.1.1

/-- Two records of a stream are handed out, of which one is acknowledged and the other comes back
and is parked. -/
def orderRun : List Request :=
  let reader : Member := ⟨"order-1", "readers", 0, false⟩
  [.createGroup "order-1" "readers" { messageTimeout := 100 },
    .call (.append "order-1" .any [⟨"Placed", [], []⟩, ⟨"Paid", [], []⟩]),
    .pollMember reader, .pollMember reader, .ack reader [0], .elapse 100, .pollMember reader,
    .nack reader [1] .park]

theorem group_conserved_orderRun : Text.hasPrefix tombstoneMark "order-1" = false ∧
    ∃ g, ((start 0).after orderRun).group? "order-1" "readers" = some g ∧
      ackIds g.parked = [1] ∧ g.acknowledged = [0] ∧
      g.Conserved ((start 0).after orderRun).log
        ((start 0).noteAll "order-1" "readers" {} orderRun) := by
  have hs : Text.hasPrefix tombstoneMark "order-1" = false := by decide
  have hc := (group_conserved 0 hs "readers" orderRun []).2.1
  exact ⟨hs, _, rfl, rfl, rfl, (hc _ rfl).2.1⟩

end Server

end EventSourcing
