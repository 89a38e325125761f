import EventSourcing.Proofs.Group.Run

/-!
# What requests add to the history of a group

A poll adds what it hands out, and members settle nothing but what they ask for (`Server.note_ack`,
`Server.note_nack`). Requests of others add nothing.
-/

namespace EventSourcing

/-- Whether a request does not come from a member of the group. -/
def Request.IsForeign (r : Request) (stream group : String) : Prop :=
  ∀ m, r.member? = some m → ¬ (m.stream = stream ∧ m.group = group)

theorem Group.settling_subset (step : Group → RecordId → Group) (g : Group) (ids : List RecordId) :
    settling step g ids ⊆ ids := by
  induction ids generalizing g with
  | nil => exact List.Subset.refl _
  | cons id ids ih =>
      refine List.append_subset.2 ⟨?_, List.Subset.trans (ih _) (List.subset_cons_self _ _)⟩
      split
      · exact List.cons_subset.2 ⟨List.mem_cons_self, List.nil_subset _⟩
      · exact List.nil_subset _

/-- Nothing is skipped by what asks for something else, or is refused. -/
theorem GroupHistory.note_nack {h : GroupHistory} {g : Group} {m : Member} {ids : List RecordId}
    {action : Refusal} {reply : Reply}
    (hr : action ≠ .skip ∨ ∃ e, reply = .settled (.error e) m) :
    h.note g (.nack m ids action) reply = h := by
  rcases hr with hr | ⟨e, rfl⟩
  · cases action with
    | skip => exact absurd rfl hr
    | _ => rfl
  · cases action <;> rfl

namespace Server

variable {stream group : String} {h : GroupHistory} {s : Server} {m : Member}

theorem note_of_foreign {r : Request} (hr : r.IsForeign stream group) :
    note stream group h s r = h := by
  unfold note
  split
  · exact if_neg (hr _ ‹_›)
  · rfl

theorem note_pollMember (hm : m.stream = stream ∧ m.group = group) :
    note stream group h s (.pollMember m) =
      { h with handedOut := h.handedOut ++ (m.poll s).1.delivery?.toList } := by
  obtain ⟨rfl, rfl⟩ := hm
  rcases s.poll_eq m with ⟨-, hd⟩ | ⟨g, hg, -, -⟩
  · unfold note
    rw [hd, Option.toList_none, List.append_nil]
    simp only [GroupHistory.note, serve, hd, Option.toList_none, List.append_nil, ite_self]
    split <;> rfl
  · unfold note
    rw [hg]
    exact if_pos ⟨rfl, rfl⟩

theorem connect_eq_ok (hc : (Member.connect s stream group).1 = .ok m) :
    m.stream = stream ∧ m.group = group := by
  unfold Member.connect at hc
  split at hc
  · cases hc
  · split at hc
    · cases hc
    · obtain rfl := Except.ok.inj hc
      exact ⟨rfl, rfl⟩

section Settling

variable (stream group : String) (h : GroupHistory) (s : Server) (m : Member)

theorem nack_key (ids : List RecordId) (action : Refusal) :
    (m.nack s ids action).2.1.stream = m.stream ∧ (m.nack s ids action).2.1.group = m.group := by
  unfold Member.nack
  repeat' split
  all_goals exact ⟨rfl, rfl⟩

theorem note_ack (ids : List RecordId) :
    ∃ new, note stream group h s (.ack m ids) = { h with acknowledged := h.acknowledged ++ new } ∧
      ∀ id ∈ new, id ∈ ids ∧ (m.ack s ids).1 = .ok () := by
  have hnone : ∃ new, h = { h with acknowledged := h.acknowledged ++ new } ∧
      ∀ id ∈ new, id ∈ ids ∧ (m.ack s ids).1 = .ok () :=
    ⟨[], by rw [List.append_nil], fun _ hid => by cases hid⟩
  unfold note
  split
  · rename_i g m' hg hm
    obtain rfl := Option.some.inj hm
    split
    · rcases s.ack_eq m ids with ⟨e, he⟩ | ⟨g', -, he⟩
      · simp only [GroupHistory.note, serve, he]
        rwa [he] at hnone
      · simp only [GroupHistory.note, serve, he]
        exact ⟨_, rfl, fun id hid => ⟨g.settling_subset _ ids hid, trivial⟩⟩
    · exact hnone
  · exact hnone

theorem note_nack (ids : List RecordId) (action : Refusal) :
    ∃ new, note stream group h s (.nack m ids action) = { h with skipped := h.skipped ++ new } ∧
      ∀ id ∈ new, id ∈ ids ∧ action = .skip ∧ (m.nack s ids action).1 = .ok () := by
  have hnone : ∃ new, h = { h with skipped := h.skipped ++ new } ∧
      ∀ id ∈ new, id ∈ ids ∧ action = .skip ∧ (m.nack s ids action).1 = .ok () :=
    ⟨[], by rw [List.append_nil], fun _ hid => by cases hid⟩
  unfold note
  split
  · rename_i g m' hg hm
    obtain rfl := Option.some.inj hm
    split
    · rcases s.nack_eq m ids action with ⟨e, he⟩ | ⟨g', m', -, he⟩
      · rw [GroupHistory.note_nack (.inr ⟨e, by simp only [serve, he]⟩)]
        exact hnone
      · by_cases ha : action = .skip
        · subst ha
          refine ⟨g.settling (Group.nackOne .skip) ids, ?_, fun id hid => ?_⟩
          · simp only [GroupHistory.note, serve, he]
          · exact ⟨g.settling_subset _ ids hid, rfl, by rw [he]⟩
        · rw [GroupHistory.note_nack (.inl ha)]
          exact hnone
    · exact hnone
  · exact hnone

end Settling

end Server

end EventSourcing
