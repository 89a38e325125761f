import EventSourcing.Log.Group
import Mathlib.Data.List.Induction

/-!
# Timelines of a group

What a group has handed out and what was handed back to it, in the order of time. A record may be
handed out again when it has come back or has been in flight for too long, and not more often than
the settings of the group allow (`Timeline.Disciplined`).
-/

namespace EventSourcing

/-! ## Timelines -/

/-- What happens to the records of a group. -/
inductive GroupEvent
  | handedOut (delivery : Delivery) (time : Nat)
  | refused (ids : List RecordId) (action : Refusal)
  /-- All connections were dropped. -/
  | recalled

abbrev Timeline := List GroupEvent

namespace GroupEvent

def handOut? : GroupEvent → Option (Delivery × Nat)
  | .handedOut d time => some (d, time)
  | _ => none

/-- Whether the record goes back to be handed out again. -/
def Returns (id : RecordId) : GroupEvent → Prop
  | .handedOut _ _ => False
  | .refused ids action => id ∈ ids ∧ (action = .retry ∨ action = .stop)
  | .recalled => True

end GroupEvent

namespace Timeline

/-- When a record was handed out, and how. -/
def handOuts (t : Timeline) (id : RecordId) : List (Delivery × Nat) :=
  (t.filterMap GroupEvent.handOut?).filter (·.1.ackId = id)

/-- Whether a record has come back since it was handed out last. -/
def Returned (t : Timeline) (id : RecordId) : Prop :=
  ∃ a b, t = a ++ b ∧ handOuts b id = [] ∧ ∃ e ∈ b, e.Returns id

/-- Whether a record has come back, or its time in flight is over. -/
def IsDue (t : Timeline) (settings : GroupSettings) (id : RecordId) (now : Nat) : Prop :=
  t.Returned id ∨
  ∃ d time, (t.handOuts id).getLast? = some (d, time) ∧ time + settings.messageTimeout ≤ now

/-- Whether a record was handed out as often as the settings allow, and is due again. -/
def Exhausted (t : Timeline) (settings : GroupSettings) (id : RecordId) (now : Nat) : Prop :=
  (t.handOuts id).length = settings.maxRetryCount + 1 ∧ t.IsDue settings id now

/-- Whether a group may hand out a record when this has happened: for the first time only in the
order of positions, and again only when it is due. -/
def Allows (t : Timeline) (settings : GroupSettings) : GroupEvent → Prop
  | .handedOut d now =>
    (t.handOuts d.ackId = [] ∧ d.retryCount = 0 ∧
      ∀ d' time, .handedOut d' time ∈ t → d'.position < d.position) ∨
    ∃ d₀ time, (t.handOuts d.ackId).getLast? = some (d₀, time) ∧ d = d₀.again ∧
      d₀.retryCount < settings.maxRetryCount ∧ t.IsDue settings d.ackId now
  | _ => True

/-- Nothing has happened that was not allowed by then. -/
def Disciplined (t : Timeline) (settings : GroupSettings) : Prop :=
  ∀ a e b, t = a ++ e :: b → Allows a settings e

variable {t a b c : Timeline} {e : GroupEvent} {id : RecordId} {d : Delivery} {time : Nat}
  {settings : GroupSettings}

@[simp] theorem handOuts_append (a b : Timeline) (id : RecordId) :
    handOuts (a ++ b) id = handOuts a id ++ handOuts b id := by
  simp [handOuts]

theorem mem_handOuts : (d, time) ∈ t.handOuts id ↔ .handedOut d time ∈ t ∧ d.ackId = id := by
  unfold handOuts
  rw [List.mem_filter, List.mem_filterMap, decide_eq_true_iff]
  refine and_congr_left fun _ => ⟨?_, fun h => ⟨_, h, rfl⟩⟩
  rintro ⟨e, he, hd⟩
  cases e with
  | handedOut d' time' =>
      obtain ⟨rfl, rfl⟩ := Prod.mk.inj (Option.some.inj hd)
      exact he
  | _ => cases hd

theorem handOuts_of_handOut? (h : e.handOut? = none) (id : RecordId) : handOuts [e] id = [] := by
  simp [handOuts, h]

theorem handOuts_self (d : Delivery) (time : Nat) :
    handOuts [.handedOut d time] d.ackId = [(d, time)] := by
  simp [handOuts, GroupEvent.handOut?]

theorem handOuts_of_ne (h : d.ackId ≠ id) (time : Nat) : handOuts [.handedOut d time] id = [] := by
  simp [handOuts, GroupEvent.handOut?, h]

theorem getLast?_handOuts (h : handOuts b id = []) :
    (handOuts (a ++ .handedOut d time :: b) id).getLast? =
      (handOuts (a ++ [.handedOut d time]) id).getLast? := by
  rw [List.append_cons, handOuts_append, h, List.append_nil]

theorem Returned.append (h : t.Returned id) (hb : handOuts b id = []) :
    Returned (t ++ b) id := by
  obtain ⟨x, y, rfl, hy, e, he, hr⟩ := h
  refine ⟨x, y ++ b, List.append_assoc .., ?_, e, List.mem_append_left _ he, hr⟩
  rw [handOuts_append, hy, hb, List.append_nil]

theorem returned_of_returns (h : e.Returns id) : Returned (t ++ [e]) id := by
  refine ⟨t, [e], rfl, ?_, e, List.mem_singleton_self e, h⟩
  cases e with
  | handedOut d time => cases h
  | _ => rfl

/-- A record has come back after it was handed out last. -/
theorem Returned.of_append (hd : d.ackId = id)
    (h : Returned (a ++ .handedOut d time :: b) id) : ∃ e ∈ b, e.Returns id := by
  obtain ⟨x, y, hxy, hy, e, he, hr⟩ := h
  have hnot : .handedOut d time ∉ y := fun hm => by
    have hmem := mem_handOuts.2 ⟨hm, hd⟩
    rw [hy] at hmem
    cases hmem
  refine ⟨e, ?_, hr⟩
  rcases List.append_eq_append_iff.1 hxy with ⟨c, hx, hc⟩ | ⟨c, -, hc⟩
  · cases c with
    | nil =>
        rw [List.nil_append] at hc
        exact absurd (hc ▸ List.mem_cons_self) hnot
    | cons x c =>
        obtain ⟨-, hb⟩ := List.cons.inj hc
        rw [hb]
        exact List.mem_append_right _ he
  · exact absurd (hc ▸ List.mem_append_right _ List.mem_cons_self) hnot

theorem handOuts_snoc (t : Timeline) (e : GroupEvent) (id : RecordId) :
    handOuts (t ++ [e]) id = handOuts t id ∨ ∃ d time, e = .handedOut d time ∧ d.ackId = id ∧
      handOuts (t ++ [e]) id = handOuts t id ++ [(d, time)] := by
  rw [handOuts_append]
  cases e with
  | handedOut d time =>
      by_cases hid : d.ackId = id
      · subst hid
        exact .inr ⟨d, time, rfl, rfl, by rw [handOuts_self]⟩
      · exact .inl (by rw [handOuts_of_ne hid, List.append_nil])
  | refused ids action => exact .inl (List.append_nil _)
  | recalled => exact .inl (List.append_nil _)

theorem retryCount_last
    (hcounts : (handOuts t id).map (·.1.retryCount) = List.range (handOuts t id).length)
    (hlast : (handOuts t id).getLast? = some (d, time)) :
    d.retryCount + 1 = (handOuts t id).length := by
  have hmap := congrArg List.getLast? hcounts
  rw [List.getLast?_map, hlast, List.getLast?_range] at hmap
  split at hmap
  · cases hmap
  · have hd := Option.some.inj hmap
    simp only at hd
    omega

namespace Disciplined

theorem snoc (h : t.Disciplined settings) (he : t.Allows settings e) :
    Disciplined (t ++ [e]) settings := by
  intro a x b hsplit
  rcases List.eq_nil_or_concat b with rfl | ⟨b, y, rfl⟩
  · obtain ⟨rfl, hx⟩ := List.append_inj' hsplit rfl
    obtain rfl := List.singleton_inj.1 hx
    exact he
  · rw [List.concat_eq_append, ← List.cons_append, ← List.append_assoc] at hsplit
    exact h a x b (List.append_inj' hsplit rfl).1

theorem of_append (h : Disciplined (a ++ b) settings) : Disciplined a settings := by
  intro x e y hsplit
  exact h x e (y ++ b) (by rw [hsplit, List.append_assoc, List.cons_append])

theorem of_handOuts_eq_nil (h : ∀ id, handOuts t id = []) : t.Disciplined settings := by
  intro a e b ht
  cases e with
  | handedOut d time =>
      have hmem : (d, time) ∈ handOuts t d.ackId :=
        mem_handOuts.2 ⟨ht ▸ List.mem_append_right _ List.mem_cons_self, rfl⟩
      rw [h] at hmem
      cases hmem
  | _ => trivial

/-- Each time a record is handed out, it says how often that has happened before. -/
theorem retryCounts (h : t.Disciplined settings) (id : RecordId) :
    (handOuts t id).map (·.1.retryCount) = List.range (handOuts t id).length := by
  induction t using List.reverseRecOn with
  | nil => rfl
  | append_singleton t e ih =>
      have hcounts := ih h.of_append
      rcases handOuts_snoc t e id with he | ⟨d, time, rfl, rfl, he⟩
      · rwa [he]
      · have hcount : d.retryCount = (handOuts t d.ackId).length := by
          rcases h t _ [] rfl with ⟨hnone, hzero, -⟩ | ⟨d₀, time₀, hlast, hd, -⟩
          · rw [hzero, hnone, List.length_nil]
          · rw [← retryCount_last hcounts hlast, hd]
            rfl
        rw [he, List.map_append, List.length_append, hcounts, List.map_singleton, hcount]
        exact List.range_succ.symm

/-- A record is not handed out again more often than the settings say. -/
theorem length_le (h : t.Disciplined settings) (id : RecordId) :
    (handOuts t id).length ≤ settings.maxRetryCount + 1 := by
  induction t using List.reverseRecOn with
  | nil => exact Nat.zero_le _
  | append_singleton t e ih =>
      rcases handOuts_snoc t e id with he | ⟨d, time, rfl, rfl, he⟩
      · rw [he]
        exact ih h.of_append
      · rw [he, List.length_append, List.length_singleton]
        rcases h t _ [] rfl with ⟨hnone, -⟩ | ⟨d₀, time₀, hlast, -, hlt, -⟩
        · rw [hnone]
          exact Nat.le_add_left _ _
        · rw [← retryCount_last (h.of_append.retryCounts d.ackId) hlast]
          exact Nat.succ_le_succ hlt

variable {d₁ d₂ : Delivery} {time₁ time₂ : Nat}

/-- Between two times that a record is handed out it comes back, or its time in flight is over. -/
theorem between (h : t.Disciplined settings)
    (ht : t = a ++ .handedOut d₁ time₁ :: b ++ .handedOut d₂ time₂ :: c)
    (hid : d₂.ackId = d₁.ackId) (hb : handOuts b d₁.ackId = []) :
    (∃ e ∈ b, e.Returns d₁.ackId) ∨ time₁ + settings.messageTimeout ≤ time₂ := by
  have hlast : (handOuts (a ++ .handedOut d₁ time₁ :: b) d₁.ackId).getLast? = some (d₁, time₁) := by
    rw [getLast?_handOuts hb, handOuts_append, handOuts_self]
    exact List.getLast?_concat
  rcases h _ _ c ht with ⟨hnone, -⟩ | ⟨d₀, time₀, -, -, -, hdue⟩
  · rw [hid] at hnone
    rw [hnone] at hlast
    cases hlast
  · rw [hid] at hdue
    rcases hdue with hback | ⟨d, time, hd, hle⟩
    · exact .inl (hback.of_append rfl)
    · obtain ⟨-, rfl⟩ := Prod.mk.inj (Option.some.inj (hlast.symm.trans hd))
      exact .inr hle

/-- Records are handed out for the first time in the order of their positions. -/
theorem first (h : t.Disciplined settings) (ht : t = a ++ .handedOut d₂ time₂ :: c)
    (hnone : handOuts a d₂.ackId = []) (hd : .handedOut d₁ time₁ ∈ a) :
    d₁.position < d₂.position := by
  rcases h _ _ c ht with ⟨-, -, hlt⟩ | ⟨d₀, time₀, hlast, -⟩
  · exact hlt d₁ time₁ hd
  · rw [hnone] at hlast
    cases hlast

/-- At one position only one record is ever handed out. -/
theorem ackId_unique (h : t.Disciplined settings) (h₁ : .handedOut d₁ time₁ ∈ t)
    (h₂ : .handedOut d₂ time₂ ∈ t) (hp : d₁.position = d₂.position) : d₁.ackId = d₂.ackId := by
  induction t using List.reverseRecOn generalizing d₁ d₂ time₁ time₂ with
  | nil => cases h₁
  | append_singleton t e ih =>
      have ih {d₁ d₂ time₁ time₂} := @ih d₁ d₂ time₁ time₂ h.of_append
      -- What is handed out last is new, and then beyond all the others, or was handed out before.
      have hlast {d d' : Delivery} {time time' : Nat} (he : e = .handedOut d time)
          (hd' : .handedOut d' time' ∈ t) (hp : d'.position = d.position) : d'.ackId = d.ackId := by
        subst he
        rcases h t _ [] rfl with ⟨-, -, hlt⟩ | ⟨d₀, time₀, hd₀, rfl, -⟩
        · exact absurd hp (Nat.ne_of_lt (hlt d' time' hd'))
        · have hid : d'.ackId = d₀.ackId := ih hd' (mem_handOuts.1 (List.mem_of_getLast? hd₀)).1 hp
          exact hid
      simp only [List.mem_append, List.mem_singleton] at h₁ h₂
      rcases h₁ with h₁ | h₁ <;> rcases h₂ with h₂ | h₂
      · exact ih h₁ h₂ hp
      · exact hlast h₂.symm h₁ hp
      · exact (hlast h₁.symm h₂ hp.symm).symm
      · obtain ⟨rfl, -⟩ := GroupEvent.handedOut.inj (h₁.trans h₂.symm)
        rfl

end Disciplined

end Timeline

end EventSourcing
