import EventSourcing.Proofs.Log.Records
import EventSourcing.Repository.Basic
import Mathlib.Data.List.Forall2

/-!
# Replaying a stream

The records of a stream stand in the order of their positions, so that replaying them applies their
events as they come, and what was saved is replayed as it was raised.
-/

namespace EventSourcing

variable {A E : Type} [DomainEvent E]

/-- Whether what an event is encoded as decodes to the event. -/
def RoundTrips (E : Type) [DomainEvent E] : Prop :=
  ∀ (event : E) (kind : String) (x : EncodedEvent), EncodedEvent.ofEvent event kind = .ok x →
    ∀ r : StoredRecord, r.encoded = x → r.decode E = .event (r.replaceData event)

/-- Decoding by type inverts encoding, if events have types and payloads. -/
theorem roundTrips_of_codec
    (h : ∀ (event : E) (data : Bytes), DomainEvent.encode event = .ok data →
      DomainEvent.eventType event ≠ "" ∧ data ≠ [] ∧
      DomainEvent.decode (DomainEvent.eventType event) data = .event event) : RoundTrips E := by
  intro event kind x hx r hr
  unfold EncodedEvent.ofEvent at hx
  cases hd : DomainEvent.encode event with
  | error e =>
      rw [hd] at hx
      cases hx
  | ok data =>
      rw [hd] at hx
      obtain rfl := Except.ok.inj hx
      obtain ⟨htype, hdata, hdecode⟩ := h event data hd
      have ht : r.eventType = DomainEvent.eventType event := congrArg EncodedEvent.eventType hr
      have hb : r.data = data := congrArg EncodedEvent.data hr
      unfold Record.decode Record.effectiveType?
      rw [ht, if_pos htype, hb]
      simp only [if_neg hdata, hdecode]

/-! ## Decoding -/

theorem Record.position_decode {r : StoredRecord} {e : Record E} (h : r.decode E = .event e) :
    e.position = r.position := by
  obtain ⟨event, rfl⟩ := decode_eq_event h
  rfl

namespace Repository

theorem decodeAll_append (rs rs' : List StoredRecord) :
    decodeAll (E := E) (rs ++ rs') = decodeAll rs ++ decodeAll rs' :=
  List.filterMap_append

/-- Records keep their positions when they are decoded. -/
theorem position_decodeAll (rs : List StoredRecord) :
    ((decodeAll (E := E) rs).map (·.position)).Sublist (rs.map (·.position)) := by
  induction rs with
  | nil => exact List.Sublist.refl _
  | cons r rs ih =>
      unfold decodeAll at ih ⊢
      rw [List.filterMap_cons]
      cases hd : r.decode E with
      | event e =>
          have hp : e.position = r.position := r.position_decode hd
          simp only [List.map_cons, hp]
          exact ih.cons_cons _
      | _ => exact ih.cons _

/-- Pending events are encoded one by one. -/
theorem encodePending_eq_ok {r : Repository A E} {root : Root A E} {events : List EncodedEvent}
    (h : r.encodePending root = .ok events) :
    List.Forall₂ (fun e x => EncodedEvent.ofEvent e r.category = .ok x) root.pending events := by
  unfold encodePending at h
  generalize root.pending = pending at h ⊢
  induction pending generalizing events with
  | nil =>
      rw [← Except.ok.inj h]
      exact .nil
  | cons event pending ih =>
      rw [List.mapM_cons] at h
      cases hx : EncodedEvent.ofEvent event r.category with
      | error e =>
          rw [hx] at h
          cases h
      | ok x =>
          rw [hx] at h
          cases hxs : pending.mapM fun event => EncodedEvent.ofEvent event r.category with
          | error e =>
              simp only [hxs] at h
              cases h
          | ok xs =>
              simp only [hxs] at h
              rw [← Except.ok.inj h]
              exact .cons hx (ih hxs)

theorem encodePending_ne_nil {r : Repository A E} {root : Root A E} {events : List EncodedEvent}
    (h : r.encodePending root = .ok events) (hp : root.pending ≠ []) : events ≠ [] := by
  rintro rfl
  exact hp (List.forall₂_nil_right_iff.1 (encodePending_eq_ok h))

/-- What events are encoded as decodes to these events. -/
theorem data_decodeAll (hE : RoundTrips E) {kind : String} {events : List E}
    {news : List StoredRecord}
    (h : List.Forall₂ (fun e x => EncodedEvent.ofEvent e kind = .ok x) events
      (news.map Record.encoded)) : (decodeAll (E := E) news).map (·.data) = events := by
  induction news generalizing events with
  | nil =>
      cases h
      rfl
  | cons record news ih =>
      cases h with
      | cons hx hrest =>
          have hd := hE _ kind _ hx record rfl
          simp only [decodeAll, List.filterMap_cons, hd, List.map_cons]
          exact congrArg _ (ih hrest)

end Repository

/-! ## Folding -/

variable [Aggregate A E]

theorem applyAll_append (state : A) (es es' : List E) :
    applyAll state (es ++ es') = applyAll (applyAll state es) es' :=
  List.foldl_append

theorem replay_eq {rs : List (Record E)} (h : (rs.map (·.position)).Pairwise (· ≤ ·)) :
    (replay rs : A) = applyAll Aggregate.zero (rs.map (·.data)) := by
  have hs : inPositionOrder rs = rs := by
    refine List.mergeSort_of_pairwise ?_
    exact (List.pairwise_map.1 h).imp decide_eq_true
  rw [replay, hs]

end EventSourcing
