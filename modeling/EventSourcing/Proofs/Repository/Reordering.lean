import EventSourcing.Domain.Order
import EventSourcing.Proofs.Repository.Replay
import EventSourcing.Proofs.Sorting

/-!
# The order of a replay

Records are replayed in the order of their positions, and those at one position as they came, so it
does not matter in which order records come in unless some of them share a position
(`replays_in_position_order`).
-/

namespace EventSourcing

theorem arranges_inPositionOrder {E : Type} (records : List (Record E)) :
    Arranges (·.position) (inPositionOrder records) records :=
  arranges_mergeSort (·.position) records

section Replay

variable {A E : Type} [DomainEvent E] [Aggregate A E] {records ordered : List (Record E)}

/-- The events are applied one by one in the only order that their positions allow. -/
theorem replay_of_arranges (h : Arranges (·.position) ordered records) :
    (replay records : A) = applyAll Aggregate.zero (ordered.map (·.data)) := by
  rw [replay, h.eq (arranges_inPositionOrder records)]

/-- Records are replayed in the order of their positions, and those at one position as they came. So
if none share a position, they may come in any order; and if one list lies behind another one, the
two are replayed one after the other, however they are shuffled. -/
theorem replays_in_position_order (records : List (Record E)) :
    ((∃ ordered, Arranges (·.position) ordered records) ∧
      ∀ ordered, Arranges (·.position) ordered records →
        (replay records : A) = applyAll Aggregate.zero (ordered.map (·.data))) ∧
    ((records.map (·.position)).Nodup → ∀ shuffled : List (Record E), shuffled.Perm records →
      (replay shuffled : A) = replay records ∧
      ((shuffled.Pairwise fun r r' => r.position < r'.position) →
        (replay records : A) = applyAll Aggregate.zero (shuffled.map (·.data)))) ∧
    ∀ later : List (Record E), (∀ r ∈ records, ∀ l ∈ later, r.position < l.position) →
      ∀ shuffled : List (Record E), Shuffled records later shuffled ∨
          ((records ++ later).map (·.position)).Nodup ∧ shuffled.Perm (records ++ later) →
        ∀ ordered, Arranges (·.position) ordered later →
          (replay shuffled : A) = applyAll (replay records) (ordered.map (·.data)) := by
  have harranges := arranges_inPositionOrder records
  refine ⟨⟨⟨_, harranges⟩, fun _ => replay_of_arranges⟩, fun hn shuffled hp => ⟨?_, ?_⟩, ?_⟩
  · rw [replay_of_arranges harranges]
    exact replay_of_arranges (harranges.congr (filter_eq_of_perm hn hp))
  · intro hup
    exact replay_of_arranges ⟨hup.imp Nat.le_of_lt, filter_eq_of_perm hn hp⟩
  · intro later hlt shuffled hs ordered hordered
    have hsame : ∀ p, (shuffled.filter fun r => r.position = p) =
        (records ++ later).filter fun r => r.position = p := by
      cases hs with
      | inl hs => exact hs.filter_eq hlt
      | inr hs => exact filter_eq_of_perm hs.1 hs.2
    have hboth := (harranges.append hordered hlt).congr hsame
    rw [replay_of_arranges hboth, replay_of_arranges harranges, List.map_append, applyAll_append]

end Replay

namespace Domain

/-- The record of an event of an order at a position. -/
def OrderEvent.recordAt (event : OrderEvent) (position : Nat) : Record OrderEvent :=
  ⟨"order-1", event.typeName, position, position, position, 0, event, []⟩

theorem replays_in_position_order_shuffledOrder :
    let records := [OrderEvent.shipped.recordAt 1, (OrderEvent.placed "a").recordAt 0]
    let later := [OrderEvent.deleted.recordAt 2, (OrderEvent.placed "b").recordAt 2]
    let shuffled := [OrderEvent.deleted.recordAt 2, OrderEvent.shipped.recordAt 1,
      (OrderEvent.placed "b").recordAt 2, (OrderEvent.placed "a").recordAt 0]
    (records.map (·.position)).Nodup ∧ Shuffled records later shuffled ∧
      (replay records : Order) = ⟨some "a", [], .shipped⟩ ∧
      (replay shuffled : Order) = ⟨some "b", [], .placed⟩ := by
  intro records later shuffled
  have hn : (records.map (·.position)).Nodup := by decide
  have hs : Shuffled records later shuffled := .right (.left (.right (.left .nil)))
  obtain ⟨-, hdistinct, hbehind⟩ := replays_in_position_order (A := Order) records
  have hrecords := (hdistinct hn records.reverse records.reverse_perm).2 (by decide)
  have hlater : Arranges (·.position) later later := ⟨by decide, fun _ => rfl⟩
  have hshuffled := hbehind later (by decide) shuffled (.inl hs) later hlater
  refine ⟨hn, hs, hrecords, ?_⟩
  rw [hshuffled, hrecords]
  rfl

end Domain

end EventSourcing
