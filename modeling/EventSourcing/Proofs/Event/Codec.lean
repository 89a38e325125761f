import EventSourcing.Domain.Catalog
import EventSourcing.Proofs.Json.Document
import EventSourcing.Proofs.Repository.Replay

/-!
# Encoding and decoding

What an order or an account event is encoded as is decoded to this event, wherever the record stands
and also if the record has no type of its own, since the metadata names the type
(`events_survive`).
-/

namespace EventSourcing

open Json

/-! ## Reading documents -/

/-- Of a written object whose keys are fields, each field is looked up among the members. -/
theorem Json.fields?_trees (names : List String) (members : List (String × Scalar)) :
    Tree.fields? names (.object (trees members)) =
      names.mapM (Tree.member? (trees members)) := by
  have hkeys : ((trees members).all fun m => m.1.isSome) = true := by
    rw [trees, List.all_map, List.all_eq_true]
    exact fun _ _ => rfl
  exact if_pos hkeys

theorem Json.writeObject_ne_nil (members : List (String × Bytes)) : writeObject members ≠ [] :=
  List.cons_ne_nil _ _

theorem Decoded.ofJson_writeObject {E : Type} (eventType : String) {read : Tree → Option E}
    (members : List (String × Scalar)) {event : E}
    (h : read (.object (trees members)) = some event) :
    Decoded.ofJson eventType (writeObject (written members)) read = .event event := by
  rw [Decoded.ofJson, parse?_writeObject, Option.bind_some, h]

/-! ## Metadata -/

namespace Metadata

/-- The members of the document. -/
def members (m : Metadata) : List (String × Scalar) :=
  ("event_type", .text m.eventType) ::
    (m.aggregateType.map fun t => ("aggregate_type", .text t)).toList ++
    [("content_type", .text m.contentType)]

theorem encode_eq_writeObject (m : Metadata) : m.encode = writeObject (written m.members) := by
  unfold encode members
  cases m.aggregateType <;> rfl

theorem decode?_encode (m : Metadata) : decode? m.encode = some m := by
  obtain ⟨eventType, aggregateType, contentType⟩ := m
  rw [decode?, encode_eq_writeObject, parse?_writeObject, Option.bind_eq_bind, Option.bind_some,
    fields?_trees]
  cases aggregateType <;> rfl

end Metadata

/-! ## Payloads -/

/-- Whether every event has a type and an encoding, which is decoded to the event by this type. -/
def Invertible (E : Type) [DomainEvent E] : Prop :=
  ∀ event : E, DomainEvent.eventType event ≠ "" ∧ ∃ data, DomainEvent.encode event = .ok data ∧
    data ≠ [] ∧ DomainEvent.decode (DomainEvent.eventType event) data = .event event

namespace Domain

theorem OrderEvent.decode_payload (event : OrderEvent) :
    OrderEvent.decode event.typeName event.payload = .event event := by
  cases event with
  | placed customer =>
      exact Decoded.ofJson_writeObject "OrderPlaced" [("customer", .text customer)] rfl
  | itemAdded sku quantity =>
      have hlt : quantity.toNat < 4294967296 := quantity.toNat_lt
      have hvalue : (Numeral.ofInt quantity.toNat).toInt? = some (quantity.toNat : Int) :=
        Numeral.toInt?_ofInt (by rw [Int.natAbs_natCast, Number.maxWord64]; omega)
      have hfits : (0 : Int) ≤ quantity.toNat ∧ (quantity.toNat : Int) ≤ Number.maxWord32 := by
        rw [Number.maxWord32]
        omega
      refine Decoded.ofJson_writeObject "ItemAdded"
        [("quantity", .int quantity.toNat), ("sku", .text sku)] ?_
      show ((Numeral.ofInt quantity.toNat).toInt?.bind fun n =>
        if 0 ≤ n ∧ n ≤ Number.maxWord32 then some (OrderEvent.itemAdded sku n.toNat.toUInt32)
        else none) = _
      rw [hvalue, Option.bind_some, if_pos hfits, Int.toNat_natCast, Nat.toUInt32_eq,
        UInt32.ofNat_toNat]
  | shipped => exact Decoded.ofJson_writeObject "OrderShipped" [] rfl
  | deleted => exact Decoded.ofJson_writeObject "OrderDeleted" [] rfl

theorem OrderEvent.invertible : Invertible OrderEvent := by
  intro event
  refine ⟨?_, event.payload, rfl, ?_, event.decode_payload⟩
  · cases event <;> exact of_decide_eq_true rfl
  · cases event <;> exact writeObject_ne_nil _

theorem AccountEvent.readAmount_eq (event : Int64 → AccountEvent) (cents : Int64) :
    readAmount event (.object (trees [("cents", .int cents.toInt)])) = some (event cents) := by
  have hlow := cents.le_toInt
  have hhigh := cents.toInt_lt
  have hfits : Number.FitsInt64 cents.toInt := ⟨by omega, by omega⟩
  have hvalue : (Numeral.ofInt cents.toInt).toInt? = some cents.toInt :=
    Numeral.toInt?_ofInt (by rw [Number.maxWord64]; omega)
  show ((Numeral.ofInt cents.toInt).toInt?.bind fun n =>
    if Number.FitsInt64 n then some (event (Int64.ofInt n)) else none) = _
  rw [hvalue, Option.bind_some, if_pos hfits, Int64.ofInt_toInt]

theorem AccountEvent.decode_payload (event : AccountEvent) :
    AccountEvent.decode event.typeName event.payload = .event event := by
  cases event with
  | opened owner =>
      exact Decoded.ofJson_writeObject "AccountOpened" [("owner", .text owner)] rfl
  | deposited cents =>
      exact Decoded.ofJson_writeObject "MoneyDeposited"
        [("cents", .int cents.toInt)] (readAmount_eq .deposited cents)
  | withdrawn cents =>
      exact Decoded.ofJson_writeObject "MoneyWithdrawn"
        [("cents", .int cents.toInt)] (readAmount_eq .withdrawn cents)
  | closed => rfl

theorem AccountEvent.invertible : Invertible AccountEvent := by
  intro event
  refine ⟨?_, event.payload, rfl, ?_, event.decode_payload⟩
  · cases event <;> exact of_decide_eq_true rfl
  · cases event <;> exact writeObject_ne_nil _

end Domain

/-! ## Records -/

/-- Whether every event is encoded, and any record that carries its payload and metadata is decoded
to this event, with the type of the event or with none, and is otherwise kept. -/
def Survives (E : Type) [DomainEvent E] : Prop :=
  ∀ (event : E) (kind : String), ∃ x : EncodedEvent, EncodedEvent.ofEvent event kind = .ok x ∧
    ∀ r : StoredRecord, r.eventType = x.eventType ∨ r.eventType = "" → r.data = x.data →
      r.metadata = x.metadata → r.decode E = .event
        ⟨r.stream, r.eventType, r.id, r.position, r.commit, r.recordedAt, event, r.metadata⟩

theorem Invertible.survives {E : Type} [DomainEvent E] (h : Invertible E) : Survives E := by
  intro event kind
  obtain ⟨htype, data, hencode, hne, hdecode⟩ := h event
  have hx : EncodedEvent.ofEvent event kind = .ok
      ⟨DomainEvent.eventType event, data,
        (Metadata.forEvent (DomainEvent.eventType event) kind).encode⟩ := by
    rw [EncodedEvent.ofEvent, hencode]
    rfl
  refine ⟨_, hx, fun r hr hdata hmetadata => ?_⟩
  have heffective : r.effectiveType? = some (DomainEvent.eventType event) := by
    rw [Record.effectiveType?]
    rcases hr with hr | hr
    · rw [hr, if_pos htype]
    -- Without a type of its own, the record has the one that its metadata names.
    · rw [hr, if_neg (not_not_intro rfl), hmetadata, Metadata.decode?_encode]
      exact if_pos htype
  rw [Record.decode, heffective]
  simp only [hdata, if_neg hne, hdecode, Record.replaceData]

theorem Invertible.roundTrips {E : Type} [DomainEvent E] (h : Invertible E) : RoundTrips E := by
  refine roundTrips_of_codec fun event data hdata => ?_
  obtain ⟨htype, data', hencode, hne, hdecode⟩ := h event
  rw [hencode] at hdata
  obtain rfl := Except.ok.inj hdata
  exact ⟨htype, hne, hdecode⟩

theorem Domain.NoteEvent.roundTrips : RoundTrips NoteEvent := by
  refine roundTrips_of_codec fun event data hdata => ?_
  cases event with
  | note text =>
      obtain rfl := Except.ok.inj hdata
      exact ⟨of_decide_eq_true rfl, writeObject_ne_nil _,
        Decoded.ofJson_writeObject "Note" [("text", .text text)] rfl⟩
  | poison => cases hdata

/-- The events of every kind of aggregate are decoded as they were encoded. -/
theorem Kind.roundTrips : (k : Kind) → RoundTrips k.Event
  | .order | .ledger => Domain.OrderEvent.invertible.roundTrips
  | .account => Domain.AccountEvent.invertible.roundTrips
  | .notebook => Domain.NoteEvent.roundTrips

/-- Order events, account events and metadata survive encoding and decoding. -/
theorem events_survive :
    Survives Domain.OrderEvent ∧ Survives Domain.AccountEvent ∧
      ∀ m : Metadata, Metadata.decode? m.encode = some m :=
  ⟨Domain.OrderEvent.invertible.survives, Domain.AccountEvent.invertible.survives,
    Metadata.decode?_encode⟩

end EventSourcing
