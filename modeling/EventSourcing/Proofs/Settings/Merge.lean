import EventSourcing.Settings.Load

/-!
# What stands in merged layers

A layer can have values at a place of the tree under several of its keys (`valuesAt`). Where there
are tables on the way and neither a table nor an array at the place, the merged layers hold the last
value of the last layer that has one (`at?_merge`).
-/

namespace EventSourcing.Settings

namespace Value

def IsTable : Value → Prop
  | .table _ => True
  | _ => False

/-- Null counts as well. -/
def IsScalar : Value → Prop
  | .array _ | .table _ => False
  | _ => True

instance : DecidablePred IsTable
  | .table _ => .isTrue trivial
  | .null | .bool _ | .int _ | .float _ | .text _ | .array _ => .isFalse id

instance : DecidablePred IsScalar
  | .array _ | .table _ => .isFalse id
  | .null | .bool _ | .int _ | .float _ | .text _ => .isTrue trivial

/-- All values at a place of a tree that has just been read; its keys are in any case. -/
def valuesAt : List String → Value → List Value
  | [], v => [v]
  | key :: keys, v => v.entries.flatMap fun e => if foldKey e.1 = key then valuesAt keys e.2 else []

/-- All values that stand at a place because a value is put behind steps. Steps that go on from
there make a table or an array of the place. -/
def valuesBehind (value : Value) : List Step → List String → List Value
  | [], keys => value.valuesAt keys
  | .key name :: steps, key :: keys =>
    if foldKey name = key then valuesBehind value steps keys else []
  | .key _ :: _, [] => [.table []]
  | .index _ :: _, [] => [.array []]
  | .index _ :: _, _ :: _ => []

/-- What stands at a place of merged layers. -/
def at? : List String → Value → Option Value
  | [], v => some v
  | key :: keys, v => (v.entries.get? key).bind (at? keys)

end Value

open Value

/-- The values at a place because of an entry of a layer, whose key is a path. -/
def entryValues (e : String × Value) : List String → List Value :=
  valuesBehind e.2 (.key (Path.ofText e.1).root :: (Path.ofText e.1).steps)

/-- All values that a layer has at a place. -/
def valuesAt (layer : Table String Value) (keys : List String) : List Value :=
  layer.flatMap (entryValues · keys)

/-- The value of the last layer that has one. -/
def winner? (layers : List (Table String Value)) (keys : List String) : Option Value :=
  layers.reverse.findSome? fun layer => (valuesAt layer keys).getLast?

/-! ## Putting a value somewhere -/

namespace Value

/-- What stands in a place after a value has been put behind steps from there. -/
def placed (value : Value) : List Step → Option Value → Value
  | [], place => put place value
  | steps, place => putAt value steps (place.getD .null)

theorem entries_putEntry (below : Value) (key : String) (value : Value) :
    below.putEntry key value =
      .table (below.entries.insert (foldKey key)
        (put (below.entries.get? (foldKey key)) value)) := by
  rw [putEntry, putAll, putAll]

theorem placed_key (value : Value) (name : String) (steps : List Step) (place : Option Value) :
    placed value (.key name :: steps) place =
      let below := (place.getD .null).entries
      .table (below.insert (foldKey name) (placed value steps (below.get? (foldKey name)))) := by
  cases steps with
  | nil => exact entries_putEntry ..
  | cons step steps => rfl

theorem putPath_eq (below value : Value) (path : Path) :
    below.putPath path value = placed value (.key path.root :: path.steps) (some below) := rfl

/-- A place below a table changes by the entries with its key. -/
theorem get?_putAll (below : Value) (es : List (String × Value)) (key : String) :
    (putAll below es).entries.get? key = es.foldl
      (fun place e => if foldKey e.1 = key then some (put place e.2) else place)
      (below.entries.get? key) := by
  induction es generalizing below with
  | nil => rw [putAll]; rfl
  | cons e es ih =>
      rw [putAll, ih, List.foldl_cons, entries, Table.get?_insert]
      by_cases hk : foldKey e.1 = key
      · rw [if_pos hk, if_pos hk.symm, hk]
      · rw [if_neg hk, if_neg (Ne.symm hk)]

theorem isTable_putAll {below : Value} (h : below.IsTable) (es : List (String × Value)) :
    (putAll below es).IsTable := by
  induction es generalizing below with
  | nil => rwa [putAll]
  | cons e es ih => rw [putAll]; exact ih trivial

theorem put_of_isScalar {value : Value} (h : value.IsScalar) (place : Option Value) :
    put place value = value := by
  cases value with
  | array items => exact h.elim
  | table es => exact h.elim
  | _ => rw [put]

/-! ## Places that hold no tables -/

/-- There are tables on the way to a place, and neither tables nor arrays at it, as far as the
values of all places tell. -/
structure Clear (values : List String → List Value) (keys : List String) : Prop where
  onTheWay : ∀ before key after, keys = before ++ key :: after → ∀ v ∈ values before, v.IsTable
  there : ∀ v ∈ values keys, v.IsScalar

namespace Clear

variable {values values' : List String → List Value} {key : String} {keys : List String}

/-- A place is as clear in a part of the tree as in the whole. -/
theorem below (h : Clear values (key :: keys))
    (hsub : ∀ rest, ∀ v ∈ values' rest, v ∈ values (key :: rest)) : Clear values' keys where
  onTheWay before k after he v hv := h.onTheWay (key :: before) k after (by rw [he]; rfl) v
    (hsub before v hv)
  there v hv := h.there v (hsub keys v hv)

theorem mono (h : Clear values keys) (hsub : ∀ rest, ∀ v ∈ values' rest, v ∈ values rest) :
    Clear values' keys where
  onTheWay before k after he v hv := h.onTheWay before k after he v (hsub before v hv)
  there v hv := h.there v (hsub keys v hv)

end Clear

/-- What stands below a place after its entries have come one by one. -/
theorem bind_foldl_put {key : String} {keys : List String} {es : List (String × Value)}
    (h : ∀ e ∈ es, foldKey e.1 = key → ∀ place, (put place e.2).at? keys =
      ((e.2.valuesAt keys).getLast?).or (place.bind (at? keys))) (start : Option Value) :
    (es.foldl (fun place e => if foldKey e.1 = key then some (put place e.2) else place) start).bind
      (at? keys) = (((Value.table es).valuesAt (key :: keys)).getLast?).or
        (start.bind (at? keys)) := by
  induction es generalizing start with
  | nil => rfl
  | cons e es ih =>
      have ih := ih (fun e' he' => h e' (List.mem_cons_of_mem _ he'))
      rw [List.foldl_cons, ih]
      simp only [valuesAt, entries, List.flatMap_cons, List.getLast?_append, Option.or_assoc]
      by_cases hk : foldKey e.1 = key
      · rw [if_pos hk, if_pos hk, Option.bind_some, h e List.mem_cons_self hk]
      · rw [if_neg hk, if_neg hk, List.getLast?_nil, Option.none_or]

theorem at?_put {keys : List String} {value : Value} (h : Clear (value.valuesAt ·) keys)
    (place : Option Value) : (put place value).at? keys =
      ((value.valuesAt keys).getLast?).or (place.bind (at? keys)) := by
  induction keys generalizing value place with
  | nil =>
      rw [put_of_isScalar (h.there value (List.mem_singleton_self _))]
      rfl
  | cons key keys ih =>
      have htable := h.onTheWay [] key keys rfl value (List.mem_singleton_self _)
      cases value with
      | table es =>
          rw [put, at?, get?_putAll, bind_foldl_put]
          · cases place <;> rfl
          · intro e he hk place
            refine ih (h.below fun rest v hv => List.mem_flatMap.2 ⟨e, he, ?_⟩) place
            rwa [if_pos hk]
      | _ => exact htable.elim

theorem at?_placed {keys : List String} {value : Value} {steps : List Step}
    (h : Clear (valuesBehind value steps) keys) (place : Option Value) :
    (placed value steps place).at? keys =
      ((valuesBehind value steps keys).getLast?).or (place.bind (at? keys)) := by
  induction steps generalizing keys place with
  | nil => exact at?_put h place
  | cons step steps ih =>
      cases keys with
      | nil => cases step <;> exact (h.there _ (List.mem_singleton_self _)).elim
      | cons key keys =>
          cases step with
          | index i => exact (h.onTheWay [] key keys rfl _ (List.mem_singleton_self _)).elim
          | key name =>
              have hbelow : (place.getD .null).at? (key :: keys) =
                  place.bind (at? (key :: keys)) := by
                cases place <;> rfl
              rw [placed_key, at?, entries, Table.get?_insert, valuesBehind, ← hbelow, at?]
              by_cases hk : foldKey name = key
              · have hclear : Clear (valuesBehind value steps) keys :=
                  h.below fun rest v hv => by rwa [valuesBehind, if_pos hk]
                rw [if_pos hk, if_pos hk.symm, Option.bind_some, ih hclear, hk]
              · rw [if_neg hk, if_neg (Ne.symm hk)]
                rfl

/-! ## Places that hold tables -/

/-- A place is empty or holds a table. -/
def HoldsTable (place : Option Value) (keys : List String) : Prop :=
  ∀ v, place.bind (at? keys) = some v → v.IsTable

theorem holdsTable_put {keys : List String} {value : Value}
    (h : ∀ v ∈ value.valuesAt keys, v.IsTable) {place : Option Value}
    (hp : HoldsTable place keys) : HoldsTable (some (put place value)) keys := by
  induction keys generalizing value place with
  | nil =>
      intro v hv
      obtain rfl := Option.some.inj hv
      cases value with
      | table es =>
          rw [put]
          refine isTable_putAll ?_ es
          cases place with
          | none => trivial
          | some below => exact hp below rfl
      | _ => exact (h _ (List.mem_singleton_self _)).elim
  | cons key keys ih =>
      cases value with
      | table es =>
          have hes : ∀ e ∈ es, foldKey e.1 = key → ∀ place, HoldsTable place keys →
              HoldsTable (some (put place e.2)) keys := by
            intro e he hk place hp
            refine ih (fun v hv => h v (List.mem_flatMap.2 ⟨e, he, ?_⟩)) hp
            rwa [if_pos hk]
          have hstart : HoldsTable ((place.getD (.table [])).entries.get? key) keys := by
            cases place with
            | none => exact fun v hv => nomatch hv
            | some below => exact hp
          intro v hv
          rw [Option.bind_some, put, at?, get?_putAll] at hv
          refine List.foldlRecOn (motive := fun place => HoldsTable place keys) es _ hstart
            (fun place hp e he => ?_) v hv
          split
          · exact hes e he ‹_› place hp
          · exact hp
      | _ => exact fun v hv => by rw [put] at hv; nomatch hv

theorem holdsTable_placed {keys : List String} {value : Value} {steps : List Step}
    (h : ∀ v ∈ valuesBehind value steps keys, v.IsTable) {place : Option Value}
    (hp : HoldsTable place keys) : HoldsTable (some (placed value steps place)) keys := by
  induction steps generalizing keys place with
  | nil => exact holdsTable_put h hp
  | cons step steps ih =>
      cases step with
      | index i =>
          cases keys with
          | nil => exact (h _ (List.mem_singleton_self _)).elim
          | cons key keys =>
              intro v hv
              cases steps <;> nomatch hv
      | key name =>
          rw [placed_key]
          cases keys with
          | nil =>
              intro v hv
              obtain rfl := Option.some.inj hv
              trivial
          | cons key keys =>
              have hbelow : HoldsTable ((place.getD .null).entries.get? key) keys := by
                cases place with
                | none => exact fun v hv => nomatch hv
                | some below => exact hp
              intro v hv
              rw [Option.bind_some, at?, entries, Table.get?_insert] at hv
              by_cases hk : foldKey name = key
              · rw [if_pos hk.symm, hk] at hv
                exact ih (fun v hv => h v (by rwa [valuesBehind, if_pos hk])) hbelow v hv
              · rw [if_neg (Ne.symm hk)] at hv
                exact hbelow v hv

end Value

/-! ## Merging -/

/-- Entries that are put on top give a place without tables their last value. -/
theorem at?_putLayer {layer : Table String Value} {key : String} {keys : List String}
    (h : Clear (valuesAt layer) (key :: keys)) (below : Value) :
    (below.putLayer layer).at? (key :: keys) =
      ((valuesAt layer (key :: keys)).getLast?).or (below.at? (key :: keys)) := by
  induction layer generalizing below with
  | nil => rfl
  | cons e layer ih =>
      have hhead : Clear (entryValues e) (key :: keys) :=
        h.mono fun rest v hv => List.mem_append_left _ hv
      have htail : Clear (valuesAt layer) (key :: keys) :=
        h.mono fun rest v hv => List.mem_append_right _ hv
      rw [putLayer, List.foldl_cons, ← putLayer, ih htail, putPath_eq, at?_placed hhead,
        Option.bind_some, valuesAt, valuesAt, List.flatMap_cons, List.getLast?_append,
        Option.or_assoc]
      rfl

/-- A place without tables holds the value of the last layer that has one. -/
theorem at?_merge {layers : List (Table String Value)} {key : String} {keys : List String}
    (h : ∀ layer ∈ layers, Clear (valuesAt layer) (key :: keys)) :
    (merge layers).at? (key :: keys) = winner? layers (key :: keys) := by
  suffices hall : ∀ below : Value, (layers.foldl putLayer below).at? (key :: keys) =
      (winner? layers (key :: keys)).or (below.at? (key :: keys)) by
    rw [merge, hall]
    exact Option.or_none
  induction layers with
  | nil => exact fun below => rfl
  | cons layer layers ih =>
      intro below
      rw [List.foldl_cons, ih fun l hl => h l (List.mem_cons_of_mem _ hl),
        at?_putLayer (h layer List.mem_cons_self), ← Option.or_assoc]
      simp [winner?, List.findSome?_append]

theorem holdsTable_merge {layers : List (Table String Value)} (keys : List String)
    (h : ∀ layer ∈ layers, ∀ v ∈ valuesAt layer keys, v.IsTable) :
    HoldsTable (some (merge layers)) keys := by
  have hstart : HoldsTable (some (.table [])) keys := by
    cases keys with
    | nil =>
        intro v hv
        obtain rfl := Option.some.inj hv
        trivial
    | cons key keys => exact fun v hv => nomatch hv
  refine List.foldlRecOn (motive := fun v => HoldsTable (some v) keys) layers _ hstart
    fun below hbelow layer hl => ?_
  refine List.foldlRecOn (motive := fun v => HoldsTable (some v) keys) layer _ hbelow
    fun v hv e he => ?_
  exact holdsTable_placed (fun x hx => h layer hl x (List.mem_flatMap.2 ⟨e, he, hx⟩)) hv

end EventSourcing.Settings
