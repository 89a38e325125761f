import EventSourcing.Proofs.Settings.Merge

/-!
# Which layer decides a setting

What is loaded is told by the single settings (`Field`): each has the value of the last layer that
has one, converted, or its default (`Settings.last_layer_decides`). Values that later layers replace
do not matter at all.
-/

namespace EventSourcing.Settings

open Value (Clear HoldsTable at?)

/-! ## The single settings -/

/-- A single setting. -/
inductive Field
  | storeType
  | connectionString
  | category
  | removal
  | softDeleteMethod
  | consumerGroup
  | minCheckpointCount
  | maxCheckpointCount
  | messageTimeoutSeconds
  | maxRetryCount
  | bufferSize
  | minDelay
  | maxDelay
  | maxTimes
  deriving DecidableEq, Repr

/-- The places of the sections. -/
def sections : List (List String) :=
  [["store"], ["store", "eventstoredb"], ["repository"], ["subscription"], ["retry"]]

namespace Field

/-- The place of a setting. -/
def path : Field → List String
  | .storeType => ["store", "store_type"]
  | .connectionString => ["store", "eventstoredb", "connection_string"]
  | .category => ["repository", "category"]
  | .removal => ["repository", "delete_mode"]
  | .softDeleteMethod => ["repository", "soft_delete_method"]
  | .consumerGroup => ["subscription", "consumer_group"]
  | .minCheckpointCount => ["subscription", "min_checkpoint_count"]
  | .maxCheckpointCount => ["subscription", "max_checkpoint_count"]
  | .messageTimeoutSeconds => ["subscription", "message_timeout_secs"]
  | .maxRetryCount => ["subscription", "max_retry_count"]
  | .bufferSize => ["subscription", "buffer_size"]
  | .minDelay => ["retry", "min_delay_ms"]
  | .maxDelay => ["retry", "max_delay_ms"]
  | .maxTimes => ["retry", "max_times"]

/-- All settings. -/
def all : List Field :=
  [.storeType, .connectionString, .category, .removal, .softDeleteMethod, .consumerGroup,
    .minCheckpointCount, .maxCheckpointCount, .messageTimeoutSeconds, .maxRetryCount, .bufferSize,
    .minDelay, .maxDelay, .maxTimes]

theorem mem_all (f : Field) : f ∈ all := by
  cases f <;> decide

abbrev Result : Field → Type
  | .storeType | .connectionString | .softDeleteMethod => String
  | .category | .consumerGroup => Option String
  | .removal => Removal
  | .minCheckpointCount | .maxCheckpointCount | .messageTimeoutSeconds | .maxRetryCount
  | .bufferSize | .minDelay | .maxDelay | .maxTimes => Nat

def get (s : Settings) : (f : Field) → f.Result
  | .storeType => s.store.storeType
  | .connectionString => s.store.connectionString
  | .category => s.repository.category
  | .removal => s.repository.removal
  | .softDeleteMethod => s.repository.softDeleteMethod
  | .consumerGroup => s.subscription.consumerGroup
  | .minCheckpointCount => s.subscription.minCheckpointCount
  | .maxCheckpointCount => s.subscription.maxCheckpointCount
  | .messageTimeoutSeconds => s.subscription.messageTimeoutSeconds
  | .maxRetryCount => s.subscription.maxRetryCount
  | .bufferSize => s.subscription.bufferSize
  | .minDelay => s.retry.minDelay
  | .maxDelay => s.retry.maxDelay
  | .maxTimes => s.retry.maxTimes

/-- The conversion of a value of the tree. -/
def convert : (f : Field) → Value → Option f.Result
  | .storeType | .connectionString | .softDeleteMethod => Value.text?
  | .category | .consumerGroup => Value.optionalText?
  | .removal => readRemoval
  | .minCheckpointCount | .maxCheckpointCount | .maxRetryCount => Value.word? Number.maxWord32
  | .messageTimeoutSeconds | .bufferSize | .minDelay | .maxDelay | .maxTimes =>
    Value.word? Number.maxWord64

/-- What a setting comes to: the conversion of the value that was found, or the default. -/
def resolve (f : Field) : Option Value → Option f.Result
  | none => some (f.get {})
  | some v => f.convert v

/-- There are sections on the way to a setting. -/
theorem sections_of_path {f : Field} {before after : List String} {key : String}
    (h : f.path = before ++ key :: after) : before = [] ∨ before ∈ sections := by
  cases f <;> rcases before with _ | ⟨a, _ | ⟨b, _ | ⟨c, before⟩⟩⟩ <;> simp_all [path, sections]

end Field

/-! ## Reading -/

section Reading

variable {es : Table String Value}

/-- A setting that stands in a section itself. -/
theorem resolve_at? (f : Field) (es : Table String Value) (name : String) :
    f.resolve ((Value.table es).at? [name]) = Value.setting es name f.convert (f.get {}) := by
  rw [Value.setting, at?, Value.entries]
  cases es.get? name <;> rfl

/-- A section is read off its table, or is as its defaults say. -/
theorem setting_cases {α : Type} {name : String} (h : HoldsTable (es.get? name) [])
    (read : Value → Option α) (default : α) :
    (es.get? name = none ∧ Value.setting es name read default = some default) ∨
    ∃ sub, es.get? name = some (.table sub) ∧
      Value.setting es name read default = read (.table sub) := by
  rw [Value.setting]
  cases hv : es.get? name with
  | none => exact .inl ⟨rfl, rfl⟩
  | some v =>
      rw [hv] at h
      cases v with
      | table sub => exact .inr ⟨sub, rfl, rfl⟩
      | _ => exact (h _ rfl).elim

/-- The settings of a section are those that its table gives, or the defaults. -/
theorem setting_section {α : Type} (part : Settings → α) {name : String}
    {read : Value → Option α} {fields : List Field} {s : Settings}
    (h : HoldsTable (es.get? name) []) (hpath : ∀ f ∈ fields, f.path = name :: f.path.tail)
    (hdefault : part {} = part s ↔ ∀ f ∈ fields, f.get {} = f.get s)
    (hread : ∀ sub, es.get? name = some (.table sub) →
      (read (.table sub) = some (part s) ↔
        ∀ f ∈ fields, f.resolve ((Value.table sub).at? f.path.tail) = some (f.get s))) :
    Value.setting es name read (part {}) = some (part s) ↔
      ∀ f ∈ fields, f.resolve ((Value.table es).at? f.path) = some (f.get s) := by
  have hat (f : Field) (hf : f ∈ fields) :
      (Value.table es).at? f.path = (es.get? name).bind (at? f.path.tail) := by
    rw [hpath f hf]
    rfl
  rcases setting_cases h read (part {}) with ⟨hplace, hvalue⟩ | ⟨sub, hplace, hvalue⟩
  · rw [hvalue, Option.some_inj, hdefault]
    refine forall₂_congr fun f hf => ?_
    rw [hat f hf, hplace, Option.bind_none, Field.resolve, Option.some_inj]
  · rw [hvalue, hread sub hplace]
    refine forall₂_congr fun f hf => ?_
    rw [hat f hf, hplace, Option.bind_some]

variable (s : Settings)

theorem setting_store (h : HoldsTable (es.get? "store") [])
    (hserver : HoldsTable (es.get? "store") ["eventstoredb"]) :
    Value.setting es "store" readStore {} = some s.store ↔
      ∀ f ∈ [Field.storeType, .connectionString],
        f.resolve ((Value.table es).at? f.path) = some (f.get s) := by
  obtain ⟨⟨storeType, connectionString⟩, _, _, _⟩ := s
  refine setting_section Settings.store h (by simp [Field.path]) (by simp [Field.get])
    fun sub hplace => ?_
  have hsub : HoldsTable (Table.get? sub "eventstoredb") [] := by rwa [hplace] at hserver
  have hpart : Value.setting sub "eventstoredb" readServer ({} : StoreSettings).connectionString =
      Field.connectionString.resolve
        ((Value.table sub).at? ["eventstoredb", "connection_string"]) := by
    rw [at?, Value.entries]
    rcases setting_cases hsub readServer ({} : StoreSettings).connectionString with
      ⟨hplace, hread⟩ | ⟨server, hplace, hread⟩
    · rw [hread, hplace]
      rfl
    · rw [hread, hplace, Option.bind_some, resolve_at?]
      rfl
  rw [readStore, Value.section?]
  simp [Field.path, resolve_at?, hpart, Option.bind_eq_some_iff, Field.get, Field.convert,
    ← and_assoc]

theorem setting_repository (h : HoldsTable (es.get? "repository") []) :
    Value.setting es "repository" readRepository {} = some s.repository ↔
      ∀ f ∈ [Field.category, .removal, .softDeleteMethod],
        f.resolve ((Value.table es).at? f.path) = some (f.get s) := by
  obtain ⟨_, ⟨_, _, _⟩, _, _⟩ := s
  refine setting_section Settings.repository h (by simp [Field.path])
    (by simp [Field.get]) fun sub _ => ?_
  rw [readRepository, Value.section?]
  simp [Field.path, resolve_at?, Option.bind_eq_some_iff, Field.get, Field.convert, ← and_assoc]

theorem setting_subscription (h : HoldsTable (es.get? "subscription") []) :
    Value.setting es "subscription" readSubscription {} = some s.subscription ↔
      ∀ f ∈ [Field.consumerGroup, .minCheckpointCount, .maxCheckpointCount, .messageTimeoutSeconds,
          .maxRetryCount, .bufferSize],
        f.resolve ((Value.table es).at? f.path) = some (f.get s) := by
  obtain ⟨_, _, ⟨_, _, _, _, _, _⟩, _⟩ := s
  refine setting_section Settings.subscription h (by simp [Field.path])
    (by simp [Field.get]) fun sub _ => ?_
  rw [readSubscription, Value.section?]
  simp [Field.path, resolve_at?, Option.bind_eq_some_iff, Field.get, Field.convert, ← and_assoc]

theorem setting_retry (h : HoldsTable (es.get? "retry") []) :
    Value.setting es "retry" readRetry {} = some s.retry ↔
      ∀ f ∈ [Field.minDelay, .maxDelay, .maxTimes],
        f.resolve ((Value.table es).at? f.path) = some (f.get s) := by
  obtain ⟨_, _, _, ⟨_, _, _⟩⟩ := s
  refine setting_section Settings.retry h (by simp [Field.path]) (by simp [Field.get])
    fun sub _ => ?_
  rw [readRetry, Value.section?]
  simp [Field.path, resolve_at?, Option.bind_eq_some_iff, Field.get, Field.convert, ← and_assoc]

/-- A tree with tables in the places of its sections is read setting by setting. -/
theorem read_eq_some_iff {v : Value} (hv : v.IsTable)
    (h : ∀ keys ∈ sections, HoldsTable (some v) keys) :
    read v = some s ↔ ∀ f : Field, f.resolve (v.at? f.path) = some (f.get s) := by
  cases v with
  | table es =>
      have hsection (name : String) (keys : List String) (hin : name :: keys ∈ sections) :
          HoldsTable (Table.get? es name) keys := h (name :: keys) hin
      have hread : read (.table es) = some s ↔
          Value.setting es "store" readStore {} = some s.store ∧
          Value.setting es "repository" readRepository {} = some s.repository ∧
          Value.setting es "subscription" readSubscription {} = some s.subscription ∧
          Value.setting es "retry" readRetry {} = some s.retry := by
        obtain ⟨_, _, _, _⟩ := s
        rw [read, Value.section?]
        simp [Option.bind_eq_some_iff, ← and_assoc]
      rw [hread, setting_store s (hsection _ _ (by decide)) (hsection _ _ (by decide)),
        setting_repository s (hsection _ _ (by decide)),
        setting_subscription s (hsection _ _ (by decide)),
        setting_retry s (hsection _ _ (by decide))]
      constructor
      · rintro ⟨hstore, hrepository, hsubscription, hretry⟩ f
        cases f <;> grind
      · exact fun hall => ⟨fun f _ => hall f, fun f _ => hall f, fun f _ => hall f,
          fun f _ => hall f⟩
  | _ => exact hv.elim

end Reading

/-! ## Regular layers -/

/-- The sections of a layer are tables wherever they appear, and its settings are neither tables nor
arrays. -/
structure Regular (layer : Table String Value) : Prop where
  sections : ∀ keys ∈ sections, ∀ v ∈ valuesAt layer keys, v.IsTable
  fields : ∀ f : Field, ∀ v ∈ valuesAt layer f.path, v.IsScalar

instance (layer : Table String Value) : Decidable (Regular layer) :=
  decidable_of_iff
    ((∀ keys ∈ sections, ∀ v ∈ valuesAt layer keys, v.IsTable) ∧
      ∀ f ∈ Field.all, ∀ v ∈ valuesAt layer f.path, v.IsScalar)
    ⟨fun h => ⟨h.1, fun f => h.2 f f.mem_all⟩, fun h => ⟨h.sections, fun f _ => h.fields f⟩⟩

/-- At the top, every entry of a layer asks for a table. -/
theorem isTable_of_mem_valuesAt {layer : Table String Value} {v : Value}
    (h : v ∈ valuesAt layer []) : v.IsTable := by
  obtain ⟨e, -, he⟩ := List.mem_flatMap.1 h
  obtain rfl := List.mem_singleton.1 he
  trivial

theorem Regular.clear {layer : Table String Value} (h : Regular layer) (f : Field) :
    Clear (valuesAt layer) f.path where
  onTheWay before key after hpath v hv := by
    rcases Field.sections_of_path hpath with rfl | hsection
    · exact isTable_of_mem_valuesAt hv
    · exact h.sections before hsection v hv
  there := h.fields f

section Merging

variable {layers : List (Table String Value)}

/-- A merged setting is the one of the last layer that has it. -/
theorem at?_merge_path (h : ∀ layer ∈ layers, Regular layer) (f : Field) :
    (merge layers).at? f.path = winner? layers f.path := by
  have hclear : ∀ layer ∈ layers, Clear (valuesAt layer) f.path := fun l hl => (h l hl).clear f
  cases f <;> exact at?_merge hclear

theorem isTable_merge (layers : List (Table String Value)) : (merge layers).IsTable :=
  holdsTable_merge [] (fun _ _ _ hv => isTable_of_mem_valuesAt hv) _ rfl

/-- Merged layers are read setting by setting, each in the layer that decides it. -/
theorem read_merge_eq_some_iff (h : ∀ layer ∈ layers, Regular layer) (settings : Settings) :
    read (merge layers) = some settings ↔
      ∀ f : Field, f.resolve (winner? layers f.path) = some (f.get settings) := by
  rw [read_eq_some_iff settings (isTable_merge layers) fun keys hkeys =>
    holdsTable_merge keys fun layer hl => (h layer hl).sections keys hkeys]
  exact forall_congr' fun f => by rw [at?_merge_path h f]

end Merging

/-! ## Settings from their parts -/

/-- The settings with given values. -/
def ofFields (value : (f : Field) → f.Result) : Settings where
  store := ⟨value .storeType, value .connectionString⟩
  repository := ⟨value .category, value .removal, value .softDeleteMethod⟩
  subscription := ⟨value .consumerGroup, value .minCheckpointCount, value .maxCheckpointCount,
    value .messageTimeoutSeconds, value .maxRetryCount, value .bufferSize⟩
  retry := ⟨value .minDelay, value .maxDelay, value .maxTimes⟩

@[simp] theorem get_ofFields (value : (f : Field) → f.Result) (f : Field) :
    f.get (ofFields value) = value f := by
  cases f <;> rfl

/-! ## Sources -/

/-- The layer of a file that can be read; any other file has none. -/
def fileLayer (file : File) : Table String Value := (file.bind Yaml.parse?).getD []

namespace Sources

/-- The layers of the sources, the lowest first. -/
def layers (s : Sources) : List (Table String Value) :=
  [fileLayer s.defaultFile, fileLayer s.file.join, fileLayer s.environmentFile.join,
    ofEnvironment s.environment]

/-- The files that are named are there, and all that are there are well-formed. -/
structure Readable (s : Sources) : Prop where
  defaultFile : ∀ text, s.defaultFile = some text → ∃ layer, Yaml.parse? text = some layer
  file : ∀ file, s.file = some file → ∃ text, file = some text ∧
    ∃ layer, Yaml.parse? text = some layer
  environmentFile : ∀ file, s.environmentFile = some file → ∃ text, file = some text ∧
    ∃ layer, Yaml.parse? text = some layer

def Regular (s : Sources) : Prop := ∀ layer ∈ s.layers, Settings.Regular layer

instance (s : Sources) : Decidable s.Regular := List.decidableBAll _ _

end Sources

theorem optionalLayer?_eq_some_iff {file : File} {layer : Table String Value} :
    optionalLayer? file = some layer ↔
      (∀ text, file = some text → ∃ layer, Yaml.parse? text = some layer) ∧
        layer = fileLayer file := by
  cases file with
  | none => simp [optionalLayer?, fileLayer, eq_comm]
  | some text => cases h : Yaml.parse? text <;> simp [optionalLayer?, fileLayer, h, eq_comm]

theorem namedLayer?_eq_some_iff {named : Option File} {layer : Table String Value} :
    namedLayer? named = some layer ↔
      (∀ file, named = some file → ∃ text, file = some text ∧
        ∃ layer, Yaml.parse? text = some layer) ∧ layer = fileLayer named.join := by
  rcases named with _ | _ | text
  · simp [namedLayer?, fileLayer, eq_comm]
  · simp [namedLayer?]
  · cases h : Yaml.parse? text <;> simp [namedLayer?, fileLayer, h, eq_comm]

theorem Sources.layers?_eq_some_iff {s : Sources} {layers : List (Table String Value)} :
    s.layers? = some layers ↔ s.Readable ∧ layers = s.layers := by
  simp only [Sources.layers?, Option.pure_def, Option.bind_eq_bind, Option.bind_eq_some_iff,
    optionalLayer?_eq_some_iff, namedLayer?_eq_some_iff, Option.some_inj, Sources.layers]
  constructor
  · rintro ⟨_, ⟨hd, rfl⟩, _, ⟨hf, rfl⟩, _, ⟨he, rfl⟩, rfl⟩
    exact ⟨⟨hd, hf, he⟩, rfl⟩
  · rintro ⟨⟨hd, hf, he⟩, rfl⟩
    exact ⟨_, ⟨hd, rfl⟩, _, ⟨hf, rfl⟩, _, ⟨he, rfl⟩, rfl⟩

/-! ## Loading -/

/-- What is read off the sources before it is checked. -/
def read? (s : Sources) : Option Settings := s.layers?.bind fun layers => read (merge layers)

theorem load_eq_ok_iff {s : Sources} {settings : Settings} :
    load s = .ok settings ↔ read? s = some settings ∧ settings.flaw? = none := by
  rw [load, ← read?]
  cases hread : read? s with
  | none => simp
  | some found => cases hflaw : found.flaw? <;> grind

theorem load_congr {s s' : Sources} (h : read? s' = read? s) : load s' = load s := by
  rw [load, load, ← read?, ← read?, h]

theorem read?_eq_some_iff {s : Sources} (h : s.Regular) {settings : Settings} :
    read? s = some settings ↔ s.Readable ∧
      ∀ f : Field, f.resolve (winner? s.layers f.path) = some (f.get settings) := by
  rw [read?, Option.bind_eq_some_iff, ← read_merge_eq_some_iff h]
  constructor
  · rintro ⟨layers, hlayers, hread⟩
    obtain ⟨hfiles, rfl⟩ := Sources.layers?_eq_some_iff.1 hlayers
    exact ⟨hfiles, hread⟩
  · exact fun ⟨hfiles, hread⟩ => ⟨_, Sources.layers?_eq_some_iff.2 ⟨hfiles, rfl⟩, hread⟩

/-- A layer does not count where it has no value, or where a layer above it has one. -/
theorem winner?_cons {layer : Table String Value} {layers : List (Table String Value)}
    {keys : List String}
    (h : (winner? layers keys).isSome ∨ (valuesAt layer keys).getLast?.isNone) :
    winner? (layer :: layers) keys = winner? layers keys := by
  rw [winner?, List.reverse_cons, List.findSome?_append, ← winner?]
  rcases h with h | h
  · exact Option.or_of_isSome h
  · rw [List.findSome?_singleton, Option.isNone_iff_eq_none.1 h, Option.or_none]

/-- Where sections are tables and settings are scalars wherever they appear, every setting is the
conversion of the value of the last layer that has one, or its default. Nothing else decides whether
loading succeeds: the files have to be readable, those values have to be convertible, and the
settings that they make up have to be flawless. Sources with the same last values come to the same,
whatever the values below are. -/
theorem last_layer_decides {s : Sources} (h : s.Regular) :
    (∀ settings, load s = .ok settings →
      ∀ f : Field, f.resolve (winner? s.layers f.path) = some (f.get settings)) ∧
    ((∃ settings, load s = .ok settings) ↔
      s.Readable ∧ (∀ f : Field, (f.resolve (winner? s.layers f.path)).isSome) ∧
      ∀ value : (f : Field) → f.Result,
        (∀ f, f.resolve (winner? s.layers f.path) = some (value f)) →
          (ofFields value).flaw? = none) ∧
    ∀ s' : Sources, s'.Regular → (s'.Readable ↔ s.Readable) →
      (∀ f : Field, winner? s'.layers f.path = winner? s.layers f.path) → load s' = load s := by
  refine ⟨fun settings hload => ?_, ⟨?_, ?_⟩, fun s' h' hfiles hsame => load_congr ?_⟩
  · exact ((read?_eq_some_iff h).1 (load_eq_ok_iff.1 hload).1).2
  · rintro ⟨settings, hload⟩
    obtain ⟨hread, hflaw⟩ := load_eq_ok_iff.1 hload
    obtain ⟨hfiles, hfields⟩ := (read?_eq_some_iff h).1 hread
    refine ⟨hfiles, fun f => by rw [hfields f, Option.isSome_some], fun value hvalue => ?_⟩
    have hread' : read? s = some (ofFields value) :=
      (read?_eq_some_iff h).2 ⟨hfiles, fun f => by rw [get_ofFields, hvalue f]⟩
    rw [hread, Option.some_inj] at hread'
    rwa [← hread']
  · rintro ⟨hfiles, hvalues, hflaw⟩
    have hvalue (f : Field) := (Option.some_get (hvalues f)).symm
    refine ⟨_, load_eq_ok_iff.2 ⟨(read?_eq_some_iff h).2 ⟨hfiles, fun f => ?_⟩, hflaw _ hvalue⟩⟩
    rw [get_ofFields]
    exact hvalue f
  · refine Option.ext fun settings => ?_
    rw [read?_eq_some_iff h', read?_eq_some_iff h, hfiles]
    exact and_congr_right fun _ => forall_congr' fun f => by rw [hsame f]

/-- A text in the default file where a number belongs does no harm below a number in the
environment, and a setting of the named file stays. -/
theorem last_layer_decides_overridden :
    let bare : Sources := {
      file := some (some "retry:\n  min_delay_ms: 250\n")
      environment := [("TESSERA__RETRY__MAX_TIMES", "3")] }
    let s : Sources := { bare with defaultFile := some "retry:\n  max_times: many\n" }
    s.Regular ∧ bare.Regular ∧ load bare = load s ∧
      ∃ settings, load s = .ok settings ∧ settings.retry.maxTimes = 3 ∧
        settings.retry.minDelay = 250 ∧
        Field.resolve .minDelay (winner? s.layers ["retry", "min_delay_ms"]) = some 250 := by
  intro bare s
  have hs : s.Regular := by decide +kernel
  have hbare : bare.Regular := by decide +kernel
  have hfile : ∃ layer, Yaml.parse? "retry:\n  max_times: many\n" = some layer :=
    Option.isSome_iff_exists.1 (by decide +kernel)
  have hfiles : bare.Readable ↔ s.Readable :=
    ⟨fun h => ⟨fun text htext => Option.some.inj htext ▸ hfile, h.file, h.environmentFile⟩,
      fun h => ⟨nofun, h.file, h.environmentFile⟩⟩
  have hbelow : ∀ f ∈ Field.all, (winner? s.layers.tail f.path).isSome ∨
      (valuesAt (fileLayer s.defaultFile) f.path).getLast?.isNone := by decide +kernel
  have hsame (f : Field) : winner? bare.layers f.path = winner? s.layers f.path :=
    (winner?_cons (.inr rfl)).trans (winner?_cons (hbelow f f.mem_all)).symm
  obtain ⟨hfields, -, hlast⟩ := last_layer_decides hs
  have hload : (load s).toOption.map (fun settings =>
      (settings.retry.maxTimes, settings.retry.minDelay)) = some (3, 250) := by decide +kernel
  cases hok : load s with
  | error e =>
      rw [hok] at hload
      cases hload
  | ok settings =>
      rw [hok] at hload
      obtain ⟨htimes, hdelay⟩ := Prod.mk.inj (Option.some.inj hload)
      refine ⟨hs, hbare, (hlast bare hbare hfiles hsame).trans hok, settings, rfl, htimes, hdelay,
        ?_⟩
      rw [← hdelay]
      exact hfields settings hok .minDelay

end EventSourcing.Settings
