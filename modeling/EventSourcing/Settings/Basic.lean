import EventSourcing.Repository.Basic
import EventSourcing.Settings.Read
import EventSourcing.Subscription.Options
import EventSourcing.Text.Blank

/-!
# Settings

Everything that can be configured, with its defaults, how it is read off a tree, and what it has to
satisfy.
-/

namespace EventSourcing

structure StoreSettings where
  /-- Which log is used. -/
  storeType : String := "memory"
  /-- The address of a log server. -/
  connectionString : String := "esdb://localhost:2113?tls=false"
  deriving DecidableEq, Repr

structure SubscriptionSettings where
  consumerGroup : Option String := none
  minCheckpointCount : Nat := 1
  maxCheckpointCount : Nat := 1
  messageTimeoutSeconds : Nat := 30
  maxRetryCount : Nat := 10
  bufferSize : Nat := defaultCapacity
  deriving DecidableEq, Repr

structure Settings where
  store : StoreSettings := {}
  repository : RepositorySettings := {}
  subscription : SubscriptionSettings := {}
  retry : RetrySettings := {}
  deriving DecidableEq, Repr

/-! ## Use -/

/-- The settings of the consumer groups that are created. -/
def SubscriptionSettings.group (s : SubscriptionSettings) : GroupSettings where
  startFrom := 0
  minCheckpointCount := s.minCheckpointCount
  maxCheckpointCount := s.maxCheckpointCount
  messageTimeout := 1000 * s.messageTimeoutSeconds
  maxRetryCount := s.maxRetryCount

/-- Subscriptions as configured; lost connections are always opened again. -/
def Settings.subscriptionOptions (s : Settings) : SubscriptionOptions where
  bufferSize := s.subscription.bufferSize
  consumerGroup := s.subscription.consumerGroup
  settings := s.subscription.group
  retry := some s.retry

/-! ## Reading -/

namespace Settings

open Value (section? setting)

def readRemoval (v : Value) : Option Removal := do
  match ← v.choice? with
  | "disabled" => some .disabled
  | "soft" => some .soft
  | "hard" => some .hard
  | _ => none

/-- The address in the section of the log server. -/
def readServer (v : Value) : Option String := do
  let s ← section? ["connection_string"] v
  setting s "connection_string" Value.text? ({} : StoreSettings).connectionString

def readStore (v : Value) : Option StoreSettings := do
  let d : StoreSettings := {}
  let s ← section? ["store_type", "eventstoredb"] v
  return {
    storeType := ← setting s "store_type" Value.text? d.storeType
    connectionString := ← setting s "eventstoredb" readServer d.connectionString }

def readRepository (v : Value) : Option RepositorySettings := do
  let d : RepositorySettings := {}
  let s ← section? ["category", "delete_mode", "soft_delete_method"] v
  return {
    category := ← setting s "category" Value.optionalText? d.category
    removal := ← setting s "delete_mode" readRemoval d.removal
    softDeleteMethod := ← setting s "soft_delete_method" Value.text? d.softDeleteMethod }

def readSubscription (v : Value) : Option SubscriptionSettings := do
  let d : SubscriptionSettings := {}
  let s ← section? ["consumer_group", "min_checkpoint_count", "max_checkpoint_count",
    "message_timeout_secs", "max_retry_count", "buffer_size"] v
  let word32 := Value.word? Number.maxWord32
  let word64 := Value.word? Number.maxWord64
  return {
    consumerGroup := ← setting s "consumer_group" Value.optionalText? d.consumerGroup
    minCheckpointCount := ← setting s "min_checkpoint_count" word32 d.minCheckpointCount
    maxCheckpointCount := ← setting s "max_checkpoint_count" word32 d.maxCheckpointCount
    messageTimeoutSeconds := ← setting s "message_timeout_secs" word64 d.messageTimeoutSeconds
    maxRetryCount := ← setting s "max_retry_count" word32 d.maxRetryCount
    bufferSize := ← setting s "buffer_size" word64 d.bufferSize }

def readRetry (v : Value) : Option RetrySettings := do
  let d : RetrySettings := {}
  let s ← section? ["min_delay_ms", "max_delay_ms", "max_times"] v
  let word64 := Value.word? Number.maxWord64
  return {
    minDelay := ← setting s "min_delay_ms" word64 d.minDelay
    maxDelay := ← setting s "max_delay_ms" word64 d.maxDelay
    maxTimes := ← setting s "max_times" word64 d.maxTimes }

/-- Reads the whole tree. -/
def read (v : Value) : Option Settings := do
  let s ← section? ["store", "repository", "subscription", "retry"] v
  return {
    store := ← setting s "store" readStore {}
    repository := ← setting s "repository" readRepository {}
    subscription := ← setting s "subscription" readSubscription {}
    retry := ← setting s "retry" readRetry {} }

/-! ## Checking -/

/-- The least time that a consumer gets for a record, in seconds. -/
def leastMessageTimeout : Nat := 10

/-- What is wrong with settings. -/
inductive Flaw
  /-- Records are settled one by one. -/
  | checkpointCounts (min max : Nat)
  | messageTimeout (seconds : Nat)
  | noBuffer
  | noDeletionMethod
  | retryRange
  deriving DecidableEq, Repr

def Flaw.reason : Flaw → String
  | .checkpointCounts min max =>
    "checkpoint counts must be 1 (got min " ++ toString min ++ ", max " ++ toString max ++ ")"
  | .messageTimeout seconds =>
    "message_timeout_secs must be at least " ++ toString leastMessageTimeout ++
      " (got " ++ toString seconds ++ ")"
  | .noBuffer => "buffer_size must be positive"
  | .noDeletionMethod => "soft delete requires soft_delete_method"
  | .retryRange => "retry min_delay_ms exceeds max_delay_ms"

def Flaw.message (f : Flaw) : String := "Invalid config: " ++ f.reason

/-- The first flaw of the settings. -/
def flaw? (s : Settings) : Option Flaw :=
  let sub := s.subscription
  if sub.minCheckpointCount ≠ 1 ∨ sub.maxCheckpointCount ≠ 1 then
    some (.checkpointCounts sub.minCheckpointCount sub.maxCheckpointCount)
  else if sub.messageTimeoutSeconds < leastMessageTimeout then
    some (.messageTimeout sub.messageTimeoutSeconds)
  else if sub.bufferSize = 0 then some .noBuffer
  else if s.repository.removal = .soft ∧ Text.isBlankText s.repository.softDeleteMethod then
    some .noDeletionMethod
  else if s.retry.maxDelay < s.retry.minDelay then some .retryRange
  else none

end Settings

end EventSourcing
