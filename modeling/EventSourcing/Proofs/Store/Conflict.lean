import EventSourcing.Proofs.Store.Attempt
import EventSourcing.Remote.Session

/-!
# What a conflict tells

A client may reject an append without naming the version of the stream, and then the version that
the conflict tells is read later, when others may have written. It is a version that the stream had
in the course of the append; but if it is read late, the stream may have come up to the version that
the writer expected (`Store.conflict_real`). Both a log in memory and a log on a server, which never
names the version, are clients of this kind.
-/

namespace EventSourcing

/-! ## Versions -/

namespace Log

/-- A stream that is not deleted is at a version; one that was never written is at zero. -/
structure IsAt (log : Log) (stream : String) (version : Nat) : Prop where
  live : stream ∉ log.deleted
  version_eq : (log.versions.get? stream).getD 0 = version

section

variable {log log' : Log} {stream : String}

/-- The version of a stream never goes down, unless the stream is deleted. -/
theorem Step.version_le (h : log.Step log') (hd : stream ∉ log'.deleted) :
    (log.versions.get? stream).getD 0 ≤ (log'.versions.get? stream).getD 0 := by
  cases h with
  | @append x expected events time version log' ha =>
      obtain ⟨-, -, hv, rfl⟩ := append_eq_ok ha
      by_cases he : events = []
      · simp [he]
      · by_cases hx : stream = x
        · subst hx
          simp [he, Table.get?_insert, hv]
        · simp [he, Table.get?_insert, hx]
  | @tombstone x time log' ht =>
      rw [tombstone_deleted ht, List.mem_cons, not_or] at hd
      obtain ⟨-, rfl⟩ := tombstone_eq_ok ht
      simp [cleared, Table.get?_erase, hd.1]

theorem Before.version_le (h : log.Before log') (hd : stream ∉ log'.deleted) :
    (log.versions.get? stream).getD 0 ≤ (log'.versions.get? stream).getD 0 := by
  induction h with
  | refl => exact Nat.le_refl _
  | tail _ hs ih => exact Nat.le_trans (ih fun h => hd (hs.deleted h)) (hs.version_le hd)

theorem IsAt.le_of_before {version version' : Nat} (h : log.IsAt stream version)
    (h' : log'.IsAt stream version') (hb : log.Before log') : version ≤ version' := by
  rw [← h.version_eq, ← h'.version_eq]
  exact hb.version_le h'.live

theorem isAt_of_version? {version : Option Nat} (h : log.version? stream = .ok version) :
    log.IsAt stream (version.getD 0) := by
  unfold version? at h
  split at h
  · cases h
  · rename_i hd
    obtain rfl := Except.ok.inj h
    exact ⟨hd, rfl⟩

theorem append_eq_wrongExpectedVersion {expected e : Expectation} {events : List EncodedEvent}
    {time : Int} {x : String} {reported : Option Nat}
    (h : log.append stream expected events time = .error (.wrongExpectedVersion x e reported)) :
    stream ∉ log.deleted ∧ ¬ expected.Matches ((log.versions.get? stream).getD 0) ∧
      reported = log.versions.get? stream := by
  unfold append at h
  split at h
  · cases h
  · rename_i hd
    simp only at h
    split at h
    · cases h
    · rename_i hm
      cases h
      exact ⟨hd, hm, rfl⟩

end

end Log

/-! ## Truthful clients -/

/-- A client tells the truth about the log behind it: it rejects an append for its version only if
that is wrong, and then leaves the log as it is; the versions that it tells are those of the log. It
need not tell the version when it rejects an append. -/
structure Store.Truthful {σ : Type} [LogClient σ] (logOf : σ → Log) : Prop where
  rejected : ∀ (client : σ) (stream : String) (expected : Expectation)
    (events : List EncodedEvent) (x : String) (e : Expectation) (reported : Option Nat),
    (LogClient.append client stream expected events).1 =
      .error (.wrongExpectedVersion x e reported) →
    stream ∉ (logOf client).deleted ∧
      ¬ expected.Matches (((logOf client).versions.get? stream).getD 0) ∧
      logOf (LogClient.append client stream expected events).2 = logOf client ∧
      ∀ actual, reported = some actual → (logOf client).IsAt stream actual
  version : ∀ (client : σ) (stream : String) (version : Option Nat),
    (LogClient.version? client stream).1 = .ok version →
    (logOf client).IsAt stream (version.getD 0)

/-- A log in memory names the version of the stream, unless the stream was never written. -/
theorem Server.truthful : Store.Truthful Server.log where
  rejected s stream expected events x e reported h := by
    simp only [LogClient.append, Server.append, Server.time_calls] at h ⊢
    cases ha : s.log.append stream expected events s.time with
    | ok result =>
        rw [ha] at h
        cases h
    | error error =>
        rw [ha] at h
        obtain rfl := Except.error.inj h
        obtain ⟨hd, hm, rfl⟩ := Log.append_eq_wrongExpectedVersion ha
        refine ⟨hd, hm, rfl, fun actual hactual => ⟨hd, ?_⟩⟩
        rw [hactual]
        rfl
  version _ _ _ h := Log.isAt_of_version? h

namespace Remote

/-- A server keeps a log: it refuses an append for its version only if that is wrong, and then leaves
the log as it is; the last event of a stream is the one before its version. -/
structure Keeps {ρ : Type} [Responder ρ] (logOf : ρ → Log) : Prop where
  refused : ∀ (responder : ρ) (stream : String) (expected e : Expectation)
    (events : List Outgoing) (current : Option Nat),
    (Responder.request responder (.append stream expected events)).1 =
      .error (.wrongExpectedVersion e current) →
    stream ∉ (logOf responder).deleted ∧
      ¬ expected.Matches (((logOf responder).versions.get? stream).getD 0) ∧
      logOf (Responder.request responder (.append stream expected events)).2 = logOf responder
  found : ∀ (responder : ρ) (stream : String) (reply : Reply) (slot : Slot) (rest : List Item),
    (Responder.request responder (.read stream .atEnd true false (some 1))).1 = .ok reply →
    reply.items = .ok slot :: rest → (logOf responder).IsAt stream (slot.entry.revision + 1)
  empty : ∀ (responder : ρ) (stream : String) (reply : Reply),
    (Responder.request responder (.read stream .atEnd true false (some 1))).1 = .ok reply →
    (reply.items = [] ∨ ∃ rest, reply.items = .error .resourceNotFound :: rest) →
    (logOf responder).IsAt stream 0
  missing : ∀ (responder : ρ) (stream : String),
    (Responder.request responder (.read stream .atEnd true false (some 1))).1 =
      .error .resourceNotFound → (logOf responder).IsAt stream 0

namespace Client

variable {ρ : Type} [Responder ρ] {logOf : ρ → Log}

/-- A log on a server never names the version of the stream when it rejects an append. -/
theorem append_eq_wrongExpectedVersion {c : Client ρ} {stream x : String}
    {expected e : Expectation} {events : List EncodedEvent} {reported : Option Nat}
    (h : (c.append stream expected events).1 = .error (.wrongExpectedVersion x e reported)) :
    reported = none ∧ ∃ current e', (Responder.request c.responder
      (.append stream expected (events.map .ofEncoded))).1 =
        .error (.wrongExpectedVersion e' current) := by
  unfold append request at h
  cases hr : Responder.request c.responder (.append stream expected (events.map .ofEncoded)) with
  | mk result responder =>
      simp only [hr] at h
      cases result with
      | ok reply => cases h
      | error error =>
          simp only [Except.error.injEq] at h
          cases error with
          | wrongExpectedVersion e' current =>
              simp only [appendError, LogError.wrongExpectedVersion.injEq] at h
              exact ⟨h.2.2.symm, current, e', rfl⟩
          | _ => simp [appendError, callError] at h

theorem append_responder (c : Client ρ) (stream : String) (expected : Expectation)
    (events : List EncodedEvent) : (c.append stream expected events).2.responder =
      (Responder.request c.responder (.append stream expected (events.map .ofEncoded))).2 := by
  unfold append request
  cases Responder.request c.responder (.append stream expected (events.map .ofEncoded)) with
  | mk result responder => cases result <;> rfl

theorem versionOf_eq_ok {stream : String} {items : List Item} {version : Option Nat}
    (h : versionOf stream items = .ok version) :
    version = none ∧ (items = [] ∨ ∃ rest, items = .error .resourceNotFound :: rest) ∨
    ∃ slot rest, version = some (slot.entry.revision + 1) ∧ items = .ok slot :: rest := by
  unfold versionOf at h
  split at h
  · exact .inl ⟨(Except.ok.inj h).symm, .inl rfl⟩
  · exact .inl ⟨(Except.ok.inj h).symm, .inr ⟨_, rfl⟩⟩
  · cases h
  · exact .inr ⟨_, _, (Except.ok.inj h).symm, rfl⟩

theorem version?_eq_ok {c : Client ρ} {stream : String} {version : Option Nat}
    (h : (c.version? stream).1 = .ok version) :
    (∃ reply, (Responder.request c.responder (.read stream .atEnd true false (some 1))).1 =
      .ok reply ∧ versionOf stream reply.items = .ok version) ∨
    (Responder.request c.responder (.read stream .atEnd true false (some 1))).1 =
      .error .resourceNotFound ∧ version = none := by
  unfold version? request at h
  cases hr : Responder.request c.responder (.read stream .atEnd true false (some 1)) with
  | mk result responder =>
      simp only [hr] at h
      cases result with
      | ok reply => exact .inl ⟨reply, rfl, h⟩
      | error e =>
          cases e with
          | resourceNotFound => exact .inr ⟨rfl, (Except.ok.inj h).symm⟩
          | _ => cases h

theorem truthful (h : Keeps logOf) : Store.Truthful fun c : Client ρ => logOf c.responder where
  rejected c stream expected events x e reported hr := by
    obtain ⟨rfl, current, e', hreq⟩ := append_eq_wrongExpectedVersion hr
    obtain ⟨hd, hm, hl⟩ := h.refused _ _ _ _ _ _ hreq
    refine ⟨hd, hm, ?_, fun actual hactual => by cases hactual⟩
    rw [← hl]
    exact congrArg logOf (append_responder ..)
  version c stream version hv := by
    rcases version?_eq_ok hv with ⟨reply, hreply, hof⟩ | ⟨herror, rfl⟩
    · rcases versionOf_eq_ok hof with ⟨rfl, hitems⟩ | ⟨slot, rest, rfl, hitems⟩
      · exact h.empty _ _ reply hreply hitems
      · exact h.found _ _ reply slot rest hreply hitems
    · exact h.missing _ _ herror

end Client

/-! ### A server that keeps a log -/

/-- A server as far as appends and the last events of streams go. -/
structure Keeper where
  log : Log

namespace Keeper

/-- The last event of a stream at a version. -/
def last (stream : String) (revision : Nat) : Slot :=
  .event ⟨revision, stream, "", revision, revision, revision, 0, [], []⟩

def request (k : Keeper) : Call → Except ServerError Reply × Keeper
  | .append stream expected events =>
    let events := events.map fun e => ⟨e.eventType, e.payload, e.metadata.getD []⟩
    match k.log.append stream expected events 0 with
    | .ok (version, log) => (.ok (.revision (version - 1)), ⟨log⟩)
    | .error (.wrongExpectedVersion _ expected actual) =>
      (.error (.wrongExpectedVersion expected (actual.map (· - 1))), k)
    | .error _ => (.error .resourceDeleted, k)
  | .read stream _ _ _ _ =>
    match k.log.version? stream with
    | .ok (some (n + 1)) => (.ok (.events [.ok (last stream n)]), k)
    | .ok _ => (.error .resourceNotFound, k)
    | .error _ => (.error .resourceDeleted, k)
  | _ => (.ok .done, k)

instance : Responder Keeper := ⟨request⟩

theorem request_before (k : Keeper) (call : Call) : k.log.Before (k.request call).2.log := by
  unfold request
  split
  · simp only
    split
    · rename_i ha
      exact .single (.append ha)
    · exact .refl
    · exact .refl
  · split <;> exact .refl
  · exact .refl

theorem keeps : Keeps Keeper.log where
  refused k stream expected e events current h := by
    simp only [Responder.request, request] at h ⊢
    split at h
    · cases h
    · rename_i ha
      obtain ⟨hd, hm, -⟩ := Log.append_eq_wrongExpectedVersion ha
      exact ⟨hd, hm, rfl⟩
    · cases h
  found k stream reply slot rest h hitems := by
    simp only [Responder.request, request] at h
    split at h
    · rename_i n hv
      obtain rfl := Except.ok.inj h
      obtain rfl := Except.ok.inj (List.cons.inj hitems).1
      exact Log.isAt_of_version? hv
    · cases h
    · cases h
  empty k stream reply h hitems := by
    simp only [Responder.request, request] at h
    split at h
    · obtain rfl := Except.ok.inj h
      simp [Reply.items] at hitems
    · cases h
    · cases h
  missing k stream h := by
    simp only [Responder.request, request] at h
    split at h
    · cases h
    · rename_i version hno hv
      have hat := Log.isAt_of_version? hv
      cases version with
      | none => exact hat
      | some n =>
          cases n with
          | zero => exact hat
          | succ n => exact absurd rfl (hno n)
    · cases h

end Keeper

end Remote

/-! ## Conflicts -/

theorem StoreError.ofLogError_ne_concurrency (e : LogError) (c : Conflict) :
    ofLogError e ≠ .concurrency c := by
  cases e <;> exact fun h => by cases h

namespace Store

section Truthful

variable {σ : Type} [LogClient σ] {logOf : σ → Log} (ht : Truthful logOf) {client : σ}
  {stream : String} {events : List EncodedEvent} {expected : Nat}

include ht

/-- A conflict that the first call tells is that of the moment. -/
theorem Truthful.of_settled {c : Conflict}
    (h : (attempt client stream events expected).1 = .settled (.error (.concurrency c))) :
    c.stream = stream ∧ c.expected = expected ∧ (logOf client).IsAt stream c.actual ∧
      c.actual ≠ expected := by
  have hr := ht.rejected client stream (.ofVersion expected) events
  unfold attempt at h
  split at h
  · cases h
  · split at h
    · cases h
    · rename_i x e actual client' ha
      rw [ha] at hr
      obtain rfl := StoreError.concurrency.inj (Except.error.inj (Attempt.settled.inj h))
      obtain ⟨-, hm, -, hat⟩ := hr x e _ rfl
      have hat := hat actual rfl
      rw [hat.version_eq, Expectation.matches_ofVersion] at hm
      exact ⟨rfl, rfl, hat, hm⟩
    · cases h
    · exact absurd (Except.error.inj (Attempt.settled.inj h))
        (StoreError.ofLogError_ne_concurrency _ _)

/-- An append that has yet to be explained was made at another version than expected. -/
theorem Truthful.of_unexplained (h : (attempt client stream events expected).1 = .unexplained) :
    logOf (attempt client stream events expected).2 = logOf client ∧
      ∃ found, (logOf client).IsAt stream found ∧ found ≠ expected := by
  have hr := ht.rejected client stream (.ofVersion expected) events
  unfold attempt at h ⊢
  split at h
  · cases h
  · rename_i hne
    rw [if_neg hne]
    split at h
    · cases h
    · cases h
    · rename_i x e client' ha
      rw [ha] at hr
      obtain ⟨hd, hm, hl, -⟩ := hr x e _ rfl
      rw [Expectation.matches_ofVersion] at hm
      exact ⟨hl, _, ⟨hd, rfl⟩, hm⟩
    · cases h

theorem Truthful.of_explain {c : Conflict}
    (h : (explain client stream expected).1 = .error (.concurrency c)) :
    c.stream = stream ∧ c.expected = expected ∧ (logOf client).IsAt stream c.actual := by
  have hv := ht.version client stream
  simp only [explain, Store.version, answer] at h
  cases ha : (LogClient.version? client stream).1 with
  | ok version =>
      simp only [ha, Except.mapError, Except.map] at h
      obtain rfl := StoreError.concurrency.inj (Except.error.inj h)
      exact ⟨rfl, rfl, hv version ha⟩
  | error e =>
      simp only [ha, Except.mapError, Except.map] at h
      exact absurd (Except.error.inj h) (StoreError.ofLogError_ne_concurrency _ _)

end Truthful

/-- A version that cannot be read is no conflict. -/
theorem explain_of_error {σ : Type} [LogClient σ] {client : σ} {stream : String} {e : LogError}
    (h : (LogClient.version? client stream).1 = .error e) (expected : Nat) :
    (explain client stream expected).1 = .error (.ofLogError e) := by
  simp only [explain, version, answer, h, Except.mapError, Except.map]

/-- A conflict tells a version that the stream had when the append was rejected, or when the version
was read after that, and the append was rejected at another version than expected. The expected
version itself can only come out if the rejection did not name the version and others have brought
the stream up to it since. What cannot be read is no conflict. -/
theorem conflict_real {σ : Type} [LogClient σ] {logOf : σ → Log} (ht : Truthful logOf) (client : σ)
    (stream : String) (events : List EncodedEvent) (expected : Nat) (others : σ → σ)
    (hothers : ∀ c, (logOf c).Before (logOf (others c))) :
    let first := attempt client stream events expected
    let later := others first.2
    let result := (appendAround client stream events expected others).1
    (∀ c, result = .error (.concurrency c) → c.stream = stream ∧ c.expected = expected ∧
      ∃ found, (logOf client).IsAt stream found ∧ found ≠ expected ∧
        (c.actual = found ∨ first.1 = .unexplained ∧ (logOf later).IsAt stream c.actual) ∧
        (c.actual = expected → first.1 = .unexplained ∧ found < expected ∧
          (logOf later).IsAt stream expected)) ∧
    ∀ e, first.1 = .unexplained → (LogClient.version? later stream).1 = .error e →
      result = .error (.ofLogError e) ∧ ∀ c, StoreError.ofLogError e ≠ .concurrency c := by
  intro first later result
  have hlater : (logOf first.2).Before (logOf later) := hothers first.2
  constructor
  · intro c hc
    cases hfirst : first.1 with
    | settled answer =>
        have hresult : result = answer := congrArg Prod.fst (appendAround_of_settled hfirst others)
        rw [← hresult, hc] at hfirst
        obtain ⟨hs, he, hat, hne⟩ := ht.of_settled hfirst
        exact ⟨hs, he, c.actual, hat, hne, .inl rfl, fun h => absurd h hne⟩
    | unexplained =>
        have hresult : result = (explain later stream expected).1 :=
          congrArg Prod.fst (appendAround_of_unexplained hfirst others)
        obtain ⟨hl, found, hat, hne⟩ := ht.of_unexplained hfirst
        obtain ⟨hs, he, hread⟩ := ht.of_explain (hresult.symm.trans hc)
        -- The stream was not deleted in between, so that it has only grown.
        have hle : found ≤ c.actual := hat.le_of_before hread (hl ▸ hlater)
        refine ⟨hs, he, found, hat, hne, .inr ⟨rfl, hread⟩, fun h => ⟨rfl, ?_, h ▸ hread⟩⟩
        exact Nat.lt_of_le_of_ne (h ▸ hle) hne
  · intro e hfirst he
    have hresult : result = (explain later stream expected).1 :=
      congrArg Prod.fst (appendAround_of_unexplained hfirst others)
    exact ⟨hresult.trans (explain_of_error he expected), StoreError.ofLogError_ne_concurrency e⟩

/-- Others write two events. -/
def writeTwo (s : Server) : Server :=
  (s.serve (.call (.append "order-1" .any [⟨"Placed", [], []⟩, ⟨"Noted", [], []⟩]))).2

/-- The same, on a server. -/
def writeTwoRemotely (c : Remote.Client Remote.Keeper) : Remote.Client Remote.Keeper :=
  (c.append "order-1" .any [⟨"Placed", [], []⟩, ⟨"Noted", [], []⟩]).2

theorem writeTwo_before (s : Server) : s.log.Before (writeTwo s).log := s.serve_before _

theorem writeTwoRemotely_before (c : Remote.Client Remote.Keeper) :
    c.responder.log.Before (writeTwoRemotely c).responder.log := by
  rw [writeTwoRemotely, Remote.Client.append_responder]
  exact Remote.Keeper.request_before ..

theorem conflict_real_lateRead :
    let client : Remote.Client Remote.Keeper := ⟨⟨.empty⟩⟩
    let first := attempt client "order-1" [⟨"Shipped", [], []⟩] 1
    let logOf (c : Remote.Client Remote.Keeper) := c.responder.log
    Truthful logOf ∧ (∀ c, (logOf c).Before (logOf (writeTwoRemotely c))) ∧
    (appendAround client "order-1" [⟨"Shipped", [], []⟩] 1 writeTwoRemotely).1 =
      .error (.concurrency ⟨"order-1", 1, 2⟩) ∧
    ∃ found, (logOf client).IsAt "order-1" found ∧ found ≠ 1 ∧
      (2 = found ∨ first.1 = .unexplained ∧ (logOf (writeTwoRemotely first.2)).IsAt "order-1" 2) := by
  intro client first logOf
  have ht : Truthful logOf := Remote.Client.truthful Remote.Keeper.keeps
  have hresult : (appendAround client "order-1" [⟨"Shipped", [], []⟩] 1 writeTwoRemotely).1 =
      .error (.concurrency ⟨"order-1", 1, 2⟩) := by
    decide +kernel
  obtain ⟨-, -, found, hat, hne, hactual, -⟩ := (conflict_real ht client "order-1"
    [⟨"Shipped", [], []⟩] 1 writeTwoRemotely writeTwoRemotely_before).1 _ hresult
  exact ⟨ht, writeTwoRemotely_before, hresult, found, hat, hne, hactual⟩

/-- The stream was never written when an append at version 2 was rejected, and is at version 2 when
the version is read. Neither a log in memory nor one on a server names the version before. -/
theorem conflict_with_expected_version :
    (∀ s : Server, s.log.Before (writeTwo s).log) ∧
    (appendAround (Server.start 0) "order-1" [⟨"Shipped", [], []⟩] 2 writeTwo).1 =
      .error (.concurrency ⟨"order-1", 2, 2⟩) ∧
    (∀ c : Remote.Client Remote.Keeper,
      c.responder.log.Before (writeTwoRemotely c).responder.log) ∧
    (appendAround (⟨⟨.empty⟩⟩ : Remote.Client Remote.Keeper) "order-1" [⟨"Shipped", [], []⟩] 2
      writeTwoRemotely).1 = .error (.concurrency ⟨"order-1", 2, 2⟩) :=
  ⟨writeTwo_before, by decide +kernel, writeTwoRemotely_before, by decide +kernel⟩

end Store

end EventSourcing
