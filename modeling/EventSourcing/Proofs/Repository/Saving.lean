import EventSourcing.Proofs.Store.Transcript

/-!
# What a save comes to

A save is over before anything is asked, or it is one append that goes through or is rejected
(`Repository.Saves`). So all pending events of a root are stored and the root has moved on, or the
root and the log are what they were (`Repository.saves_all_or_nothing`).
-/

namespace EventSourcing.Repository

variable {A E : Type} [DomainEvent E]

/-! ## Encoding what is pending -/

/-- Whether an event can be stored. -/
def Encodes (r : Repository A E) (event : E) : Prop :=
  ∃ x, EncodedEvent.ofEvent event r.category = .ok x

section Encoding

variable {r : Repository A E} {root : Root A E}

/-- The first event that cannot be encoded is the one that is complained about. -/
theorem encodePending_eq_error_iff {e : EncodeError} : r.encodePending root = .error e ↔
    ∃ before event after, root.pending = before ++ event :: after ∧ (∀ b ∈ before, r.Encodes b) ∧
      EncodedEvent.ofEvent event r.category = .error e := by
  unfold encodePending
  generalize root.pending = pending
  induction pending with
  | nil =>
      refine ⟨nofun, ?_⟩
      rintro ⟨before, event, after, hp, -⟩
      cases before <;> cases hp
  | cons event pending ih =>
      simp only [List.mapM_cons, List.cons_eq_append_iff]
      cases hx : EncodedEvent.ofEvent event r.category with
      | error e' =>
          constructor
          · intro h
            obtain rfl : e' = e := Except.error.inj h
            exact ⟨[], event, pending, .inl ⟨rfl, rfl⟩, nofun, hx⟩
          · rintro ⟨before, event', after, ⟨rfl, hp⟩ | ⟨before, rfl, -⟩, hb, he⟩
            · obtain ⟨rfl, rfl⟩ := List.cons.inj hp
              obtain rfl := Except.error.inj (hx.symm.trans he)
              rfl
            · obtain ⟨x, hx'⟩ := hb event List.mem_cons_self
              cases hx.symm.trans hx'
      | ok x =>
          have hrest : (List.mapM (fun event => EncodedEvent.ofEvent event r.category) pending >>=
              fun xs => Except.ok (x :: xs)) = .error e ↔
              List.mapM (fun event => EncodedEvent.ofEvent event r.category) pending =
                .error e := by
            cases List.mapM (fun event => EncodedEvent.ofEvent event r.category) pending with
            | error e' => exact ⟨fun h => congrArg _ (Except.error.inj h),
                fun h => congrArg _ (Except.error.inj h)⟩
            | ok xs => exact ⟨nofun, nofun⟩
          refine hrest.trans (ih.trans ⟨?_, ?_⟩)
          · rintro ⟨before, event', after, rfl, hb, he⟩
            exact ⟨event :: before, event', after, .inr ⟨before, rfl, rfl⟩,
              List.forall_mem_cons.2 ⟨⟨x, hx⟩, hb⟩, he⟩
          · rintro ⟨before, event', after, ⟨rfl, hp⟩ | ⟨before, rfl, rfl⟩, hb, he⟩
            · obtain ⟨rfl, rfl⟩ := List.cons.inj hp
              cases hx.symm.trans he
            · exact ⟨before, event', after, rfl, (List.forall_mem_cons.1 hb).2, he⟩

theorem encodePending_of_nil (hp : root.pending = []) : r.encodePending root = .ok [] := by
  rw [encodePending, hp]
  rfl

/-- Events that can all be encoded are encoded. -/
theorem exists_encodePending (h : ∀ event ∈ root.pending, r.Encodes event) :
    ∃ events, r.encodePending root = .ok events := by
  cases he : r.encodePending root with
  | ok events => exact ⟨events, rfl⟩
  | error e =>
      obtain ⟨before, event, after, hp, -, hx⟩ := encodePending_eq_error_iff.1 he
      have hmem : event ∈ root.pending := by simp [hp]
      obtain ⟨x, hx'⟩ := h event hmem
      cases hx.symm.trans hx'

end Encoding

/-! ## The cases of a save -/

/-- What a save can come to, and what it has asked. -/
inductive Saves (r : Repository A E) (t : Transcript Server) (root : Root A E) :
    Except RepositoryError Unit × Root A E × Transcript Server → Prop
  | idle (hp : root.pending = []) : Saves r t root (.ok (), root, t)
  | unencoded {e : EncodeError} (he : r.encodePending root = .error e) :
      Saves r t root (.error (.serialization e), root, t)
  | refused {events : List EncodedEvent} {t' : Transcript Server} (hp : root.pending ≠ [])
      (he : r.encodePending root = .ok events) (hd : r.streamOf root.id ∈ t.client.log.deleted)
      (hl : t'.client.log = t.client.log) :
      Saves r t root (.error (.store (.streamDeleted (r.streamOf root.id))), root, t')
  | outdated {events : List EncodedEvent} {version : Nat} {t' : Transcript Server}
      (hp : root.pending ≠ []) (he : r.encodePending root = .ok events)
      (hd : r.streamOf root.id ∉ t.client.log.deleted)
      (hv : (t.client.log.versions.get? (r.streamOf root.id)).getD 0 = version)
      (hne : version ≠ root.version) (hl : t'.client.log = t.client.log) :
      Saves r t root
        (.error (.concurrency ⟨r.streamOf root.id, root.version, version⟩), root, t')
  | stored {events : List EncodedEvent} {t' : Transcript Server} (hp : root.pending ≠ [])
      (he : r.encodePending root = .ok events) (hd : r.streamOf root.id ∉ t.client.log.deleted)
      (hv : (t.client.log.versions.get? (r.streamOf root.id)).getD 0 = root.version)
      (hcalls : t'.calls =
        t.calls ++ [.append (r.streamOf root.id) (.ofVersion root.version) events])
      (hext : t.client.log.Extended t'.client.log (r.streamOf root.id) root.version events) :
      Saves r t root (.ok (), root.saved (root.version + events.length), t')

theorem save_cases (r : Repository A E) (t : Transcript Server) (root : Root A E) :
    r.Saves t root (r.save t root) := by
  by_cases hp : root.pending = []
  · rw [save, if_pos hp]
    exact .idle hp
  cases he : r.encodePending root with
  | error e =>
      rw [save, if_neg hp]
      simp only [he]
      exact .unencoded he
  | ok events =>
      have hne := encodePending_ne_nil he hp
      obtain ⟨more, happ, hmore⟩ :=
        Store.append_note t (r.streamOf root.id) events root.version hne
      rw [save, if_neg hp]
      simp only [he, happ]
      by_cases hd : r.streamOf root.id ∈ t.client.log.deleted
      · obtain ⟨hr, hl⟩ := Store.append_of_deleted hne hd root.version
        simp only [hr]
        exact .refused hp he hd hl
      by_cases hv : (t.client.log.versions.get? (r.streamOf root.id)).getD 0 = root.version
      · obtain ⟨hr, hext⟩ := Store.append_of_eq hne hd hv
        obtain rfl := hmore _ hr
        simp only [hr]
        exact .stored hp he hd hv rfl hext
      · obtain ⟨hr, hl⟩ := Store.append_of_ne hne hd hv
        simp only [hr]
        exact .outdated hp he hd rfl hv hl

/-- A save does the same to a client whose calls are written down. -/
theorem save_note (r : Repository A E) (t : Transcript Server) (root : Root A E) :
    ∃ calls, r.save t root =
      ((r.save t.client root).1, (r.save t.client root).2.1,
        ⟨(r.save t.client root).2.2, calls⟩) := by
  unfold save
  by_cases hp : root.pending = []
  · exact ⟨t.calls, by rw [if_pos hp, if_pos hp]⟩
  rw [if_neg hp, if_neg hp]
  cases he : r.encodePending root with
  | error e => exact ⟨t.calls, rfl⟩
  | ok events =>
      have hne := encodePending_ne_nil he hp
      obtain ⟨more, happ, -⟩ := Store.append_note t (r.streamOf root.id) events root.version hne
      simp only [happ]
      cases Store.append t.client (r.streamOf root.id) events root.version with
      | mk result server => cases result <;> exact ⟨_, rfl⟩

/-- What a save on a server comes to. -/
theorem exists_saves (r : Repository A E) (s : Server) (root : Root A E) :
    ∃ calls, r.Saves ⟨s, []⟩ root
      ((r.save s root).1, (r.save s root).2.1, ⟨(r.save s root).2.2, calls⟩) := by
  obtain ⟨calls, h⟩ := r.save_note ⟨s, []⟩ root
  exact ⟨calls, h ▸ r.save_cases ⟨s, []⟩ root⟩

/-- All that was pending has been put behind what the log held, in order and side by side in the
stream of the root, and the root is up to date. -/
structure Stored (r : Repository A E) (root root' : Root A E) (log log' : Log) : Prop where
  root_eq : root' = { root with version := root.version + root.pending.length, pending := [] }
  deleted_eq : log'.deleted = log.deleted
  news : ∃ news : List Entry, log'.entries = log.entries ++ news ∧
    log'.history = log.history ++ news ∧
    List.Forall₂ (fun event entry =>
      EncodedEvent.ofEvent event r.category = .ok entry.record.encoded) root.pending news ∧
    (∀ entry ∈ news, entry.record.stream = r.streamOf root.id) ∧
    news.map (·.record.position) = List.range' root.version root.pending.length

namespace Saves

variable {r : Repository A E} {t : Transcript Server} {root : Root A E}
  {answer : Except RepositoryError Unit × Root A E × Transcript Server}

theorem of_nil (h : r.Saves t root answer) (hp : root.pending = []) :
    answer = (.ok (), root, t) := by
  cases h with
  | idle hp' => rfl
  | unencoded he => cases he.symm.trans (encodePending_of_nil hp)
  | _ => contradiction

theorem of_unencoded (h : r.Saves t root answer) {e : EncodeError}
    (hx : r.encodePending root = .error e) : answer = (.error (.serialization e), root, t) := by
  cases h with
  | idle hp => cases hx.symm.trans (encodePending_of_nil hp)
  | unencoded he =>
      obtain rfl := Except.error.inj (hx.symm.trans he)
      rfl
  | refused hp he => cases hx.symm.trans he
  | outdated hp he => cases hx.symm.trans he
  | stored hp he => cases hx.symm.trans he

/-- A save that fails leaves everything as it was. -/
theorem failed (h : r.Saves t root answer) {e : RepositoryError} (he : answer.1 = .error e) :
    answer.2.1 = root ∧ answer.2.2.client.log = t.client.log := by
  cases h with
  | idle hp => cases he
  | unencoded hx => exact ⟨rfl, rfl⟩
  | refused hp hx hd hl => exact ⟨rfl, hl⟩
  | outdated hp hx hd hv hne hl => exact ⟨rfl, hl⟩
  | stored hp hx hd hv hcalls hext => cases he

/-- Where there is something to store that can be encoded, the state of the stream decides. -/
theorem of_encoded (h : r.Saves t root answer) (hp : root.pending ≠ []) {events : List EncodedEvent}
    (hx : r.encodePending root = .ok events) :
    (r.streamOf root.id ∈ t.client.log.deleted ∧
      answer.1 = .error (.store (.streamDeleted (r.streamOf root.id)))) ∨
    ∃ version, (Store.version t.client (r.streamOf root.id)).1 = .ok version ∧
      answer.1 = if version = root.version then .ok ()
        else .error (.concurrency ⟨r.streamOf root.id, root.version, version⟩) := by
  cases h with
  | idle hp' => exact absurd hp' hp
  | unencoded he => cases hx.symm.trans he
  | refused hp' he hd hl => exact .inl ⟨hd, rfl⟩
  | outdated hp' he hd hv hne hl =>
      exact .inr ⟨_, Store.version_eq_ok_iff.2 ⟨hd, hv⟩, (if_neg hne).symm⟩
  | stored hp' he hd hv hcalls hext =>
      exact .inr ⟨_, Store.version_eq_ok_iff.2 ⟨hd, hv⟩, (if_pos rfl).symm⟩

/-- A save at the version of the stream is one append. -/
theorem of_current (h : r.Saves t root answer) (hp : root.pending ≠ [])
    {events : List EncodedEvent} (hx : r.encodePending root = .ok events)
    (hd : r.streamOf root.id ∉ t.client.log.deleted)
    (hv : (t.client.log.versions.get? (r.streamOf root.id)).getD 0 = root.version) :
    answer.1 = .ok () ∧ answer.2.2.calls =
      t.calls ++ [.append (r.streamOf root.id) (.ofVersion root.version) events] ∧
      t.client.log.Extended answer.2.2.client.log (r.streamOf root.id) root.version events := by
  cases h with
  | idle hp' => exact absurd hp' hp
  | unencoded he => cases hx.symm.trans he
  | refused hp' he hd' => exact absurd hd' hd
  | outdated hp' he hd' hv' hne => exact absurd (hv'.symm.trans hv) hne
  | stored hp' he hd' hv' hcalls hext =>
      obtain rfl := Except.ok.inj (hx.symm.trans he)
      exact ⟨rfl, hcalls, hext⟩

theorem saved (h : r.Saves t root answer) (hok : answer.1 = .ok ()) :
    r.Stored root answer.2.1 t.client.log answer.2.2.client.log := by
  cases h with
  | idle hp =>
      obtain ⟨id, version, state, pending⟩ := root
      obtain rfl : pending = [] := hp
      exact ⟨rfl, rfl, [], (List.append_nil _).symm, (List.append_nil _).symm, .nil, nofun, rfl⟩
  | stored hp he hd hv hcalls hext =>
      have hpending := encodePending_eq_ok he
      have hlen := hpending.length_eq
      obtain ⟨news, hentries, hhistory, hstream, rfl, hposition⟩ := hext.news
      refine ⟨?_, hext.deleted_eq, news, hentries, hhistory, ?_, hstream, ?_⟩
      · rw [hlen]
        rfl
      · simpa only [List.forall₂_map_right_iff] using hpending
      · rw [hlen]
        exact hposition
  | _ => cases hok

end Saves

/-! ## All or nothing -/

/-- A save has stored all pending events of a root, in order and side by side, or it has changed
neither the root nor the log. -/
structure AllOrNothing (r : Repository A E) (t : Transcript Server) (root : Root A E)
    (answer : Except RepositoryError Unit × Root A E × Transcript Server) : Prop where
  idle : root.pending = [] → answer = (.ok (), root, t)
  /-- An event that cannot be encoded ends the save before anything is asked, wherever it stands. -/
  unencoded : ∀ before event after e, root.pending = before ++ event :: after →
    (∀ b ∈ before, r.Encodes b) → EncodedEvent.ofEvent event r.category = .error e →
    answer = (.error (.serialization e), root, t)
  refused : root.pending ≠ [] → (∀ event ∈ root.pending, r.Encodes event) →
    (Store.version t.client (r.streamOf root.id)).1 =
      .error (.streamDeleted (r.streamOf root.id)) →
    answer.1 = .error (.store (.streamDeleted (r.streamOf root.id)))
  outdated : ∀ version, root.pending ≠ [] → (∀ event ∈ root.pending, r.Encodes event) →
    (Store.version t.client (r.streamOf root.id)).1 = .ok version → version ≠ root.version →
    answer.1 = .error (.concurrency ⟨r.streamOf root.id, root.version, version⟩)
  accepted : (∀ event ∈ root.pending, r.Encodes event) →
    (Store.version t.client (r.streamOf root.id)).1 = .ok root.version → answer.1 = .ok ()
  /-- A failure leaves everything as it was. -/
  failed : ∀ e, answer.1 = .error e →
    answer.2.1 = root ∧ answer.2.2.client.log = t.client.log
  saved : answer.1 = .ok () → r.Stored root answer.2.1 t.client.log answer.2.2.client.log

/-- Whatever the store holds, a save stores all pending events of a root or changes nothing. -/
theorem saves_all_or_nothing (r : Repository A E) (t : Transcript Server)
    (root : Root A E) : r.AllOrNothing t root (r.save t root) := by
  have h := r.save_cases t root
  generalize r.save t root = answer at h
  have hsettled (hp : root.pending ≠ []) (hx : ∀ event ∈ root.pending, r.Encodes event) :=
    (exists_encodePending hx).elim fun _ he => h.of_encoded hp he
  refine ⟨h.of_nil, ?_, ?_, ?_, ?_, fun e => h.failed, h.saved⟩
  · intro before event after e hp hb he
    exact h.of_unencoded (encodePending_eq_error_iff.2 ⟨before, event, after, hp, hb, he⟩)
  · intro hp hx hd
    rcases hsettled hp hx with ⟨-, ha⟩ | ⟨version, hv, -⟩
    · exact ha
    · cases hv.symm.trans hd
  · intro version hp hx hv hne
    rcases hsettled hp hx with ⟨hd, -⟩ | ⟨version', hv', ha⟩
    · exact absurd hd (Store.version_eq_ok_iff.1 hv).1
    · obtain rfl := Except.ok.inj (hv.symm.trans hv')
      exact ha.trans (if_neg hne)
  · intro hx hv
    by_cases hp : root.pending = []
    · rw [h.of_nil hp]
    · rcases hsettled hp hx with ⟨hd, -⟩ | ⟨version, hv', ha⟩
      · exact absurd hd (Store.version_eq_ok_iff.1 hv).1
      · obtain rfl := Except.ok.inj (hv.symm.trans hv')
        exact ha.trans (if_pos rfl)

end EventSourcing.Repository
