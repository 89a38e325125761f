import EventSourcing.Proofs.Repository.Replay

/-!
# What a repository does on a server

Loading gives the fold of the stream, and a save that goes through was made at the version of the
stream. Whatever a repository is asked, the log of its server moves by appends and deletions only.
-/

namespace EventSourcing

theorem Expectation.matches_ofVersion {version n : Nat} :
    (ofVersion version).Matches n ↔ n = version := by
  cases version <;> rfl

/-! ## The store -/

namespace Store

variable (s : Server) (stream : String) (events : List EncodedEvent) (expected : Nat)

/-- An append of the store is one of the log, or it fails and the log stays. -/
theorem append_eq (hne : events ≠ []) :
    (∃ version log', s.log.append stream (.ofVersion expected) events s.time =
        .ok (version, log') ∧ (Store.append s stream events expected).1 = .ok version ∧
        (Store.append s stream events expected).2.log = log') ∨
    ((∃ e, (Store.append s stream events expected).1 = .error e) ∧
      (Store.append s stream events expected).2.log = s.log) := by
  unfold Store.append
  rw [if_neg hne]
  simp only [LogClient.append, Server.append, Server.time_calls]
  cases ha : s.log.append stream (.ofVersion expected) events s.time with
  | ok x =>
      obtain ⟨version, log'⟩ := x
      exact .inl ⟨version, log', rfl, rfl, rfl⟩
  | error e =>
      right
      cases e with
      | wrongExpectedVersion _ _ reported =>
          cases reported with
          | some actual => exact ⟨⟨_, rfl⟩, rfl⟩
          | none =>
              simp only [conflictVersion, version, answer, LogClient.version?, Server.version?]
              cases s.log.version? stream with
              | ok version => exact ⟨⟨_, rfl⟩, rfl⟩
              | error e => exact ⟨⟨_, rfl⟩, rfl⟩
      | _ => exact ⟨⟨_, rfl⟩, rfl⟩

/-- What an append makes of a server. The version that is read in addition leaves it alone. -/
theorem append_server : (Store.append s stream events expected).2 =
    if events = [] then s else (s.append stream (.ofVersion expected) events).2 := by
  unfold Store.append
  by_cases hne : events = []
  · rw [if_pos hne, if_pos hne]
  · rw [if_neg hne, if_neg hne]
    simp only [LogClient.append]
    cases s.append stream (.ofVersion expected) events with
    | mk result server =>
        cases result with
        | ok version => rfl
        | error e =>
            cases e with
            | wrongExpectedVersion _ _ reported =>
                cases reported with
                | some actual => rfl
                | none =>
                    simp only [conflictVersion, version, answer, LogClient.version?,
                      Server.version?]
                    cases server.log.version? stream <;> rfl
            | _ => rfl

theorem append_becomes : s.Becomes (Store.append s stream events expected).2 := by
  rw [append_server]
  split
  · exact .refl s
  · exact .serve s (.call (.append stream (.ofVersion expected) events))

theorem delete_becomes : s.Becomes (Store.delete s stream).2 :=
  .serve s (.call (.tombstone stream))

end Store

namespace Repository

variable {A E : Type} [DomainEvent E] [Aggregate A E]

section Steps

variable (r : Repository A E) (s : Server) (id : String) (root : Root A E)

/-- Loading reads the stream. -/
theorem get_server : (r.get s id).2 = (Store.read s (r.streamOf id) 0).2 := by
  unfold get
  split <;> rename_i h
  · rw [h]
  · rw [h]
  · rw [h]
    split <;> rfl

theorem get_log : (r.get s id).2.log = s.log := by
  rw [get_server]
  rfl

/-- A root that was loaded has its id and nothing pending. -/
theorem exists_loaded_of_get {root : Root A E} (h : (r.get s id).1 = .ok root) :
    ∃ version state, root = .loaded id version state := by
  unfold get at h
  split at h
  · cases h
  · cases h
  · split at h
    · cases h
    · exact ⟨_, _, (Except.ok.inj h).symm⟩

omit [Aggregate A E] in
/-- Saving appends to the stream of the root, or asks nothing. -/
theorem save_server : (r.save s root).2.2 = s ∨ ∃ events,
    (r.save s root).2.2 = (Store.append s (r.streamOf root.id) events root.version).2 := by
  unfold save
  split
  · exact .inl rfl
  · split
    · exact .inl rfl
    · rename_i events _
      refine .inr ⟨events, ?_⟩
      split <;> rename_i ha <;> rw [ha]

/-- Removing asks nothing, or only loads, or saves what it has loaded, or deletes the stream. -/
theorem remove_server : (r.remove s id).2 = s ∨ (r.remove s id).2 = (r.get s id).2 ∨
    (∃ root : Root A E, root.id = id ∧ (r.remove s id).2 = (r.save (r.get s id).2 root).2.2) ∨
    (r.remove s id).2 = (Store.delete s (r.streamOf id)).2 := by
  unfold remove
  split
  · exact .inl rfl
  · unfold removeSoft
    split <;> rename_i h
    · exact .inr (.inl (by rw [h]))
    · split
      · exact .inr (.inl (by rw [h]))
      · obtain ⟨version, state, rfl⟩ := r.exists_loaded_of_get s id (congrArg Prod.fst h)
        exact .inr (.inr (.inl ⟨_, rfl, by rw [h]⟩))
  · unfold removeHard
    split <;> rename_i h <;> exact .inr (.inr (.inr (by rw [h])))

theorem get_becomes : s.Becomes (r.get s id).2 := by
  rw [get_server]
  exact .serve s (.call (.read (r.streamOf id) 0))

omit [Aggregate A E] in
theorem save_becomes : s.Becomes (r.save s root).2.2 := by
  rcases r.save_server s root with h | ⟨events, h⟩
  · rw [h]
    exact .refl s
  · rw [h]
    exact Store.append_becomes ..

theorem remove_becomes : s.Becomes (r.remove s id).2 := by
  rcases r.remove_server s id with h | h | ⟨root, -, h⟩ | h <;> rw [h]
  · exact .refl s
  · exact r.get_becomes s id
  · exact (r.get_becomes s id).trans (r.save_becomes _ root)
  · exact Store.delete_becomes ..

omit [Aggregate A E] in
theorem save_before : s.log.Before (r.save s root).2.2.log := (r.save_becomes s root).before

theorem remove_before : s.log.Before (r.remove s id).2.log := (r.remove_becomes s id).before

end Steps

/-! ## Loading -/

section Loading

theorem versionOf?_eq {records : List StoredRecord}
    (h : records.map (·.position) = List.range records.length) :
    versionOf? records = if records = [] then none else some records.length := by
  have hv : versionOf? records = (records.map (·.position)).getLast?.map (· + 1) := by
    rw [versionOf?, List.getLast?_map, Option.map_map]
    rfl
  rw [hv, h, List.getLast?_range]
  cases records <;> rfl

variable (r : Repository A E) {s : Server} {id : String}

/-- A stream that was deleted cannot be found. -/
theorem get_of_deleted (hd : r.streamOf id ∈ s.log.deleted) :
    (r.get s id).1 = .error (.notFound (r.streamOf id)) := by
  have hread : (Store.read s (r.streamOf id) 0).1 = .error (.streamDeleted (r.streamOf id)) := by
    simp only [Store.read, Store.answer, LogClient.read, Server.read, Log.read, if_pos hd]
    rfl
  unfold get
  split <;> rename_i hr <;> rw [hr] at hread
  · rename_i hother
    exact absurd (Except.error.inj hread) (hother _)
  · cases hread

theorem notMem_deleted_of_get {root : Root A E} (h : (r.get s id).1 = .ok root) :
    r.streamOf id ∉ s.log.deleted := by
  intro hd
  rw [r.get_of_deleted hd] at h
  cases h

variable (hc : s.log.Coherent) (hx : IsPlainName (r.streamOf id))

include hc hx

/-- What loading gives as long as the stream is not deleted. -/
theorem get_fst (hd : r.streamOf id ∉ s.log.deleted) : (r.get s id).1 =
    if s.log.recordsOf (r.streamOf id) = [] then .error (.notFound (r.streamOf id))
    else .ok (.loaded id (s.log.recordsOf (r.streamOf id)).length
      (replay (decodeAll (s.log.recordsOf (r.streamOf id))))) := by
  have hread : (Store.read s (r.streamOf id) 0).1 = .ok (s.log.recordsOf (r.streamOf id)) := by
    simp only [Store.read, Store.answer, LogClient.read, Server.read, hc.read_records hx hd]
    simp [Except.mapError]
  unfold get
  split <;> rename_i h <;> rw [h] at hread
  · cases hread
  · cases hread
  · obtain rfl := Except.ok.inj hread
    rw [versionOf?_eq (hc.position_recordsOf hx)]
    by_cases hnil : s.log.recordsOf (r.streamOf id) = []
    · simp only [if_pos hnil]
    · simp only [if_neg hnil]

/-- A root that was loaded is the fold of a stream that is not deleted. -/
theorem get_eq_ok {root : Root A E} (h : (r.get s id).1 = .ok root) :
    root = .loaded id (s.log.recordsOf (r.streamOf id)).length
      (replay (decodeAll (s.log.recordsOf (r.streamOf id)))) := by
  rw [r.get_fst hc hx (r.notMem_deleted_of_get h)] at h
  split at h
  · cases h
  · exact (Except.ok.inj h).symm

/-- Only a stream with records can be loaded. -/
theorem recordsOf_ne_nil_of_get {root : Root A E} (h : (r.get s id).1 = .ok root) :
    s.log.recordsOf (r.streamOf id) ≠ [] := by
  intro hnil
  rw [r.get_fst hc hx (r.notMem_deleted_of_get h), if_pos hnil] at h
  cases h

end Loading

/-! ## Saving -/

section Saving

variable (r : Repository A E) {s s' : Server} {root root' : Root A E}

omit [Aggregate A E] in
/-- A save that goes through appends the encoded events at the version of the root. -/
theorem save_eq_ok (hp : root.pending ≠ []) (h : r.save s root = (.ok (), root', s')) :
    ∃ events version, events ≠ [] ∧ r.encodePending root = .ok events ∧
      s.log.append (r.streamOf root.id) (.ofVersion root.version) events s.time =
        .ok (version, s'.log) ∧ root' = root.saved version := by
  unfold save at h
  rw [if_neg hp] at h
  split at h
  · cases (Prod.mk.inj h).1
  · rename_i events hevents
    have hne := encodePending_ne_nil hevents hp
    have ha := Store.append_eq s (r.streamOf root.id) events root.version hne
    split at h
    · cases (Prod.mk.inj h).1
    · rename_i version server happ
      rw [happ] at ha
      simp only [Prod.mk.injEq, true_and] at h
      obtain ⟨rfl, rfl⟩ := h
      rcases ha with ⟨version', log', ha, hv, hl⟩ | ⟨⟨e, he⟩, -⟩
      · obtain rfl := Except.ok.inj hv
        exact ⟨events, version, hne, hevents, hl ▸ ha, rfl⟩
      · cases he

omit [Aggregate A E] in
theorem save_eq_error {e : RepositoryError} (h : r.save s root = (.error e, root', s')) :
    root' = root := by
  unfold save at h
  repeat' split at h
  all_goals simp only [Prod.mk.injEq] at h
  all_goals first
    | exact h.2.1.symm
    | cases h.1

omit [Aggregate A E] in
theorem save_of_nil (hp : root.pending = []) (h : r.save s root = (.ok (), root', s')) :
    root = root' ∧ s = s' := by
  unfold save at h
  rw [if_pos hp] at h
  simpa using h

end Saving

end Repository

end EventSourcing
