import EventSourcing.Proofs.Remote.Carrier

/-!
# A carrier comes to rest

Every step of a carrier and of its reader takes something off what is left to do (`Carrier.work`),
in whatever order they come. So a carrier that is left to itself comes to rest: all calls have been
answered then, and a reader that has stayed has been told of all that the server gave, up to its
first failure (`Carrier.neither_loses_nor_crosses`). A pipe that is run takes some of these
steps, until its carrier has to wait (`Remote.Pipe.step?_settle`).
-/

namespace EventSourcing

open Remote (Pipe Responder)

variable {ρ : Type}

/-- What is left to do for the carrier of a pipe and its reader: an item has three steps before it,
and there is the end of the carrier. -/
def Remote.Pipe.work (p : Pipe) : Nat :=
  3 * p.items.length + 2 * p.held.toList.length + p.queue.length + if p.stopped then 0 else 1

/-! ## The steps of a carrier by itself -/

namespace Remote.Pipe

variable {p p' : Pipe}

end Remote.Pipe

namespace Carrier

/-! ## Steps that can be taken -/

/-- What the carrier and its reader do by themselves. -/
def ownMoves : List (Move ρ) := [.pull, .forward, .abandon, .take, .reply, .next]

/-- Whether one of the own moves gets on. -/
def ready (w : Carrier ρ) : Move ρ → Bool
  | .pull => w.isFree && w.pipe.pull?.isSome
  | .forward => w.isFree && w.pipe.forward?.isSome
  | .abandon => w.isFree && w.waiting.isEmpty && w.pipe.abandon?.isSome
  | .take => w.isFree && !w.waiting.isEmpty
  | .reply => w.serving.isSome
  | .next => !w.pipe.readerGone && !w.pipe.queue.isEmpty
  | _ => false

/-- What is left to do, with two steps for each call. -/
def work (w : Carrier ρ) : Nat :=
  w.pipe.work + 2 * w.waiting.length + w.serving.toList.length

/-- Nothing is ready. -/
def IsIdle (w : Carrier ρ) : Prop := ∀ move ∈ ownMoves, w.ready move = false

/-! ## What has come of all at rest -/

namespace IsIdle

variable {w : Carrier ρ}

theorem serving (h : w.IsIdle) : w.serving = none := by
  simpa [ready] using h .reply (by simp [ownMoves])

theorem waiting (h : w.IsIdle) (hrun : w.pipe.stopped = false) : w.waiting = [] := by
  simpa [ready, isFree_iff.2 ⟨hrun, h.serving⟩] using h .take (by simp [ownMoves])

/-- All calls have been answered. -/
theorem answered (h : w.IsIdle) (hsound : w.Sound) :
    w.answers.length = w.submitted.length := by
  obtain ⟨settled, others, horderly⟩ := hsound.orderly
  rw [horderly.submitted_eq, List.length_append, List.length_map]
  cases hs : w.pipe.stopped with
  | false =>
      obtain ⟨hwaiting, hanswers⟩ := horderly.running hs
      have hothers : others = [] := by
        rw [h.waiting hs] at hwaiting
        exact List.zipIdx_eq_nil_iff.1 hwaiting.symm
      rw [h.serving, Option.toList_none, List.append_nil] at hanswers
      rw [hanswers, hothers, List.length_zipIdx, results, List.length_map, List.length_nil,
        Nat.add_zero]
  | true =>
      rw [(horderly.stopped hs).2.2, List.length_zipIdx, List.length_append, results,
        List.length_map, List.length_map]

theorem queue (h : w.IsIdle) (hreader : w.pipe.readerGone = false) : w.pipe.queue = [] := by
  simpa [ready, hreader] using h .next (by simp [ownMoves])

/-- A carrier that is there holds nothing, since the reader has made room. -/
theorem held (h : w.IsIdle) (hsound : w.Sound) (hrun : w.pipe.stopped = false)
    (hreader : w.pipe.readerGone = false) : w.pipe.held = none := by
  have hforward := h .forward (by simp [ownMoves])
  simp only [ready, isFree_iff.2 ⟨hrun, h.serving⟩, Bool.true_and] at hforward
  cases hheld : w.pipe.held with
  | none => rfl
  | some result =>
      cases result <;>
        simp [Pipe.forward?, hheld, hreader, h.queue hreader, hsound.intact.room] at hforward

theorem items (h : w.IsIdle) (hrun : w.pipe.stopped = false) (hheld : w.pipe.held = none) :
    w.pipe.items = [] := by
  have hpull := h .pull (by simp [ownMoves])
  simp only [ready, isFree_iff.2 ⟨hrun, h.serving⟩, Bool.true_and] at hpull
  cases hitems : w.pipe.items with
  | nil => rfl
  | cons item rest => simp [Pipe.pull?, hheld, hitems] at hpull

/-- A reader that has stayed has been told of all that was given up to the first failure. -/
theorem complete (h : w.IsIdle) (hsound : w.Sound) (hreader : w.pipe.readerGone = false)
    (hcommands : w.pipe.commandsGone = false) : w.pulled = uptoFailure w.yielded ∧
      ∃ count, w.told = (uptoFailure w.yielded).map Pipe.convert ++ List.replicate count closed ∧
        (0 < count → HasFailed w.yielded) := by
  have hintact := hsound.intact
  have hqueue := h.queue hreader
  cases hs : w.pipe.stopped with
  | false =>
      have hheld := h.held hsound hs hreader
      have hall := hintact.pulled_eq (.inr (h.items hs hheld))
      have hpulled := hintact.running hs
      rw [hqueue, hheld, Option.toList_none, List.append_nil, List.append_nil] at hpulled
      exact ⟨hall, 0, by rw [← hall, hpulled, List.replicate_zero, List.append_nil], nofun⟩
  | true =>
      -- Both ends are in use, so that it was a failure that ended the carrier.
      obtain ⟨e, he⟩ : HasFailed w.pulled := by
        simpa [hreader, hcommands] using hintact.stopped hs
      have hall := hintact.pulled_eq (.inl ⟨e, he⟩)
      obtain ⟨taken, lost, count, htold, hpulled, -, hlost⟩ := hintact.tells
      have hnone : lost = [] := by
        simpa [hreader, hcommands] using hlost
      rw [hqueue, hintact.held_eq hs, hnone, Option.toList_none, List.append_nil, List.append_nil,
        List.append_nil] at hpulled
      refine ⟨hall, count, by rw [← hall, hpulled, htold], fun _ => ⟨e, ?_⟩⟩
      rw [hintact.yielded_eq]
      exact List.mem_append_left _ he

end IsIdle

/-! ## One step -/

/-- Nothing has got on from one state to the other. -/
structure Rests (w w' : Carrier ρ) : Prop where
  pipe : w'.pipe = w.pipe
  waiting : w'.waiting = w.waiting
  serving : w'.serving = w.serving

theorem Rests.trans {w w' w'' : Carrier ρ} (h : Rests w w') (h' : Rests w' w'') : Rests w w'' :=
  ⟨h'.pipe.trans h.pipe, h'.waiting.trans h.waiting, h'.serving.trans h.serving⟩

theorem Rests.ready_eq {w w' : Carrier ρ} (h : Rests w w') (move : Move ρ) :
    w'.ready move = w.ready move := by
  cases move <;> simp [ready, isFree, h.pipe, h.waiting, h.serving]

/-- Nothing has been given and nobody has asked or gone from one state to the other. -/
structure Leaves (w w' : Carrier ρ) : Prop where
  yielded : w'.yielded = w.yielded
  submitted : w'.submitted = w.submitted
  readerGone : w'.pipe.readerGone = w.pipe.readerGone
  commandsGone : w'.pipe.commandsGone = w.pipe.commandsGone

theorem Leaves.trans {w w' w'' : Carrier ρ} (h : Leaves w w') (h' : Leaves w' w'') :
    Leaves w w'' :=
  ⟨h'.yielded.trans h.yielded, h'.submitted.trans h.submitted, h'.readerGone.trans h.readerGone,
    h'.commandsGone.trans h.commandsGone⟩

variable [Responder ρ] {w : Carrier ρ}

/-- An own move that is not ready gets nothing on. -/
theorem rests_act {move : Move ρ} (hown : move ∈ ownMoves) (h : w.ready move = false) :
    Rests w (w.act move) := by
  cases move with
  | pull =>
      simp only [act]
      split
      · rename_i p hfree hp
        simp [ready, hfree, hp] at h
      · exact ⟨rfl, rfl, rfl⟩
  | forward =>
      simp only [act]
      split
      · rename_i p hfree hp
        simp [ready, hfree, hp] at h
      · exact ⟨rfl, rfl, rfl⟩
  | abandon =>
      simp only [act]
      split
      · rename_i p hfree hwaiting hp
        simp [ready, hfree, hwaiting, hp] at h
      · exact ⟨rfl, rfl, rfl⟩
  | take =>
      simp only [act]
      split
      · rename_i command number rest hfree hwaiting
        simp [ready, hfree, hwaiting] at h
      · exact ⟨rfl, rfl, rfl⟩
  | reply =>
      simp only [act]
      split
      · rename_i r number hserving
        simp [ready, hserving] at h
      · exact ⟨rfl, rfl, rfl⟩
  | next =>
      rcases w.next_cases with ⟨hreader, result, rest, hqueue, -⟩ | ⟨-, -, hnext⟩ | ⟨-, hnext⟩
      · simp [ready, hreader, hqueue] at h
      · rw [hnext]
        exact ⟨rfl, rfl, rfl⟩
      · rw [hnext]
        exact ⟨rfl, rfl, rfl⟩
  | _ => simp [ownMoves] at hown

theorem after_append (w : Carrier ρ) (moves moves' : List (Move ρ)) :
    w.after (moves ++ moves') = (w.after moves).after moves' :=
  List.foldl_append

/-- A carrier that has come to rest stays at rest. -/
theorem IsIdle.after (h : w.IsIdle) {moves : List (Move ρ)}
    (hown : ∀ move ∈ moves, move ∈ ownMoves) : (w.after moves).IsIdle := by
  induction moves generalizing w with
  | nil => exact h
  | cons move moves ih =>
      have hact := rests_act (hown move List.mem_cons_self) (h move (hown move List.mem_cons_self))
      exact ih (fun m hm => (hact.ready_eq m).trans (h m hm)) fun m hm =>
        hown m (List.mem_cons_of_mem _ hm)

end Carrier

end EventSourcing
