import EventSourcing.Remote.Client
import EventSourcing.Remote.Pipe

/-!
# The carrier of a group's reader

A carrier stands between a subscription on the server, the reader of its records and those who
settle them. It does one thing at a time, in any order: it takes an item, puts what it holds into
the queue, or passes a call on to the server. What goes in comes out in order and once
(`Carrier.Sound`).
-/

namespace EventSourcing

open Remote (Call Client Command Item Pipe Responder ServerError memberError)

variable {ρ : Type}

/-! ## What the server was asked -/

/-- A server that remembers what it was asked, and what it has replied. -/
structure Recorder (ρ : Type) where
  responder : ρ
  exchanges : List (Call × Except ServerError Remote.Reply) := []

instance [Responder ρ] : Responder (Recorder ρ) where
  request r call :=
    let (reply, responder) := Responder.request r.responder call
    (reply, ⟨responder, r.exchanges ++ [(call, reply)]⟩)

/-- What a call comes to that has got this reply. -/
def resultOf : Except ServerError Remote.Reply → Except LogError Unit
  | .ok _ => .ok ()
  | .error e => .error (memberError e)

theorem settle_eq [Responder ρ] (c : Client (Recorder ρ)) (command : Command) :
    ∃ reply, (c.settle command).1 = resultOf reply ∧ (c.settle command).2.responder.exchanges =
      c.responder.exchanges ++ [(.settle command, reply)] := by
  refine ⟨(Responder.request c.responder.responder (.settle command)).1, ?_⟩
  simp only [Client.settle, Client.request, Responder.request]
  split <;> rename_i h <;> obtain ⟨hreply, rfl⟩ := Prod.mk.inj h <;>
    exact ⟨by rw [hreply]; rfl, rfl⟩

/-! ## Runs -/

/-- A carrier with its pipe and the calls that are made of it, by number, and all that has happened
so far. -/
structure Carrier (ρ : Type) where
  client : Client (Recorder ρ)
  pipe : Pipe
  /-- The calls that the carrier has not taken. -/
  waiting : List (Command × Nat) := []
  /-- The call that the carrier is about to answer. -/
  serving : Option (Except LogError Unit × Nat) := none
  /-- What the server has given. -/
  yielded : List Item := []
  /-- What the carrier has taken. -/
  pulled : List Item := []
  /-- What the reader was told. -/
  told : List (Except LogError Delivery) := []
  /-- The calls that were made. -/
  submitted : List Command := []
  /-- What the calls came to. -/
  answers : List (Except LogError Unit × Nat) := []

/-- What happens next. -/
inductive Carrier.Move (ρ : Type)
  | yield (items : List Item)
  /-- The carrier takes an item. -/
  | pull
  /-- The carrier gets rid of what it holds. -/
  | forward
  /-- The carrier notices that no call will come any more. -/
  | abandon
  /-- The carrier passes a call on to the server. -/
  | take
  /-- The carrier tells what a call has come to. -/
  | reply
  /-- The reader asks for a record. -/
  | next
  | dropReader
  | submit (command : Command)
  | dropCommands
  /-- Others do something with the server. -/
  | turn (responder : ρ)

namespace Carrier

def start (responder : ρ) (bufferSize : Nat) : Carrier ρ where
  client := ⟨{ responder := responder }⟩
  pipe := .start bufferSize []

/-- Whether the carrier is there and does nothing else. -/
def isFree (w : Carrier ρ) : Bool := !w.pipe.stopped && w.serving.isNone

theorem isFree_iff {w : Carrier ρ} :
    w.isFree = true ↔ w.pipe.stopped = false ∧ w.serving = none := by
  simp [isFree]

/-- The carrier goes on with its pipe, or ends and leaves the waiting calls alone. -/
def moveTo (w : Carrier ρ) (p : Pipe) : Carrier ρ :=
  if p.stopped then
    { w with
      pipe := p
      waiting := []
      answers := w.answers ++ w.waiting.map fun call => (Pipe.commandResult true none, call.2) }
  else { w with pipe := p }

def act [Responder ρ] (w : Carrier ρ) : Move ρ → Carrier ρ
  | .yield items =>
    { w with
      pipe := { w.pipe with items := w.pipe.items ++ items }
      yielded := w.yielded ++ items }
  | .pull =>
    match w.isFree, w.pipe.pull? with
    | true, some p => { w with pipe := p, pulled := w.pulled ++ w.pipe.items.take 1 }
    | _, _ => w
  | .forward =>
    match w.isFree, w.pipe.forward? with
    | true, some p => w.moveTo p
    | _, _ => w
  | .abandon =>
    match w.isFree, w.waiting, w.pipe.abandon? with
    | true, [], some p => w.moveTo p
    | _, _, _ => w
  | .take =>
    match w.isFree, w.waiting with
    | true, (command, number) :: rest =>
      let (r, client) := w.client.settle command
      { w with client := client, waiting := rest, serving := some (r, number) }
    | _, _ => w
  | .reply =>
    match w.serving with
    | some (r, number) =>
      { w with
        serving := none
        answers := w.answers ++ [(Pipe.commandResult true (some r), number)] }
    | none => w
  | .next =>
    if w.pipe.readerGone then w
    else
      match w.pipe.next with
      | (.delivery d, p) => { w with pipe := p, told := w.told ++ [.ok d] }
      | (.failed e, p) => { w with pipe := p, told := w.told ++ [.error e] }
      | (_, p) => { w with pipe := p }
  | .dropReader => { w with pipe := { w.pipe with readerGone := true } }
  | .submit command =>
    let number := w.submitted.length
    let w' := { w with submitted := w.submitted ++ [command] }
    if w.pipe.commandsGone then w
    else if w.pipe.stopped then
      { w' with answers := w.answers ++ [(Pipe.commandResult false none, number)] }
    else { w' with waiting := w.waiting ++ [(command, number)] }
  | .dropCommands => { w with pipe := { w.pipe with commandsGone := true } }
  | .turn responder => { w with client := ⟨{ w.client.responder with responder := responder }⟩ }

def after [Responder ρ] (w : Carrier ρ) (moves : List (Move ρ)) : Carrier ρ := moves.foldl act w

end Carrier

/-! ## Pipes -/

namespace Remote.Pipe

variable {p p' : Pipe}

theorem pull?_eq_some (h : p.pull? = some p') : p.held = none ∧ ∃ item rest,
    p.items = item :: rest ∧ p' = { p with items := rest, held := some (convert item) } := by
  unfold pull? at h
  split at h
  · exact ⟨‹_›, _, _, ‹_›, (Option.some.inj h).symm⟩
  · cases h

/-- What the carrier gets rid of goes into the queue, unless the reader is gone. A failure ends the
carrier. -/
theorem forward?_eq_some (h : p.forward? = some p') : ∃ result, p.held = some result ∧
    ((p.readerGone = true ∧ p' = p.stop) ∨
    (∃ d, result = .ok d ∧ p' = { p with held := none, queue := p.queue ++ [result] }) ∨
    ∃ e, result = .error e ∧ p' = { p with queue := p.queue ++ [result] }.stop) := by
  unfold forward? at h
  cases hheld : p.held with
  | none => simp [hheld] at h
  | some result =>
      refine ⟨result, rfl, ?_⟩
      simp only [hheld] at h
      split at h
      · exact .inl ⟨‹_›, (Option.some.inj h).symm⟩
      · split at h
        · cases result with
          | ok d => exact .inr (.inl ⟨d, rfl, (Option.some.inj h).symm⟩)
          | error e => exact .inr (.inr ⟨e, rfl, (Option.some.inj h).symm⟩)
        · cases h

theorem abandon?_eq_some (h : p.abandon? = some p') : p.commandsGone = true ∧ p' = p.stop := by
  unfold abandon? at h
  split at h
  · exact ⟨‹_›, (Option.some.inj h).symm⟩
  · cases h

end Remote.Pipe

namespace Carrier

/-! ## What the reader is told -/

/-- What the reader is told once all is over. -/
def closed : Except LogError Delivery := .error Pipe.closedError

/-- Items up to the first failure. -/
def uptoFailure : List Item → List Item
  | [] => []
  | .ok slot :: items => .ok slot :: uptoFailure items
  | .error e :: _ => [.error e]

/-- There is a failure among items. -/
def HasFailed (items : List Item) : Prop := ∃ e, .error e ∈ items

theorem uptoFailure_append_of_fine {pulled : List Item} (hfine : ¬ HasFailed pulled)
    (items : List Item) : uptoFailure (pulled ++ items) = pulled ++ uptoFailure items := by
  induction pulled with
  | nil => rfl
  | cons item pulled ih =>
      cases item with
      | ok slot =>
          have hrest : ¬ HasFailed pulled := fun ⟨e, he⟩ => hfine ⟨e, List.mem_cons_of_mem _ he⟩
          rw [List.cons_append, uptoFailure, ih hrest, List.cons_append]
      | error e => exact absurd ⟨e, List.mem_cons_self⟩ hfine

theorem uptoFailure_append_of_failed {pulled : List Item} (hfailed : HasFailed pulled)
    (items : List Item) : uptoFailure (pulled ++ items) = uptoFailure pulled := by
  obtain ⟨e, he⟩ := hfailed
  induction pulled with
  | nil => cases he
  | cons item pulled ih =>
      cases item with
      | ok slot =>
          have hrest : .error e ∈ pulled := (List.mem_cons.1 he).resolve_left nofun
          rw [List.cons_append, uptoFailure, uptoFailure, ih hrest]
      | error e => rfl

/-- The reader was told what was taken, without what is on its way or was lost, and from then on
only that all is over. -/
def Tells (pulled : List Item) (told : List (Except LogError Delivery)) (p : Pipe) : Prop :=
  ∃ taken lost count, told = taken ++ List.replicate count closed ∧
    pulled.map Pipe.convert = taken ++ p.queue ++ p.held.toList ++ lost ∧
    (0 < count → p.stopped = true ∧ p.queue = []) ∧
    (lost ≠ [] → p.stopped = true ∧ (p.readerGone = true ∨ p.commandsGone = true))

/-- The carrier has taken what was given in order, and nothing behind a failure, and the reader was
told that. -/
structure Intact (yielded pulled : List Item) (told : List (Except LogError Delivery)) (p : Pipe) :
    Prop where
  room : 0 < p.capacity
  yielded_eq : yielded = pulled ++ p.items
  uptoFailure_eq : uptoFailure pulled = pulled
  /-- A failure is what the carrier holds, or it has ended. -/
  failed : HasFailed pulled → p.stopped = true ∨ ∃ e, p.held = some (.error e)
  held_eq : p.stopped = true → p.held = none
  stopped : p.stopped = true →
    HasFailed pulled ∨ p.readerGone = true ∨ p.commandsGone = true
  tells : Tells pulled told p

namespace Intact

variable {yielded pulled : List Item} {told : List (Except LogError Delivery)} {p p' : Pipe}

theorem pulled_eq (h : Intact yielded pulled told p) (hover : HasFailed pulled ∨ p.items = []) :
    pulled = uptoFailure yielded := by
  rw [h.yielded_eq]
  by_cases hfailed : HasFailed pulled
  · rw [uptoFailure_append_of_failed hfailed, h.uptoFailure_eq]
  · rw [hover.resolve_left hfailed, uptoFailure_append_of_fine hfailed, uptoFailure,
      List.append_nil]

theorem yield (h : Intact yielded pulled told p) (items : List Item) :
    Intact (yielded ++ items) pulled told { p with items := p.items ++ items } where
  room := h.room
  yielded_eq := by rw [h.yielded_eq, List.append_assoc]
  uptoFailure_eq := h.uptoFailure_eq
  failed := h.failed
  held_eq := h.held_eq
  stopped := h.stopped
  tells := h.tells

/-- While the carrier is there, nothing is lost and the reader is not told that all is over. -/
theorem running (h : Intact yielded pulled told p) (hrun : p.stopped = false) :
    pulled.map Pipe.convert = told ++ p.queue ++ p.held.toList := by
  obtain ⟨taken, lost, count, rfl, hpulled, hclosed, hlost⟩ := h.tells
  have hcount : count = 0 := by
    cases count with
    | zero => rfl
    | succ count => simp [hrun] at hclosed
  have hnone : lost = [] := by
    cases lost with
    | nil => rfl
    | cons result lost => simp [hrun] at hlost
  rw [hpulled, hcount, hnone, List.replicate_zero, List.append_nil, List.append_nil]

/-- While nothing is lost and the reader is not told that all is over, all is as it should be. -/
theorem tells_of_map_eq
    (hpulled : pulled.map Pipe.convert = told ++ p.queue ++ p.held.toList) : Tells pulled told p :=
  ⟨told, [], 0, (List.append_nil _).symm, by rw [hpulled, List.append_nil], nofun, nofun⟩

/-- The carrier takes an item only as long as there has been no failure. -/
theorem pull (h : Intact yielded pulled told p) (hrun : p.stopped = false)
    (hp : p.pull? = some p') : Intact yielded (pulled ++ p.items.take 1) told p' := by
  obtain ⟨hheld, item, rest, hitems, rfl⟩ := Pipe.pull?_eq_some hp
  -- A failure would still be in the hands of the carrier, which has them free.
  have hfine : ¬ HasFailed pulled := by
    intro hfailed
    rcases h.failed hfailed with hs | ⟨e, he⟩
    · exact absurd (hs.symm.trans hrun) (by simp)
    · rw [hheld] at he
      cases he
  have hpulled := h.running hrun
  rw [hitems]
  refine ⟨h.room, ?_, ?_, fun hfailed => .inr ?_,
    fun hs => absurd (hs.symm.trans hrun) (by simp),
    fun hs => absurd (hs.symm.trans hrun) (by simp), tells_of_map_eq ?_⟩
  · rw [h.yielded_eq, hitems]
    simp
  · rw [uptoFailure_append_of_fine hfine]
    cases item <;> rfl
  · obtain ⟨e, he⟩ := hfailed
    rcases List.mem_append.1 he with he | he
    · exact absurd ⟨e, he⟩ hfine
    · obtain rfl := List.mem_singleton.1 he
      exact ⟨_, rfl⟩
  · rw [List.map_append, hpulled, hheld]
    simp

/-- The carrier comes to its end; what it holds is lost. -/
theorem stop (h : Intact yielded pulled told p)
    (hgone : p.readerGone = true ∨ p.commandsGone = true) :
    Intact yielded pulled told p.stop where
  room := h.room
  yielded_eq := h.yielded_eq
  uptoFailure_eq := h.uptoFailure_eq
  failed _ := .inl rfl
  held_eq _ := rfl
  stopped _ := .inr hgone
  tells := by
    obtain ⟨taken, lost, count, htold, hpulled, hclosed, hlost⟩ := h.tells
    refine ⟨taken, p.held.toList ++ lost, count, htold, ?_, fun hcount => ?_, fun _ => ⟨rfl, hgone⟩⟩
    · rw [hpulled]
      simp [Pipe.stop]
    · exact ⟨rfl, (hclosed hcount).2⟩

theorem forward (h : Intact yielded pulled told p) (hrun : p.stopped = false)
    (hp : p.forward? = some p') : Intact yielded pulled told p' := by
  obtain ⟨result, hheld, hcases⟩ := Pipe.forward?_eq_some hp
  have hpulled : pulled.map Pipe.convert = told ++ (p.queue ++ [result]) ++ [] := by
    rw [h.running hrun, hheld]
    simp
  rcases hcases with ⟨hgone, rfl⟩ | ⟨d, rfl, rfl⟩ | ⟨e, rfl, rfl⟩
  · exact h.stop (.inl hgone)
  · refine ⟨h.room, h.yielded_eq, h.uptoFailure_eq, fun hfailed => ?_, fun hs => rfl, h.stopped,
      tells_of_map_eq hpulled⟩
    rcases h.failed hfailed with hs | ⟨e, he⟩
    · exact .inl hs
    · rw [hheld] at he
      cases he
  · refine ⟨h.room, h.yielded_eq, h.uptoFailure_eq, fun _ => .inl rfl, fun _ => rfl,
      fun _ => .inl ?_, tells_of_map_eq hpulled⟩
    have hin : .error e ∈ pulled.map Pipe.convert := by
      rw [hpulled]
      simp
    obtain ⟨item, hitem, hconvert⟩ := List.mem_map.1 hin
    cases item with
    | ok slot => cases hconvert
    | error failure => exact ⟨failure, hitem⟩

/-- The reader takes what is first in the queue, or is told that all is over. -/
theorem next (h : Intact yielded pulled told p) :
    (∀ result rest, p.queue = result :: rest →
      Intact yielded pulled (told ++ [result]) { p with queue := rest }) ∧
    (p.queue = [] → p.stopped = true → Intact yielded pulled (told ++ [closed]) p) := by
  obtain ⟨taken, lost, count, rfl, hpulled, hclosed, hlost⟩ := h.tells
  refine ⟨fun result rest hqueue => ?_, fun hqueue hs => ?_⟩
  · have hcount : count = 0 := by
      cases count with
      | zero => rfl
      | succ count => simp [hqueue] at hclosed
    rw [hcount, List.replicate_zero, List.append_nil]
    refine ⟨h.room, h.yielded_eq, h.uptoFailure_eq, h.failed, h.held_eq, h.stopped,
      taken ++ [result], lost, 0, (List.append_nil _).symm, ?_, nofun, hlost⟩
    rw [hpulled, hqueue]
    simp
  · refine ⟨h.room, h.yielded_eq, h.uptoFailure_eq, h.failed, h.held_eq, h.stopped,
      taken, lost, count + 1, ?_, hpulled, fun _ => ⟨hs, hqueue⟩, hlost⟩
    rw [List.replicate_succ', List.append_assoc]

theorem dropReader (h : Intact yielded pulled told p) :
    Intact yielded pulled told { p with readerGone := true } where
  room := h.room
  yielded_eq := h.yielded_eq
  uptoFailure_eq := h.uptoFailure_eq
  failed := h.failed
  held_eq := h.held_eq
  stopped _ := .inr (.inl rfl)
  tells := by
    obtain ⟨taken, lost, count, htold, hpulled, hclosed, hlost⟩ := h.tells
    exact ⟨taken, lost, count, htold, hpulled, hclosed, fun hne => ⟨(hlost hne).1, .inl rfl⟩⟩

theorem dropCommands (h : Intact yielded pulled told p) :
    Intact yielded pulled told { p with commandsGone := true } where
  room := h.room
  yielded_eq := h.yielded_eq
  uptoFailure_eq := h.uptoFailure_eq
  failed := h.failed
  held_eq := h.held_eq
  stopped _ := .inr (.inr rfl)
  tells := by
    obtain ⟨taken, lost, count, htold, hpulled, hclosed, hlost⟩ := h.tells
    exact ⟨taken, lost, count, htold, hpulled, hclosed, fun hne => ⟨(hlost hne).1, .inr rfl⟩⟩

end Intact

/-! ## What calls come to -/

/-- What a call comes to that nobody answers. -/
def unanswered : Except LogError Unit := .error Pipe.closedError

/-- What the calls come to that the server was asked to settle. -/
def results (settled : List (Command × Except ServerError Remote.Reply)) :
    List (Except LogError Unit) :=
  settled.map fun x => resultOf x.2

/-- The calls that the server was asked to settle come first of those that were made, each with its
reply. While the carrier is there the others wait, and once it has ended nobody answers them. -/
structure Orderly (w : Carrier ρ) (settled : List (Command × Except ServerError Remote.Reply))
    (others : List Command) : Prop where
  exchanges_eq : w.client.responder.exchanges = settled.map fun x => (.settle x.1, x.2)
  submitted_eq : w.submitted = settled.map (·.1) ++ others
  running : w.pipe.stopped = false → w.waiting = others.zipIdx settled.length ∧
    w.answers ++ w.serving.toList = (results settled).zipIdx
  stopped : w.pipe.stopped = true → w.waiting = [] ∧ w.serving = none ∧
    w.answers = (results settled ++ others.map fun _ => unanswered).zipIdx

namespace Orderly

variable {w w' : Carrier ρ} {settled : List (Command × Except ServerError Remote.Reply)}
  {others : List Command}

/-- What only changes the way of the records does not matter to the calls. -/
theorem congr (h : w.Orderly settled others) (hclient : w'.client.responder.exchanges =
    w.client.responder.exchanges) (hsubmitted : w'.submitted = w.submitted)
    (hstopped : w'.pipe.stopped = w.pipe.stopped) (hwaiting : w'.waiting = w.waiting)
    (hserving : w'.serving = w.serving) (hanswers : w'.answers = w.answers) :
    w'.Orderly settled others where
  exchanges_eq := hclient.trans h.exchanges_eq
  submitted_eq := hsubmitted.trans h.submitted_eq
  running hs := by
    rw [hwaiting, hserving, hanswers]
    exact h.running (hstopped ▸ hs)
  stopped hs := by
    rw [hwaiting, hserving, hanswers]
    exact h.stopped (hstopped ▸ hs)

/-- Nobody answers the calls that the carrier leaves behind. -/
theorem moveTo (h : w.Orderly settled others) (hfree : w.isFree = true) (p : Pipe) :
    (w.moveTo p).Orderly settled others := by
  obtain ⟨hrun, hserving⟩ := isFree_iff.1 hfree
  obtain ⟨hwaiting, hanswers⟩ := h.running hrun
  rw [hserving, Option.toList_none, List.append_nil] at hanswers
  unfold Carrier.moveTo
  split
  · rename_i hp
    refine ⟨h.exchanges_eq, h.submitted_eq, fun hs => absurd (hs.symm.trans hp) (by simp),
      fun _ => ⟨rfl, hserving, ?_⟩⟩
    rw [hanswers, hwaiting, List.zipIdx_append, List.zipIdx_map, results, List.length_map,
      Nat.zero_add]
    rfl
  · rename_i hp
    exact ⟨h.exchanges_eq, h.submitted_eq, fun _ => h.running hrun, fun hs => absurd hs hp⟩

/-- The carrier passes the first call on that waits. -/
theorem take [Responder ρ] (h : w.Orderly settled others) (hfree : w.isFree = true)
    {command : Command} {number : Nat} {rest : List (Command × Nat)}
    (hwaiting : w.waiting = (command, number) :: rest) :
    ∃ settled' others', Orderly
      { w with
        client := (w.client.settle command).2
        waiting := rest
        serving := some ((w.client.settle command).1, number) } settled' others' := by
  obtain ⟨hrun, hserving⟩ := isFree_iff.1 hfree
  obtain ⟨hothers, hanswers⟩ := h.running hrun
  rw [hserving, Option.toList_none, List.append_nil] at hanswers
  obtain ⟨reply, hresult, hexchanges⟩ := settle_eq w.client command
  cases others with
  | nil => rw [hothers] at hwaiting; cases hwaiting
  | cons other others =>
      rw [hothers, List.zipIdx_cons, List.cons.injEq, Prod.mk.injEq] at hwaiting
      obtain ⟨⟨rfl, rfl⟩, rfl⟩ := hwaiting
      refine ⟨settled ++ [(other, reply)], others, ?_, ?_, fun _ => ⟨?_, ?_⟩,
        fun hs => absurd (hs.symm.trans hrun) (by simp)⟩
      · rw [hexchanges, h.exchanges_eq, List.map_append]
        rfl
      · rw [h.submitted_eq, List.map_append, List.append_assoc]
        rfl
      · rw [List.length_append]
        rfl
      · rw [hanswers, hresult, results, results, List.map_append, List.zipIdx_append,
          List.length_map]
        simp

theorem reply (h : w.Orderly settled others) {r : Except LogError Unit} {number : Nat}
    (hserving : w.serving = some (r, number)) :
    Orderly { w with serving := none, answers := w.answers ++ [(r, number)] } settled others where
  exchanges_eq := h.exchanges_eq
  submitted_eq := h.submitted_eq
  running hs := by
    obtain ⟨hwaiting, hanswers⟩ := h.running hs
    refine ⟨hwaiting, ?_⟩
    rw [hserving] at hanswers
    rw [Option.toList_none, List.append_nil]
    exact hanswers
  stopped hs := by
    have hnone := (h.stopped hs).2.1
    rw [hserving] at hnone
    cases hnone

/-- A call that is made waits for the carrier, or nobody answers it. -/
theorem submit (h : w.Orderly settled others) (command : Command) :
    (w.pipe.stopped = true → Orderly
      { w with
        submitted := w.submitted ++ [command]
        answers := w.answers ++ [(unanswered, w.submitted.length)] }
      settled (others ++ [command])) ∧
    (w.pipe.stopped = false → Orderly
      { w with
        submitted := w.submitted ++ [command]
        waiting := w.waiting ++ [(command, w.submitted.length)] }
      settled (others ++ [command])) := by
  have hlength : w.submitted.length = settled.length + others.length := by
    rw [h.submitted_eq, List.length_append, List.length_map]
  have hsubmitted : w.submitted ++ [command] = settled.map (·.1) ++ (others ++ [command]) := by
    rw [h.submitted_eq, List.append_assoc]
  refine ⟨fun hs => ⟨h.exchanges_eq, hsubmitted, fun hrun => absurd (hs.symm.trans hrun) (by simp),
    fun _ => ?_⟩, fun hrun => ⟨h.exchanges_eq, hsubmitted, fun _ => ?_,
      fun hs => absurd (hs.symm.trans hrun) (by simp)⟩⟩
  · obtain ⟨hwaiting, hserving, hanswers⟩ := h.stopped hs
    refine ⟨hwaiting, hserving, ?_⟩
    have hlast : (results settled ++ others.map (fun _ => unanswered) ++ [unanswered]).zipIdx = _ :=
      List.zipIdx_append
    rw [List.length_append, results, List.length_map, List.length_map] at hlast
    rw [hanswers, List.map_append, ← List.append_assoc, hlength]
    refine Eq.trans ?_ hlast.symm
    simp [results]
  · obtain ⟨hwaiting, hanswers⟩ := h.running hrun
    refine ⟨?_, hanswers⟩
    rw [hwaiting, List.zipIdx_append, hlength]
    simp

end Orderly

/-! ## What the reader gets -/

/-- The reader gets what is first in the queue, or is told that all is over, or nothing happens. -/
theorem next_cases [Responder ρ] (w : Carrier ρ) :
    (w.pipe.readerGone = false ∧ ∃ result rest, w.pipe.queue = result :: rest ∧ w.act .next =
      { w with pipe := { w.pipe with queue := rest }, told := w.told ++ [result] }) ∨
    (w.pipe.queue = [] ∧ w.pipe.stopped = true ∧
      w.act .next = { w with told := w.told ++ [closed] }) ∨
    ((w.pipe.readerGone = true ∨ w.pipe.queue = []) ∧ w.act .next = w) := by
  obtain ⟨client, ⟨items, held, queue, capacity, readerGone, commandsGone, stopped⟩, waiting,
    serving, yielded, pulled, told, submitted, answers⟩ := w
  cases readerGone with
  | true => exact .inr (.inr ⟨.inl rfl, rfl⟩)
  | false =>
      cases queue with
      | nil =>
          cases stopped with
          | true => exact .inr (.inl ⟨rfl, rfl, rfl⟩)
          | false => exact .inr (.inr ⟨.inr rfl, rfl⟩)
      | cons result rest => cases result <;> exact .inl ⟨rfl, _, rest, rfl, rfl⟩

/-! ## Runs stay sound -/

structure Sound (w : Carrier ρ) : Prop where
  intact : Intact w.yielded w.pulled w.told w.pipe
  orderly : ∃ settled others, w.Orderly settled others

namespace Sound

variable {w : Carrier ρ}

theorem moveTo (h : w.Sound) (hfree : w.isFree = true) {p : Pipe}
    (hp : Intact w.yielded w.pulled w.told p) : (w.moveTo p).Sound := by
  obtain ⟨settled, others, horderly⟩ := h.orderly
  refine ⟨?_, settled, others, horderly.moveTo hfree p⟩
  unfold Carrier.moveTo
  split <;> exact hp

variable [Responder ρ]

theorem pull (h : w.Sound) : (w.act .pull).Sound := by
  obtain ⟨settled, others, horderly⟩ := h.orderly
  simp only [Carrier.act]
  split
  · rename_i p hfree hp
    obtain ⟨hrun, -⟩ := isFree_iff.1 hfree
    obtain ⟨-, item, rest, -, rfl⟩ := Pipe.pull?_eq_some hp
    exact ⟨h.intact.pull hrun hp, settled, others, horderly.congr rfl rfl rfl rfl rfl rfl⟩
  · exact h

theorem forward (h : w.Sound) : (w.act .forward).Sound := by
  simp only [Carrier.act]
  split
  · rename_i p hfree hp
    exact h.moveTo hfree (h.intact.forward (isFree_iff.1 hfree).1 hp)
  · exact h

theorem abandon (h : w.Sound) : (w.act .abandon).Sound := by
  simp only [Carrier.act]
  split
  · rename_i p hfree _ hp
    obtain ⟨hgone, rfl⟩ := Pipe.abandon?_eq_some hp
    exact h.moveTo hfree (h.intact.stop (.inr hgone))
  · exact h

theorem take (h : w.Sound) : (w.act .take).Sound := by
  obtain ⟨settled, others, horderly⟩ := h.orderly
  simp only [Carrier.act]
  split
  · rename_i command number rest hfree hwaiting
    exact ⟨h.intact, horderly.take hfree hwaiting⟩
  · exact h

theorem reply (h : w.Sound) : (w.act .reply).Sound := by
  obtain ⟨settled, others, horderly⟩ := h.orderly
  simp only [Carrier.act]
  split
  · rename_i r number hserving
    exact ⟨h.intact, settled, others, horderly.reply hserving⟩
  · exact h

theorem next (h : w.Sound) : (w.act .next).Sound := by
  obtain ⟨settled, others, horderly⟩ := h.orderly
  obtain ⟨htaken, hover⟩ := h.intact.next
  rcases w.next_cases with ⟨-, result, rest, hqueue, hnext⟩ | ⟨hqueue, hs, hnext⟩ | ⟨-, hnext⟩
  · rw [hnext]
    exact ⟨htaken result rest hqueue, settled, others, horderly.congr rfl rfl rfl rfl rfl rfl⟩
  · rw [hnext]
    exact ⟨hover hqueue hs, settled, others, horderly.congr rfl rfl rfl rfl rfl rfl⟩
  · rw [hnext]
    exact h

theorem submit (h : w.Sound) (command : Command) : (w.act (.submit command)).Sound := by
  obtain ⟨settled, others, horderly⟩ := h.orderly
  obtain ⟨hover, hwaits⟩ := horderly.submit command
  simp only [Carrier.act]
  split
  · exact h
  · split
    · exact ⟨h.intact, settled, _, hover ‹_›⟩
    · exact ⟨h.intact, settled, _, hwaits (Bool.eq_false_iff.2 ‹_›)⟩

theorem act (h : w.Sound) (move : Move ρ) : (w.act move).Sound := by
  obtain ⟨settled, others, horderly⟩ := h.orderly
  cases move with
  | yield items =>
      exact ⟨h.intact.yield items, settled, others, horderly.congr rfl rfl rfl rfl rfl rfl⟩
  | pull => exact h.pull
  | forward => exact h.forward
  | abandon => exact h.abandon
  | take => exact h.take
  | reply => exact h.reply
  | next => exact h.next
  | dropReader =>
      exact ⟨h.intact.dropReader, settled, others, horderly.congr rfl rfl rfl rfl rfl rfl⟩
  | submit command => exact h.submit command
  | dropCommands =>
      exact ⟨h.intact.dropCommands, settled, others, horderly.congr rfl rfl rfl rfl rfl rfl⟩
  | turn responder =>
      exact ⟨h.intact, settled, others, horderly.congr rfl rfl rfl rfl rfl rfl⟩

theorem after (h : w.Sound) (moves : List (Move ρ)) : (w.after moves).Sound := by
  induction moves generalizing w with
  | nil => exact h
  | cons move moves ih => exact ih (h.act move)

end Sound

theorem sound_start (responder : ρ) (bufferSize : Nat) : (start responder bufferSize).Sound where
  intact := ⟨Nat.le_max_right bufferSize 1, rfl, rfl, fun ⟨_, he⟩ => (List.not_mem_nil he).elim,
    nofun, nofun, Intact.tells_of_map_eq rfl⟩
  orderly := ⟨[], [], rfl, rfl, fun _ => ⟨rfl, rfl⟩, nofun⟩

end Carrier

end EventSourcing
