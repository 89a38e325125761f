import EventSourcing.Proofs.Group.Run
import EventSourcing.Proofs.Log.Projection
import EventSourcing.Proofs.Subscription.Pending
import Mathlib.Algebra.GroupWithZero.Nat

/-!
# Reading through a new group

A member of a new group, which asks and settles nothing, gets what a reader that is opened at the
same position finds, and what a read from this position returns, in the same order. The group looks
for the first entry at its cursor or above each time; since positions go up along the log, it finds
them all, one after the other (`Server.read_paths_agree`).
-/

namespace EventSourcing

/-! ## What a group has not handed out -/

namespace Log

theorem Coherent.placed_ordered {log : Log} (h : log.Coherent) {scope : Scope}
    (hs : scope.IsSteady) : (log.placed scope).Pairwise fun a b => a.1 < b.1 := by
  rw [placed, List.pairwise_filterMap]
  refine (h.entries_ordered hs).imp ?_
  intro e e' hlt a ha b hb
  obtain ⟨p, hp, rfl⟩ := Option.map_eq_some_iff.1 ha
  obtain ⟨p', hp', rfl⟩ := Option.map_eq_some_iff.1 hb
  exact hlt p hp p' hp'

/-- Beyond the first entry from a position on, there are the others. -/
theorem Coherent.entriesFrom_succ {log : Log} (h : log.Coherent) {scope : Scope}
    (hs : scope.IsSteady) {start : Nat} {a : Nat × Entry} {rest : List (Nat × Entry)}
    (ha : log.entriesFrom scope start = a :: rest) : log.entriesFrom scope (a.1 + 1) = rest := by
  rw [entriesFrom_eq] at ha ⊢
  have hordered := (h.placed_ordered hs).filter fun a => start ≤ a.1
  rw [ha, List.pairwise_cons] at hordered
  have hmem : a ∈ (log.placed scope).filter fun a => start ≤ a.1 := ha ▸ List.mem_cons_self
  have hstart : start ≤ a.1 := of_decide_eq_true (List.mem_filter.1 hmem).2
  calc (log.placed scope).filter (fun b => a.1 + 1 ≤ b.1)
    _ = ((log.placed scope).filter fun b => start ≤ b.1).filter fun b => a.1 + 1 ≤ b.1 := by
      rw [List.filter_filter]
      refine List.filter_congr fun b _ => ?_
      by_cases hb : a.1 + 1 ≤ b.1
      · simp [hb, Nat.le_trans hstart (Nat.le_of_succ_le hb)]
      · simp [hb]
    _ = rest := by
      rw [ha, List.filter_cons_of_neg (by simp)]
      exact List.filter_eq_self.2 fun b hb => decide_eq_true (hordered.1 b hb)

/-- The first deliveries of what a scope holds from a position on. -/
def deliveriesFrom (log : Log) (scope : Scope) (start : Nat) : List Delivery :=
  (log.entriesFrom scope start).map fun a => .first a.1 a.2.record

end Log

namespace Group

/-- What the group has not handed out. -/
def ahead (g : Group) (log : Log) : List Delivery := log.deliveriesFrom g.scope g.cursor

theorem next?_eq_head? (g : Group) (log : Log) :
    g.next? log.entries = (log.entriesFrom g.scope g.cursor).head? :=
  List.head?_filterMap.symm

/-- Nothing waits to be handed out again, and what is in flight went out at a time or later. -/
structure NewSince (since : Nat) (g : Group) : Prop where
  retry_eq : g.retry = []
  le_sentAt : ∀ f ∈ g.sent, since ≤ f.sentAt

theorem newSince_new (since : Nat) (scope : Scope) (settings : GroupSettings) :
    (new scope settings).NewSince since :=
  ⟨rfl, fun _ hf => absurd hf List.not_mem_nil⟩

/-- A group whose deliveries are all in time hands out what is new. -/
theorem NewSince.poll_eq {g : Group} {since now : Nat} (h : g.NewSince since) (hsince : since ≤ now)
    (hnow : now < since + g.settings.messageTimeout) (entries : List Entry) :
    g.poll entries now = g.pollNew entries now := by
  have hretry : g.pollRetry now = (none, g) := by
    obtain ⟨scope, settings, cursor, sent, retry, parked, acknowledged, skipped⟩ := g
    obtain rfl : retry = [] := h.retry_eq
    simp [pollRetry]
  have hexpired : g.expired? now = none := by
    have hnone : (g.sent.filter fun f => g.settings.messageTimeout ≤ now - f.sentAt) = [] := by
      rw [List.filter_eq_nil_iff]
      intro f hf
      have := h.le_sentAt f hf
      simp only [decide_eq_true_eq]
      omega
    rw [expired?, hnone]
    rfl
  rw [poll, hretry]
  simp only [hexpired]

theorem NewSince.pollNew {g : Group} {since now : Nat} (h : g.NewSince since) (hnow : since ≤ now)
    (entries : List Entry) : (g.pollNew entries now).2.NewSince since ∧
      (g.pollNew entries now).2.scope = g.scope ∧
      (g.pollNew entries now).2.settings = g.settings := by
  unfold Group.pollNew
  split
  · exact ⟨h, rfl, rfl⟩
  · refine ⟨⟨h.retry_eq, ?_⟩, rfl, rfl⟩
    simp only [handOut, dropSent, List.mem_append, List.mem_filter, List.mem_singleton]
    rintro f (⟨hf, -⟩ | rfl)
    · exact h.le_sentAt f hf
    · exact hnow

theorem pollNew_ahead {g : Group} {log : Log} (hl : log.Coherent) (hs : g.scope.IsSteady)
    (now : Nat) : (g.pollNew log.entries now).1 = (g.ahead log).head? ∧
      (g.pollNew log.entries now).2.ahead log = (g.ahead log).tail := by
  unfold pollNew
  rw [next?_eq_head?]
  cases ha : log.entriesFrom g.scope g.cursor with
  | nil => simp [ahead, Log.deliveriesFrom, ha]
  | cons a rest =>
      have hrest := hl.entriesFrom_succ hs ha
      simp [ahead, Log.deliveriesFrom, ha, handOut, dropSent, hrest]

end Group

/-! ## Asking again and again -/

/-- The answers that a member gets which asks after each of these times, in milliseconds, while
nobody else asks for anything. -/
def Member.answers (m : Member) : Server → List Nat → List Poll
  | _, [] => []
  | s, wait :: waits =>
    let later := (s.serve (.elapse wait)).2
    (m.poll later).1 :: answers m (m.poll later).2 waits

/-- The member reads a group with these settings that has just these deliveries left to make for the
first time and makes no other ones. -/
structure Member.Reads (m : Member) (settings : GroupSettings) (since : Nat) (ds : List Delivery)
    (s : Server) : Prop where
  coherent : s.log.Coherent
  closed_eq : s.closed = false
  epoch_eq : s.epoch = m.epoch
  stopped_eq : m.stopped = false
  group : ∃ g, s.group? m.stream m.group = some g ∧ g.scope.IsSteady ∧ g.settings = settings ∧
    g.NewSince since ∧ g.ahead s.log = ds

namespace Member.Reads

variable {m : Member} {settings : GroupSettings} {since : Nat} {ds : List Delivery} {s : Server}

theorem elapse (h : m.Reads settings since ds s) (wait : Nat) :
    m.Reads settings since ds (s.serve (.elapse wait)).2 :=
  ⟨h.coherent, h.closed_eq, h.epoch_eq, h.stopped_eq, h.group⟩

theorem poll (h : m.Reads settings since ds s) (hsince : since ≤ s.now)
    (hnow : s.now < since + settings.messageTimeout) :
    (m.poll s).1 = (ds.head?.elim .pending .delivery) ∧
      m.Reads settings since ds.tail (m.poll s).2 ∧ (m.poll s).2.now = s.now := by
  obtain ⟨g, hg, hs, rfl, hnew, rfl⟩ := h.group
  obtain ⟨hhead, htail⟩ := g.pollNew_ahead h.coherent hs s.now
  obtain ⟨hnew', hscope, hsettings⟩ := hnew.pollNew hsince s.log.entries
  have hepoch : s.checkEpoch m.epoch = .ok () := if_pos h.epoch_eq
  have hpoll := hnew.poll_eq hsince hnow s.log.entries
  have hgroup (g' : Group) : (s.setGroup m.stream m.group g').group? m.stream m.group = some g' := by
    rw [Server.group?_setGroup, if_pos ⟨rfl, rfl⟩]
  have hreads : m.Reads g.settings since (g.ahead s.log).tail
      (s.setGroup m.stream m.group (g.pollNew s.log.entries s.now).2) :=
    ⟨h.coherent, h.closed_eq, h.epoch_eq, h.stopped_eq,
      _, hgroup _, hscope ▸ hs, hsettings, hnew', htail⟩
  unfold Member.poll
  rw [hepoch, h.stopped_eq, hg]
  simp only [Bool.false_eq_true, if_false, hpoll]
  rw [← hhead]
  -- The answer and the group are taken from one pair, which is split here for both.
  revert hreads
  generalize g.pollNew s.log.entries s.now = answer
  intro hreads
  obtain ⟨_ | d, g'⟩ := answer
  · exact ⟨by simp [h.closed_eq], hreads, rfl⟩
  · exact ⟨rfl, hreads, rfl⟩

/-- As long as no delivery is late, the member gets what is left, and then nothing more. -/
theorem answers (h : m.Reads settings since ds s) (waits : List Nat)
    (hsince : since ≤ s.now + waits.headD 0)
    (hnow : s.now + waits.sum < since + settings.messageTimeout) :
    m.answers s waits = (ds.map .delivery).take waits.length ++
      List.replicate (waits.length - ds.length) .pending := by
  induction waits generalizing ds s with
  | nil => simp [Member.answers]
  | cons wait waits ih =>
      rw [List.sum_cons] at hnow
      rw [List.headD_cons] at hsince
      have hlater : (s.serve (.elapse wait)).2.now = s.now + wait := rfl
      obtain ⟨hanswer, hreads, hnow'⟩ :=
        (h.elapse wait).poll (by omega) (by omega)
      have hrest := ih hreads (by omega) (by omega)
      rw [Member.answers, hanswer, hrest]
      cases ds with
      | nil => simp [List.replicate_succ]
      | cons d ds => simp

end Member.Reads

namespace Server

variable {s s' : Server} {stream group : String}

theorem createGroup_of_none (h : s.group? stream group = none) (settings : GroupSettings) :
    s.createGroup stream group settings =
      s.setGroup stream group (.new (.ofName stream) settings) := by
  rw [createGroup, h]

/-- What comes of joining a new group hangs on whether anybody is let in. -/
theorem connect_createGroup (hnone : s.group? stream group = none) (settings : GroupSettings) :
    Member.connect (s.createGroup stream group settings) stream group =
      match s.turnAways with
      | 0 => (.ok ⟨stream, group, s.epoch, false⟩,
          s.setGroup stream group (.new (.ofName stream) settings))
      | n + 1 => (.error (.connection "subscribe refused"),
          { s.setGroup stream group (.new (.ofName stream) settings) with turnAways := n }) := by
  have hgroup : (s.setGroup stream group (.new (.ofName stream) settings)).group? stream group =
      some (.new (.ofName stream) settings) := by
    rw [group?_setGroup, if_pos ⟨rfl, rfl⟩]
  have hturn : (s.setGroup stream group (.new (.ofName stream) settings)).turnAways =
    s.turnAways := rfl
  rw [createGroup_of_none hnone, Member.connect, letIn, hturn]
  cases s.turnAways with
  | zero =>
      simp only [hgroup]
      rfl
  | succ n => rfl

/-- A member that joins a new group has before it what the group starts from. -/
theorem reads_of_connect {settings : GroupSettings} {m : Member} (hl : s.log.Coherent)
    (hclosed : s.closed = false) (hs : (Scope.ofName stream).IsSteady)
    (hnone : s.group? stream group = none)
    (h : Member.connect (s.createGroup stream group settings) stream group = (.ok m, s'))
    (since : Nat) :
    m.Reads settings since (s.log.deliveriesFrom (.ofName stream) settings.startFrom) s' := by
  rw [connect_createGroup hnone] at h
  split at h
  · obtain ⟨hm, rfl⟩ := Prod.mk.inj h
    obtain rfl := Except.ok.inj hm
    have hgroup : (s.setGroup stream group (.new (.ofName stream) settings)).group? stream group =
        some (.new (.ofName stream) settings) := by
      rw [group?_setGroup, if_pos ⟨rfl, rfl⟩]
    exact ⟨hl, hclosed, rfl, rfl, _, hgroup, hs, rfl, Group.newSince_new .., rfl⟩
  · cases (Prod.mk.inj h).1

/-- A read, a reader and a new group all start from a position and give the same records, the latter
two at the same positions. A member of the group gets them one by one, until nothing is left. -/
theorem read_paths_agree (now : Nat) (requests : List Request) (stream group : String)
    (settings : GroupSettings) (hmark : Text.hasPrefix tombstoneMark stream = false)
    (hkept : .call (.tombstone stream) ∉ requests)
    (hnew : ((start now).after requests).group? stream group = none) :
    let s := (start now).after requests
    let opened := CatchUp.openAt s stream (some settings.startFrom)
    let joined := Member.connect (s.createGroup stream group settings) stream group
    ∃ ds : List Delivery,
      (s.read stream settings.startFrom).1 = .ok (ds.map (·.record)) ∧
      (∀ reader s', opened = (.ok reader, s') → reader.backlog = ds) ∧
      (∀ member s', joined = (.ok member, s') →
        ∀ waits : List Nat, waits.tail.sum < settings.messageTimeout →
          member.answers s' waits = (ds.map .delivery).take waits.length ++
            List.replicate (waits.length - ds.length) .pending) ∧
      (s.turnAways = 0 → (∃ reader s', opened = (.ok reader, s')) ∧
        ∃ member s', joined = (.ok member, s')) := by
  intro s opened joined
  have hl : s.log.Coherent := coherent_after now requests
  have hsteady := Scope.isSteady_ofName hmark
  have hclosed : s.closed = false := Becomes.closed_eq ⟨requests, rfl⟩
  have hlive : stream ∉ s.log.deleted := by
    rw [mem_deleted_after]
    exact not_or.2 ⟨List.not_mem_nil, hkept⟩
  refine ⟨s.log.deliveriesFrom (.ofName stream) settings.startFrom, ?_, ?_, ?_, ?_⟩
  · show s.log.read stream settings.startFrom = _
    rw [Log.read, if_neg hlive, Log.deliveriesFrom, List.map_map]
    rfl
  · intro reader s' h
    simp only [opened, CatchUp.openAt_eq] at h
    split at h
    · obtain rfl := Except.ok.inj (Prod.mk.inj h).1
      rfl
    · cases (Prod.mk.inj h).1
  · intro member s' h waits hwaits
    -- Nothing is in flight until the first answer, so that only the times after it count.
    refine (reads_of_connect hl hclosed hsteady hnew h (s'.now + waits.headD 0)).answers waits
      (Nat.le_refl _) ?_
    cases waits with
    | nil => exact Nat.add_lt_add_left hwaits _
    | cons wait waits =>
        rw [List.sum_cons, List.headD_cons, ← Nat.add_assoc]
        exact Nat.add_lt_add_left hwaits _
  · intro hturn
    constructor
    · have hopened := CatchUp.openAt_eq s stream (some settings.startFrom)
      rw [hturn] at hopened
      exact ⟨_, _, hopened⟩
    · have hjoined := connect_createGroup (s := s) hnew settings
      rw [hturn] at hjoined
      exact ⟨_, _, hjoined⟩

/-- A category whose records have lost a stream, and with it the positions 1 and 2. -/
def holedRun : List Request :=
  [.call (.append "order-1" .any [⟨"OrderPlaced", [], []⟩]),
    .call (.append "order-2" .any [⟨"OrderPlaced", [], []⟩, ⟨"OrderShipped", [], []⟩]),
    .call (.append "order-1" .any [⟨"OrderShipped", [], []⟩]),
    .call (.tombstone "order-2")]

theorem read_paths_agree_holedRun : Text.hasPrefix tombstoneMark "$ce-order" = false ∧
    .call (.tombstone "$ce-order") ∉ holedRun ∧
    ((start 0).after holedRun).group? "$ce-order" "readers" = none ∧
    ∃ (ds : List Delivery) (member : Member) (s' : Server),
      Member.connect (((start 0).after holedRun).createGroup "$ce-order" "readers"
        { startFrom := 1 }) "$ce-order" "readers" = (.ok member, s') ∧
      ds.map (fun d => (d.position, d.record.stream)) = [(3, "order-1"), (4, "$$order-2")] ∧
      (((start 0).after holedRun).read "$ce-order" 1).1 = .ok (ds.map (·.record)) ∧
      member.answers s' [5, 100, 100] = ds.map .delivery ++ [.pending] := by
  have hmark : Text.hasPrefix tombstoneMark "$ce-order" = false := by decide
  have hkept : .call (.tombstone "$ce-order") ∉ holedRun := by simp [holedRun]
  have hnew : ((start 0).after holedRun).group? "$ce-order" "readers" = none := rfl
  obtain ⟨ds, hread, hopened, hjoined, -⟩ :=
    read_paths_agree 0 holedRun "$ce-order" "readers" { startFrom := 1 } hmark hkept hnew
  have hds := hopened _ _ rfl
  have hconnect := connect_createGroup hnew { startFrom := 1 }
  have hpositions : ds.map (fun d => (d.position, d.record.stream)) =
      [(3, "order-1"), (4, "$$order-2")] := by
    rw [← hds]
    decide +kernel
  have hlength : ds.length = 2 := by simpa using congrArg List.length hpositions
  refine ⟨hmark, hkept, hnew, ds, _, _, hconnect, hpositions, hread, ?_⟩
  rw [hjoined _ _ hconnect [5, 100, 100] (by decide), hlength,
    List.take_of_length_le (by simp [hlength])]
  rfl

end Server

end EventSourcing
