import EventSourcing.Domain.Account
import EventSourcing.Proofs.Subscription.Filtering
import EventSourcing.Remote.Line

/-!
# Following a stream over a server

A server keeps a stream and hands it out behind the position that a subscription asks for. A loop
over it loses its connection at any moment, and others write in between. Whenever it opens a
subscription again it asks for what is behind the last record that it has dealt with, and so it gets
every entry once, in order and without a hole (`Resuming.resumes_behind_last`).
-/

namespace EventSourcing

open Remote (Call Event Item Line Position Responder ServerError Slot holdsLinks readerError)

variable {E : Type}

/-! ## A server with a stream -/

/-- A server that keeps one stream and remembers what it was asked. -/
structure Host where
  /-- What stands in the stream itself: events, or links to events. -/
  entries : List Event := []
  /-- Where the latest subscription goes on. -/
  cursor : Position := .start
  calls : List Call := []

/-- Whether a revision is behind a position. -/
def Remote.Position.precedes (n : Nat) : Position → Bool
  | .start => true
  | .revision m => m < n
  | .atEnd => false

namespace Host

/-- A subscription begins behind the position that it asks for. The stream is all there is. -/
def request (h : Host) (call : Call) : Except ServerError Remote.Reply × Host :=
  let h := { h with calls := h.calls ++ [call] }
  match call with
  | .subscribe _ position _ => (.ok .done, { h with cursor := position })
  | _ => (.error .resourceNotFound, h)

instance : Responder Host := ⟨request⟩

/-- The entries that the latest subscription has not got. -/
def behind (h : Host) : List Event := h.entries.filter fun e => h.cursor.precedes e.revision

/-- Writes an entry behind all others; anything else is not written. -/
def write (h : Host) (e : Event) : Host :=
  if ∀ e' ∈ h.entries, e'.revision < e.revision then { h with entries := h.entries ++ [e] } else h

/-- The entries from a revision on. -/
def due (h : Host) (base : Nat) : List Event := h.entries.filter fun e => base ≤ e.revision

end Host

/-! ## Minutes -/

/-- What is written down of a line: where subscriptions began, and what they have given. -/
inductive Minutes.Entry
  | asked (position : Position)
  | given (delivery : Delivery)

def Minutes.Entry.position? : Minutes.Entry → Option Position
  | .asked p => some p
  | .given _ => none

def Minutes.Entry.delivery? : Minutes.Entry → Option Delivery
  | .asked _ => none
  | .given d => some d

/-- A line that writes down. -/
structure Minutes where
  line : Line Host
  entries : List Minutes.Entry := []

namespace Minutes

def note (m : Minutes) : Poll × Connection × Line Host → Poll × Connection × Minutes
  | (.delivery d, c, line) => (.delivery d, c, ⟨line, m.entries ++ [.given d]⟩)
  | (p, c, line) => (p, c, { m with line := line })

instance : Broker Minutes where
  createGroup m stream group settings :=
    let (r, line) := Broker.createGroup m.line stream group settings
    (r, { m with line := line })
  connect m stream group start :=
    let (r, line) := Broker.connect m.line stream group start
    (r, ⟨line, m.entries ++ [.asked (.before start)]⟩)
  ask m c := m.note (Broker.ask m.line c)
  askAgain m c := m.note (Broker.askAgain m.line c)
  ack m member ids :=
    let (r, line) := Broker.ack m.line member ids
    (r, { m with line := line })
  nack m member ids action :=
    let (r, member, line) := Broker.nack m.line member ids action
    (r, member, { m with line := line })
  signal m := Broker.signal m.line
  now m := Broker.now m.line

/-- The positions behind which subscriptions began. -/
def asked (m : Minutes) : List Position := m.entries.filterMap Entry.position?

/-- All that the subscriptions have given to the loop. -/
def given (m : Minutes) : List Delivery := m.entries.filterMap Entry.delivery?

section Noting

variable (m : Minutes) (line : Line Host)

@[simp] theorem given_asked (p : Position) : given ⟨line, m.entries ++ [.asked p]⟩ = m.given := by
  simp [given, Entry.delivery?]

@[simp] theorem given_given (d : Delivery) :
    given ⟨line, m.entries ++ [.given d]⟩ = m.given ++ [d] := by
  simp [given, Entry.delivery?]

@[simp] theorem asked_asked (p : Position) :
    asked ⟨line, m.entries ++ [.asked p]⟩ = m.asked ++ [p] := by
  simp [asked, Entry.position?]

@[simp] theorem asked_given (d : Delivery) : asked ⟨line, m.entries ++ [.given d]⟩ = m.asked := by
  simp [asked, Entry.position?]

end Noting

end Minutes

/-! ## Runs -/

/-- A catch-up subscription over a server, with what its consumer has received. -/
structure Resuming (E : Type) where
  minutes : Minutes
  subscription : Subscription E
  received : List (Emission E) := []

/-- What happens next. -/
inductive Resuming.Move
  /-- The loop takes a step, unless it has to wait. -/
  | run
  /-- The consumer asks for a record. -/
  | receive
  | close
  | elapse (time : Nat)
  /-- Somebody writes an entry. -/
  | write (entry : Event)
  /-- The server gives the next entry, with what it stands for as far as that is there. -/
  | send (slot : Slot)
  /-- The connection fails. -/
  | fail (error : ServerError)

namespace Resuming

def host (w : Resuming E) : Host := w.minutes.line.client.responder

def start (source : Source) (first : Option Nat) (bufferSize : Nat) (retry : Option RetrySettings)
    (now : Nat) : Resuming E where
  minutes := ⟨.start {} now, []⟩
  subscription := .catchUp source first bufferSize retry

def setLine (w : Resuming E) (line : Line Host) : Resuming E :=
  { w with minutes := { w.minutes with line := line } }

def setHost (w : Resuming E) (host : Host) : Resuming E :=
  w.setLine { w.minutes.line with client := ⟨host⟩ }

def act [DomainEvent E] (w : Resuming E) : Move → Resuming E
  | .run =>
    match w.subscription.step w.minutes with
    | some (s, minutes) => { w with minutes := minutes, subscription := s }
    | none => w
  | .receive =>
    match w.subscription.receive with
    | (.record e, s) => { w with subscription := s, received := w.received ++ [e] }
    | (_, s) => { w with subscription := s }
  | .close => { w with subscription := w.subscription.close }
  | .elapse time => w.setLine (w.minutes.line.elapse time)
  | .write entry => w.setHost (w.host.write entry)
  | .send slot =>
    if w.host.behind.head? = some slot.entry then
      let w := w.setHost { w.host with cursor := .revision slot.entry.revision }
      w.setLine (w.minutes.line.give (.ok slot))
    else w
  | .fail e => w.setLine (w.minutes.line.give (.error e))

def after [DomainEvent E] (w : Resuming E) (moves : List Move) : Resuming E := moves.foldl act w

/-- The position behind which a subscription has to begin that follows these deliveries. -/
def resumption (first : Option Nat) (ds : List Delivery) : Position :=
  match ds.getLast? with
  | none => .before first
  | some d => .revision d.position

/-! ## What a feed has before it -/

/-- What a feed gives are the upcoming entries in order, up to an error; without one the server goes
on with the rest. -/
def Continues (rest : List Event) : List Item → List Event → Prop
  | [], upcoming => upcoming = rest
  | .ok slot :: items, upcoming =>
    ∃ more, upcoming = slot.entry :: more ∧ Continues rest items more
  | .error _ :: _, _ => True

namespace Continues

variable {rest : List Event} {items : List Item} {upcoming : List Event}

theorem give_ok {slot : Slot} (h : Continues (slot.entry :: rest) items upcoming) :
    Continues rest (items ++ [.ok slot]) upcoming := by
  induction items generalizing upcoming with
  | nil => exact ⟨rest, h, rfl⟩
  | cons item items ih =>
      cases item with
      | error e => trivial
      | ok s =>
          obtain ⟨more, hmore, h⟩ := h
          exact ⟨more, hmore, ih h⟩

theorem give_error (e : ServerError) (h : Continues rest items upcoming) (rest' : List Event) :
    Continues rest' (items ++ [.error e]) upcoming := by
  induction items generalizing upcoming with
  | nil => trivial
  | cons item items ih =>
      cases item with
      | error e => trivial
      | ok s =>
          obtain ⟨more, hmore, h⟩ := h
          exact ⟨more, hmore, ih h⟩

theorem write (h : Continues rest items upcoming) (news : List Event) :
    Continues (rest ++ news) items (upcoming ++ news) := by
  induction items generalizing upcoming with
  | nil => exact congrArg (· ++ news) h
  | cons item items ih =>
      cases item with
      | error e => trivial
      | ok s =>
          obtain ⟨more, hmore, h⟩ := h
          exact ⟨more ++ news, by rw [hmore]; rfl, ih h⟩

end Continues

/-! ## Entries behind another -/

/-- Behind an entry of a stream stands what comes after it. -/
theorem filter_behind {entries after : List Event} {p : Event → Bool} {e : Event}
    (before : List Event) (hs : entries.Pairwise fun a b => a.revision < b.revision)
    (hp : ∀ x, e.revision < x.revision → p x = true)
    (h : entries.filter p = before ++ e :: after) :
    entries.filter (fun x => e.revision < x.revision) = after := by
  have hsplit : (before ++ e :: after).Pairwise fun a b => a.revision < b.revision :=
    h ▸ hs.filter p
  obtain ⟨-, hafter, hbefore⟩ := List.pairwise_append.1 hsplit
  rw [List.pairwise_cons] at hafter
  have hcut : entries.filter (fun x => e.revision < x.revision) =
      (before ++ e :: after).filter fun x => e.revision < x.revision := by
    rw [← h, List.filter_filter]
    refine List.filter_congr fun x _ => ?_
    by_cases hx : e.revision < x.revision <;> simp [hx, hp x]
  have hnone : before.filter (fun x => e.revision < x.revision) = [] := by
    refine List.filter_eq_nil_iff.2 fun x hx hlt => ?_
    have := hbefore x hx e List.mem_cons_self
    simp only [decide_eq_true_eq] at hlt
    omega
  have hall : after.filter (fun x => e.revision < x.revision) = after :=
    List.filter_eq_self.2 fun x hx => decide_eq_true (hafter.1 x hx)
  rw [hcut, List.filter_append, hnone, List.filter_cons_of_neg (by simp), hall, List.nil_append]

theorem precedes_before (start : Option Nat) (n : Nat) :
    (Position.before start).precedes n = true ↔ start.getD 0 ≤ n := by
  rcases start with _ | _ | k
  · simp [Position.before, Position.precedes]
  · simp [Position.before, Position.precedes]
  · exact decide_eq_true_iff

/-! ## The latest subscription -/

/-- The latest subscription gives what is upcoming, and begins at `base` at the earliest. -/
structure Linked (line : Line Host) (base : Nat) (upcoming : List Event) : Prop where
  base_le : ∀ n, line.client.responder.cursor.precedes n = true → base ≤ n
  reaches : ∀ n, (∀ e ∈ line.client.responder.entries, e.revision < n) → base ≤ n →
    line.client.responder.cursor.precedes n = true
  continues : Continues line.client.responder.behind line.feed.items upcoming

namespace Linked

variable {line : Line Host} {base : Nat} {upcoming : List Event}

theorem give_error (h : Linked line base upcoming) (e : ServerError) :
    Linked (line.give (.error e)) base upcoming where
  base_le := h.base_le
  reaches := h.reaches
  continues := h.continues.give_error e _

/-- The server gives the first entry that the subscription has not got. -/
theorem send (h : Linked line base upcoming)
    (hs : line.client.responder.entries.Pairwise fun a b => a.revision < b.revision) {slot : Slot}
    (hslot : line.client.responder.behind.head? = some slot.entry) :
    Linked ({ line with client := ⟨{ line.client.responder with
      cursor := .revision slot.entry.revision }⟩ }.give (.ok slot)) base upcoming := by
  obtain ⟨rest, hrest⟩ := List.head?_eq_some_iff.1 hslot
  have hin : slot.entry ∈ line.client.responder.behind := hrest ▸ List.mem_cons_self
  obtain ⟨hentry, hbehind⟩ := List.mem_filter.1 hin
  have hmono (n : Nat) (hlt : slot.entry.revision < n) :
      line.client.responder.cursor.precedes n = true := by
    cases hc : line.client.responder.cursor with
    | start => rfl
    | atEnd => rw [hc] at hbehind; cases hbehind
    | revision m =>
        rw [hc] at hbehind
        exact decide_eq_true ((of_decide_eq_true hbehind).trans hlt)
  refine ⟨fun n hn => ?_, fun n hn _ => decide_eq_true (hn _ hentry), ?_⟩
  · exact (h.base_le _ hbehind).trans (Nat.le_of_lt (of_decide_eq_true hn))
  · have hcontinues := h.continues
    rw [hrest] at hcontinues
    rw [Host.behind] at hrest ⊢
    exact (filter_behind [] hs (fun x => hmono x.revision) hrest).symm ▸
      hcontinues.give_ok

/-- What is written behind all others is upcoming if it is from `base` on. -/
theorem write (h : Linked line base upcoming) {entry : Event}
    (hlast : ∀ e ∈ line.client.responder.entries, e.revision < entry.revision) :
    Linked { line with client := ⟨{ line.client.responder with
      entries := line.client.responder.entries ++ [entry] }⟩ } base
        (upcoming ++ [entry].filter fun e => base ≤ e.revision) where
  base_le := h.base_le
  reaches n hn := h.reaches n fun e he => hn e (List.mem_append_left _ he)
  continues := by
    have hsame : [entry].filter (fun e => line.client.responder.cursor.precedes e.revision) =
        [entry].filter fun e => base ≤ e.revision := by
      refine List.filter_congr fun e he => ?_
      obtain rfl := List.mem_singleton.1 he
      by_cases hle : base ≤ e.revision
      · rw [h.reaches _ hlast hle, decide_eq_true hle]
      · rw [decide_eq_false hle, Bool.eq_false_iff]
        exact fun hp => hle (h.base_le _ hp)
    rw [← hsame]
    show Continues (List.filter _ (_ ++ [entry])) _ _
    rw [List.filter_append]
    exact h.continues.write _

/-- A subscription that has just begun gives all that is upcoming. -/
theorem opened (start : Option Nat) (hcursor : line.client.responder.cursor = .before start)
    (hfeed : line.feed.items = []) (hdue : line.client.responder.due (start.getD 0) = upcoming)
    (hbase : base ≤ start.getD 0)
    (hreach : ∀ n, (∀ e ∈ line.client.responder.entries, e.revision < n) → base ≤ n →
      start.getD 0 ≤ n) : Linked line base upcoming where
  base_le n hn := hbase.trans ((precedes_before start n).1 (hcursor ▸ hn))
  reaches n hn hle := hcursor ▸ (precedes_before start n).2 (hreach n hn hle)
  continues := by
    rw [hfeed, Continues, ← hdue, Host.behind, hcursor]
    refine List.filter_congr fun e _ => ?_
    rw [Bool.eq_iff_iff, precedes_before, decide_eq_true_iff]

end Linked

/-! ## What has been recorded -/

/-- Every subscription begins behind the last record that was given before. -/
def Resumes (first : Option Nat) (entries : List Minutes.Entry) : Prop :=
  ∀ before p after, entries = before ++ .asked p :: after →
    p = resumption first (before.filterMap Minutes.Entry.delivery?)

theorem Resumes.append {first : Option Nat} {entries : List Minutes.Entry} {entry : Minutes.Entry}
    (h : Resumes first entries) (hentry : ∀ p, entry = .asked p →
      p = resumption first (entries.filterMap Minutes.Entry.delivery?)) :
    Resumes first (entries ++ [entry]) := by
  intro before p after hsplit
  rcases List.eq_nil_or_concat after with rfl | ⟨after, last, rfl⟩
  · obtain ⟨rfl, hlast⟩ := List.append_inj' hsplit rfl
    exact hentry p (List.cons.inj hlast).1
  · rw [List.concat_eq_append, ← List.cons_append, ← List.append_assoc] at hsplit
    exact h before p after (List.append_inj' hsplit rfl).1

/-- The minutes show that the loop has been given what is due, except for what is upcoming. -/
structure Recorded (stream : String) (first : Option Nat) (upcoming : List Event) (m : Minutes) :
    Prop where
  sorted : m.line.client.responder.entries.Pairwise fun a b => a.revision < b.revision
  due_eq : ∃ slots : List Slot, m.given = slots.map (·.delivery 0) ∧
    m.line.client.responder.due (first.getD 0) = slots.map Slot.entry ++ upcoming
  asked : Resumes first m.entries
  calls : m.line.client.responder.calls =
    m.asked.map fun p => .subscribe stream p (holdsLinks stream)

namespace Recorded

variable {stream : String} {first : Option Nat} {upcoming : List Event} {m : Minutes}

/-- The stream may grow. -/
theorem relined (h : Recorded stream first upcoming m) {line : Line Host} (news : List Event)
    (hsorted : line.client.responder.entries.Pairwise fun a b => a.revision < b.revision)
    (hentries : line.client.responder.entries = m.line.client.responder.entries ++ news)
    (hcalls : line.client.responder.calls = m.line.client.responder.calls) :
    Recorded stream first (upcoming ++ news.filter fun e => first.getD 0 ≤ e.revision)
      { m with line := line } where
  sorted := hsorted
  due_eq := by
    obtain ⟨slots, hslots, hdue⟩ := h.due_eq
    refine ⟨slots, hslots, ?_⟩
    rw [Host.due] at hdue ⊢
    rw [hentries, List.filter_append, hdue, List.append_assoc]
  asked := h.asked
  calls := hcalls.trans h.calls

theorem given {slot : Slot} (h : Recorded stream first (slot.entry :: upcoming) m)
    (feed : Remote.Feed) :
    Recorded stream first upcoming
      ⟨{ m.line with feed := feed }, m.entries ++ [.given (slot.delivery 0)]⟩ where
  sorted := h.sorted
  due_eq := by
    obtain ⟨slots, hslots, hdue⟩ := h.due_eq
    refine ⟨slots ++ [slot], ?_, ?_⟩
    · rw [Minutes.given_given, hslots, List.map_append]
      rfl
    · rw [List.map_append, List.append_assoc]
      exact hdue
  asked := h.asked.append nofun
  calls := by
    rw [Minutes.asked_given]
    exact h.calls

/-- A subscription begins where the loop goes on. -/
theorem opened (h : Recorded stream first upcoming m) {start : Option Nat}
    (hstart : Position.before start = resumption first m.given) : Recorded stream first upcoming
    ⟨{ m.line with
        client := m.line.client.subscribe stream start
        feed := ⟨stream, []⟩ }, m.entries ++ [.asked (.before start)]⟩ where
  sorted := h.sorted
  due_eq := by
    rw [Minutes.given_asked]
    exact h.due_eq
  asked := h.asked.append fun p hp => (Minutes.Entry.asked.inj hp).symm.trans hstart
  calls := by
    rw [Minutes.asked_asked, List.map_append, ← h.calls]
    rfl

/-- Behind the last record that was given stands what is upcoming. -/
theorem due_behind (h : Recorded stream first upcoming m) {start : Option Nat}
    (hstart : start = (m.given.getLast?.map (·.position + 1)).or first) :
    m.line.client.responder.due (start.getD 0) = upcoming ∧ first.getD 0 ≤ start.getD 0 ∧
    ∀ n, (∀ e ∈ m.line.client.responder.entries, e.revision < n) → first.getD 0 ≤ n →
      start.getD 0 ≤ n := by
  obtain ⟨slots, hslots, hdue⟩ := h.due_eq
  rw [hslots] at hstart
  subst hstart
  rcases List.eq_nil_or_concat slots with rfl | ⟨before, last, rfl⟩
  · exact ⟨hdue, Nat.le_refl _, fun n _ hle => hle⟩
  · simp only [List.concat_eq_append, List.map_append, List.map_cons, List.map_nil,
      List.getLast?_concat, Option.map_some, Option.some_or, Option.getD_some,
      List.append_assoc, List.singleton_append] at hdue ⊢
    have hlast : last.entry ∈ m.line.client.responder.due (first.getD 0) := by
      rw [hdue]
      exact List.mem_append_right _ List.mem_cons_self
    obtain ⟨hin, hle⟩ := List.mem_filter.1 hlast
    have hbase : first.getD 0 ≤ last.entry.revision := of_decide_eq_true hle
    refine ⟨?_, Nat.le_succ_of_le hbase, fun n hn _ => hn _ hin⟩
    exact filter_behind _ h.sorted (fun x hx => decide_eq_true (hbase.trans (Nat.le_of_lt hx))) hdue

end Recorded

/-! ## What has been dealt with -/

/-- What the loop has been given and has not dealt with: the record that it is at, or the one at
which it was ended. -/
def AtHand (E : Type) [DomainEvent E] : Place E → List Delivery → Prop
  | .emitting position emission, rest =>
    ∃ d, rest = [d] ∧ d.position = position ∧ d.emission? E = some emission
  | .settling _ _, _ => False
  | .finished _, rest => rest.length ≤ 1
  | _, rest => rest = []

/-- The loop has dealt with `handled` of what it was given, and has shown to its consumer what of it
decodes. -/
structure Dealt [DomainEvent E] (first : Option Nat) (handled rest given : List Delivery)
    (l : Loop E) (shown : List (Emission E)) : Prop where
  settles_eq : l.settles = false
  start_eq : l.start = (handled.getLast?.map (·.position + 1)).or first
  position_eq : l.position = (handled.getLast?.map (·.position)).or
    (Loop.catchUp first none : Loop E).position
  given_eq : given = handled ++ rest
  at_hand : AtHand E l.place rest
  shown_eq : shown = handled.filterMap (Delivery.emission? E)

section Dealing

variable [DomainEvent E] {l l' : Loop E}

theorem atHand_nil (h : l.isConnected = false) : AtHand E l.place [] := by
  unfold Loop.isConnected at h
  cases hplace : l.place with
  | opening => exact rfl
  | resting pause => exact rfl
  | finished result => exact Nat.zero_le _
  | _ => simp [hplace] at h

theorem AtHand.length_le {place : Place E} {rest : List Delivery} (h : AtHand E place rest) :
    rest.length ≤ 1 := by
  cases place with
  | emitting position emission =>
      obtain ⟨d, rfl, -⟩ := h
      exact Nat.le_refl _
  | settling position id => exact h.elim
  | finished result => exact h
  | _ => exact h ▸ Nat.zero_le _

namespace Dealt

variable {first : Option Nat} {handled rest given : List Delivery} {shown : List (Emission E)}

/-- A loop without a connection has dealt with no more than before. -/
theorem disconnected (h : Dealt first handled rest given l shown) (hl : l.Disconnects l')
    (hrest : AtHand E l'.place rest) : Dealt first handled rest given l' shown where
  settles_eq := hl.settles.trans h.settles_eq
  start_eq := hl.start.trans h.start_eq
  position_eq := hl.position.trans h.position_eq
  given_eq := h.given_eq
  at_hand := hrest
  shown_eq := h.shown_eq

theorem opened (h : Dealt first handled [] given l shown) :
    Dealt first handled [] given l.opened shown where
  settles_eq := h.settles_eq
  start_eq := h.start_eq
  position_eq := h.position_eq
  given_eq := h.given_eq
  at_hand := rfl
  shown_eq := h.shown_eq

/-- A loop that is given a record is at it, or has dealt with it at once. -/
theorem received (h : Dealt first handled [] given l shown) (d : Delivery) :
    ∃ handled' rest', Dealt first handled' rest' (given ++ [d]) (l.received d) shown := by
  have hgiven : given = handled := h.given_eq.trans (List.append_nil _)
  unfold Loop.received
  cases hverdict : (Verdict.of E d.record).delivered? with
  | some record =>
      exact ⟨handled, [d], h.settles_eq, h.start_eq, h.position_eq, by rw [hgiven],
        ⟨d, rfl, rfl, (Delivery.emission?_eq_some hverdict).1⟩, h.shown_eq⟩
  | none =>
      refine ⟨handled ++ [d], [], ?_⟩
      rw [h.settles_eq]
      refine ⟨h.settles_eq, ?_, ?_, by rw [hgiven, List.append_nil], rfl, ?_⟩
      · rw [List.getLast?_concat]
        rfl
      · rw [List.getLast?_concat]
        rfl
      · rw [List.filterMap_append, ← h.shown_eq]
        simp [(Delivery.emission?_eq_none hverdict).1]

/-- The record that the loop is at goes to the consumer. -/
theorem queued (h : Dealt first handled rest given l shown) {position : Nat} {emission : Emission E}
    (hplace : l.place = .emitting position emission) :
    Dealt first given [] given (l.passed position) (shown ++ [emission]) := by
  have hhand := h.at_hand
  rw [hplace] at hhand
  obtain ⟨d, rfl, rfl, hemission⟩ := hhand
  rw [h.given_eq]
  refine ⟨h.settles_eq, ?_, ?_, (List.append_nil _).symm, rfl, ?_⟩
  · rw [List.getLast?_concat]
    rfl
  · rw [List.getLast?_concat]
    rfl
  · rw [List.filterMap_append, ← h.shown_eq]
    simp [hemission]

end Dealt

end Dealing

/-! ## Runs keep their accounts -/

/-- The minutes and the loop fit together. -/
def Accounts [DomainEvent E] (stream : String) (first : Option Nat) (m : Minutes) (l : Loop E)
    (shown : List (Emission E)) : Prop :=
  ∃ handled rest upcoming, Dealt first handled rest m.given l shown ∧
    Recorded stream first upcoming m ∧
    (l.isConnected = true → Linked m.line (first.getD 0) upcoming)

structure Sound [DomainEvent E] (stream : String) (first : Option Nat) (w : Resuming E) : Prop where
  stream_eq : w.subscription.stream = stream
  group_eq : w.subscription.group = none
  accounts : Accounts stream first w.minutes w.subscription.loop
    (w.received ++ w.subscription.queue)

section Steps

variable [DomainEvent E] {stream : String} {first : Option Nat} {m : Minutes} {l l' : Loop E}
  {shown : List (Emission E)} {w : Resuming E}

/-- A loop without a connection is accounted for. -/
theorem Accounts.disconnected (h : Accounts stream first m l shown) (hl : l.Disconnects l')
    (hrest : ∀ rest, AtHand E l.place rest → AtHand E l'.place rest) :
    Accounts stream first m l' shown := by
  obtain ⟨handled, rest, upcoming, hdealt, hrecorded, -⟩ := h
  refine ⟨handled, rest, upcoming, hdealt.disconnected hl (hrest rest hdealt.at_hand), hrecorded,
    fun hcon => ?_⟩
  rw [hl.isConnected] at hcon
  cases hcon

theorem Accounts.opened (h : Accounts stream first m l shown) (hplace : l.place = .opening) :
    Accounts stream first
      ⟨{ m.line with
          client := m.line.client.subscribe stream l.start
          feed := ⟨stream, []⟩ }, m.entries ++ [.asked (.before l.start)]⟩ l.opened shown := by
  obtain ⟨handled, rest, upcoming, hdealt, hrecorded, -⟩ := h
  have hhand := hdealt.at_hand
  rw [hplace] at hhand
  obtain rfl : rest = [] := hhand
  have hgiven : m.given = handled := hdealt.given_eq.trans (List.append_nil _)
  have hstart : l.start = (m.given.getLast?.map (·.position + 1)).or first := by
    rw [hgiven, hdealt.start_eq]
  have hposition : Position.before l.start = resumption first m.given := by
    rw [hstart, resumption]
    cases m.given.getLast? <;> rfl
  obtain ⟨hdue, hbase, hreach⟩ := hrecorded.due_behind hstart
  refine ⟨handled, [], upcoming, ?_, hrecorded.opened hposition, fun _ =>
    Linked.opened l.start rfl rfl hdue hbase hreach⟩
  rw [Minutes.given_asked]
  exact hdealt.opened

/-- What asking the latest subscription for a record comes to. -/
theorem Accounts.polled (h : Accounts stream first m l shown) (hplace : l.place = .reading)
    (c : Connection) : Accounts stream first (m.note (m.line.ask c)).2.2
      (l.polled (m.note (m.line.ask c)).1) shown := by
  obtain ⟨handled, rest, upcoming, hdealt, hrecorded, hlinked⟩ := h
  have hcon : l.isConnected = true := by rw [Loop.isConnected, hplace]
  have hhand := hdealt.at_hand
  rw [hplace] at hhand
  obtain rfl : rest = [] := hhand
  have hline := hlinked hcon
  rcases m.line.ask_cases c with ⟨-, hask⟩ | ⟨slot, items, hitems, hask⟩ | ⟨e, items, hitems, hask⟩
  · rw [hask]
    exact ⟨handled, [], upcoming, hdealt, hrecorded, hlinked⟩
  · rw [hask]
    have hcontinues := hline.continues
    rw [hitems] at hcontinues
    obtain ⟨more, rfl, hcontinues⟩ := hcontinues
    obtain ⟨handled', rest', hdealt'⟩ := hdealt.received (slot.delivery 0)
    refine ⟨handled', rest', more, ?_, hrecorded.given _, fun _ =>
      ⟨hline.base_le, hline.reaches, hcontinues⟩⟩
    rw [Minutes.note, Minutes.given_given]
    exact hdealt'
  · rw [hask]
    have hlost := l.failed_disconnects (readerError m.line.feed.stream e)
    refine ⟨handled, [], upcoming, hdealt.disconnected hlost (atHand_nil hlost.isConnected),
      ⟨hrecorded.sorted, hrecorded.due_eq, hrecorded.asked, hrecorded.calls⟩, fun hcon' => ?_⟩
    exact absurd (hcon'.symm.trans hlost.isConnected) (by simp)

/-- The record that the loop is at goes to its consumer. -/
theorem Accounts.queued (h : Accounts stream first m l shown) {position : Nat}
    {emission : Emission E} (hplace : l.place = .emitting position emission) :
    Accounts stream first m (l.passed position) (shown ++ [emission]) := by
  obtain ⟨handled, rest, upcoming, hdealt, hrecorded, hlinked⟩ := h
  exact ⟨m.given, [], upcoming, hdealt.queued hplace, hrecorded, fun _ =>
    hlinked (by rw [Loop.isConnected, hplace])⟩

/-- The latest subscription may give something, and the stream may grow. -/
theorem Accounts.relined (h : Accounts stream first m l shown) {line : Line Host}
    (news : List Event)
    (hsorted : line.client.responder.entries.Pairwise fun a b => a.revision < b.revision)
    (hentries : line.client.responder.entries = m.line.client.responder.entries ++ news)
    (hcalls : line.client.responder.calls = m.line.client.responder.calls)
    (hlinked : ∀ base upcoming, Linked m.line base upcoming →
      Linked line base (upcoming ++ news.filter fun e => base ≤ e.revision)) :
    Accounts stream first { m with line := line } l shown := by
  obtain ⟨handled, rest, upcoming, hdealt, hrecorded, hline⟩ := h
  exact ⟨handled, rest, _, hdealt, hrecorded.relined news hsorted hentries hcalls, fun hcon =>
    hlinked _ _ (hline hcon)⟩

/-- A line that gives something from the same stream. -/
theorem Accounts.relined_same (h : Accounts stream first m l shown) {line : Line Host}
    (hentries : line.client.responder.entries = m.line.client.responder.entries)
    (hcalls : line.client.responder.calls = m.line.client.responder.calls)
    (hlinked : ∀ base upcoming, Linked m.line base upcoming → Linked line base upcoming) :
    Accounts stream first { m with line := line } l shown := by
  obtain ⟨_, _, _, _, hrecorded, _⟩ := id h
  refine h.relined [] (hentries ▸ hrecorded.sorted) (by rw [hentries, List.append_nil])
    hcalls fun base upcoming hline => ?_
  rw [List.filter_nil, List.append_nil]
  exact hlinked base upcoming hline

namespace Sound

theorem stepped (h : w.Sound stream first) {s : Subscription E} {m : Minutes}
    (hs : w.subscription.Stepped w.minutes s m) :
    Accounts stream first m s.loop (w.received ++ s.queue) := by
  have ha := h.accounts
  cases hs with
  | stopped hclosed =>
      exact ha.disconnected w.subscription.loop.stop_disconnects fun rest hrest => hrest.length_le
  | connected hplace hc =>
      rw [h.stream_eq, h.group_eq] at hc
      obtain ⟨-, rfl⟩ := Prod.mk.inj hc
      exact ha.opened hplace
  | refused hplace hc =>
      rw [h.group_eq] at hc
      cases (Prod.mk.inj hc).1
  | @polled connection r hplace hc hr =>
      rw [Subscription.polled_loop, Subscription.polled_client, Subscription.polled_queue]
      rcases hr with rfl | rfl <;> exact ha.polled hplace connection
  | settled hplace hm hr =>
      obtain ⟨handled, rest, upcoming, hdealt, -⟩ := ha
      have hhand := hdealt.at_hand
      rw [hplace] at hhand
      exact hhand.elim
  | queued hplace hroom =>
      have hqueued := ha.queued hplace
      rwa [List.append_assoc] at hqueued
  | paused hplace wait => exact ha
  | rested hplace =>
      refine ha.disconnected w.subscription.loop.rested_disconnects fun rest hrest => ?_
      rw [hplace] at hrest
      exact hrest

theorem run (h : w.Sound stream first) : (w.act .run).Sound stream first := by
  unfold Resuming.act
  cases hs : w.subscription.step w.minutes with
  | none => exact h
  | some x =>
      obtain ⟨s, m⟩ := x
      have hstepped := Subscription.step_cases hs
      exact ⟨hstepped.frame.1.trans h.stream_eq, hstepped.frame.2.1.trans h.group_eq,
        h.stepped hstepped⟩

theorem receive (h : w.Sound stream first) : (w.act .receive).Sound stream first := by
  unfold Resuming.act
  rcases w.subscription.receive_eq with ⟨e, rest, hqueue, hreceive⟩ | ⟨hnone, hsame⟩
  · rw [hreceive]
    refine ⟨h.stream_eq, h.group_eq, ?_⟩
    have ha := h.accounts
    rw [hqueue] at ha
    simpa using ha
  · cases hreceive : w.subscription.receive with
    | mk r s =>
        rw [hreceive] at hnone hsame
        obtain rfl : s = w.subscription := hsame
        cases r with
        | record e => exact absurd rfl (hnone e)
        | ended => exact h
        | pending => exact h

theorem write (h : w.Sound stream first) (entry : Event) :
    (w.act (.write entry)).Sound stream first := by
  obtain ⟨_, _, _, _, hrecorded, _⟩ := h.accounts
  refine ⟨h.stream_eq, h.group_eq, ?_⟩
  simp only [Resuming.act, Host.write]
  split
  · rename_i hlast
    refine h.accounts.relined [entry] ?_ rfl rfl fun base upcoming hline =>
      hline.write hlast
    refine List.pairwise_append.2 ⟨hrecorded.sorted, List.pairwise_singleton _ _, ?_⟩
    intro e he e' he'
    obtain rfl := List.mem_singleton.1 he'
    exact hlast e he
  · exact h.accounts

theorem send (h : w.Sound stream first) (slot : Slot) :
    (w.act (.send slot)).Sound stream first := by
  obtain ⟨_, _, _, _, hrecorded, _⟩ := h.accounts
  simp only [Resuming.act]
  split
  · rename_i hslot
    exact ⟨h.stream_eq, h.group_eq, h.accounts.relined_same rfl rfl fun base upcoming hline =>
      hline.send hrecorded.sorted hslot⟩
  · exact h

theorem act (h : w.Sound stream first) (move : Move) : (w.act move).Sound stream first := by
  cases move with
  | run => exact h.run
  | receive => exact h.receive
  | close => exact ⟨h.stream_eq, h.group_eq, h.accounts⟩
  | elapse time =>
      exact ⟨h.stream_eq, h.group_eq, h.accounts.relined_same rfl rfl fun _ _ hline =>
        ⟨hline.base_le, hline.reaches, hline.continues⟩⟩
  | write entry => exact h.write entry
  | send slot => exact h.send slot
  | fail e =>
      exact ⟨h.stream_eq, h.group_eq, h.accounts.relined_same rfl rfl fun _ _ hline =>
        hline.give_error e⟩

theorem after (h : w.Sound stream first) (moves : List Move) :
    (w.after moves).Sound stream first := by
  induction moves generalizing w with
  | nil => exact h
  | cons move moves ih => exact ih (h.act move)

end Sound

end Steps

theorem sound_start [DomainEvent E] (source : Source) (first : Option Nat) (bufferSize : Nat)
    (retry : Option RetrySettings) (now : Nat) :
    (start source first bufferSize retry now : Resuming E).Sound source.toStream first where
  stream_eq := rfl
  group_eq := rfl
  accounts := by
    refine ⟨[], [], [], ⟨rfl, rfl, rfl, rfl, rfl, rfl⟩,
      ⟨List.Pairwise.nil, ⟨[], rfl, rfl⟩, ?_, rfl⟩,
      nofun⟩
    exact fun before p after hsplit => by simp [start] at hsplit

/-! ## The main result -/

/-- Over all connections of a loop, its subscriptions begin where it was told to begin, and from
then on behind the last record that it was given. What it is given are the entries of the stream
from there on, by their own revisions: each once, in order and without a hole. All of that is dealt
with but for one record at most, and what was dealt with has gone to the consumer if it decodes. -/
theorem resumes_behind_last [DomainEvent E] (source : Source) (first : Option Nat)
    (bufferSize : Nat) (retry : Option RetrySettings) (now : Nat) (moves : List Move) :
    let w : Resuming E := (start source first bufferSize retry now).after moves
    let revisions := w.host.entries.map (·.revision)
    w.host.calls =
      w.minutes.asked.map (fun p => .subscribe source.toStream p (holdsLinks source.toStream)) ∧
    (∀ before p after, w.minutes.entries = before ++ .asked p :: after →
      p = resumption first (before.filterMap Minutes.Entry.delivery?)) ∧
    revisions.Pairwise (· < ·) ∧
    (∃ slots : List Slot, w.minutes.given = slots.map (·.delivery 0) ∧
      slots.map (·.entry) <+: w.host.entries.filter fun e => first.getD 0 ≤ e.revision) ∧
    w.minutes.given.map (·.position) <+: revisions.filter (first.getD 0 ≤ ·) ∧
    ∃ handled rest, w.minutes.given = handled ++ rest ∧ rest.length ≤ 1 ∧
      (w.subscription.loop.place = .opening → rest = []) ∧
      w.subscription.progress = (handled.getLast?.map (·.position)).or
        (Loop.catchUp first retry : Loop E).position ∧
      w.received ++ w.subscription.queue = handled.filterMap (Delivery.emission? E) := by
  intro w revisions
  have h : w.Sound source.toStream first :=
    (sound_start source first bufferSize retry now).after moves
  obtain ⟨handled, rest, upcoming, hdealt, hrecorded, -⟩ := h.accounts
  obtain ⟨slots, hslots, hdue⟩ := hrecorded.due_eq
  refine ⟨hrecorded.calls, hrecorded.asked, ?_, ⟨slots, hslots, upcoming, hdue.symm⟩, ?_,
    handled, rest, hdealt.given_eq, hdealt.at_hand.length_le, fun hplace => ?_,
    hdealt.position_eq, hdealt.shown_eq⟩
  · exact List.pairwise_map.2 hrecorded.sorted
  · refine ⟨upcoming.map (·.revision), ?_⟩
    have hrevisions := congrArg (List.map Event.revision) hdue
    rw [List.map_append, List.map_map] at hrevisions
    rw [List.filter_map, hslots, List.map_map]
    exact hrevisions.symm
  · have hhand := hdealt.at_hand
    rw [hplace] at hhand
    exact hhand

/-- A link to an event that is gone. -/
def strayLink (revision : Nat) : Slot :=
  .link ⟨revision, "$ce-account", "$>", revision, 0, 0, 0, [], []⟩ none

example :
    let w : Resuming Domain.AccountEvent :=
      (start (.category "account") (some 1) 8 (some {}) 0).after
        [.write (strayLink 0).entry, .write (strayLink 1).entry, .write (strayLink 4).entry,
          .run, .send (strayLink 1), .run, .fail .connectionClosed, .run, .run, .elapse 150, .run,
          .run, .send (strayLink 4), .run]
    w.minutes.asked = [.revision 0, .revision 1] ∧
      w.minutes.given.map (·.position) = [1, 4] := ⟨rfl, rfl⟩

end Resuming

end EventSourcing
