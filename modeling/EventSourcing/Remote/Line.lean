import EventSourcing.Remote.Client
import EventSourcing.Remote.Pipe
import EventSourcing.Subscription.Basic

/-!
# Catch-up subscriptions over a server

A loop over a server reads from one subscription at a time. The line to the server holds what the
latest subscription has given and the loop has not taken yet; a connection of the loop only stands
for it. There are no groups on a line.
-/

namespace EventSourcing.Remote

/-- A client of a server, with its latest catch-up reader. -/
structure Line (σ : Type) where
  client : Client σ
  feed : Feed
  /-- Raised when the server gives something. -/
  signal : Nat
  now : Nat

namespace Line

variable {σ : Type}

/-- A line whose loop has not opened a connection yet. -/
def start (responder : σ) (now : Nat) : Line σ := ⟨⟨responder⟩, ⟨"", []⟩, 0, now⟩

/-- What the loop holds of a connection. -/
def connection (stream : String) : Connection := .catchUp ⟨.ofName stream, [], 0, 0⟩

def ask (l : Line σ) (c : Connection) : Poll × Connection × Line σ :=
  let (p, feed) := l.feed.next
  (p, c, { l with feed := feed })

/-- The subscription gives something. -/
def give (l : Line σ) (item : Item) : Line σ :=
  { l with feed := { l.feed with items := l.feed.items ++ [item] }, signal := l.signal + 1 }

def elapse (l : Line σ) (time : Nat) : Line σ := { l with now := l.now + time }

instance [Responder σ] : Broker (Line σ) where
  createGroup l stream group settings :=
    let (r, client) := l.client.createGroup stream group settings
    (r, { l with client := client })
  connect l stream group start :=
    match group with
    | none =>
      (.ok (connection stream),
        { l with client := l.client.subscribe stream start, feed := ⟨stream, []⟩ })
    | some group => (.error (.subscriptionNotFound stream group), l)
  ask := ask
  askAgain := ask
  ack l _ _ := (.error Pipe.closedError, l)
  nack l m _ _ := (.error Pipe.closedError, m, l)
  signal := Line.signal
  now := Line.now

/-! ## What asking comes to -/

theorem ask_cases (l : Line σ) (c : Connection) :
    (l.feed.items = [] ∧ l.ask c = (.pending, c, l)) ∨
    (∃ slot items, l.feed.items = .ok slot :: items ∧ l.ask c =
      (.delivery (slot.delivery 0), c, { l with feed := { l.feed with items := items } })) ∨
    ∃ e items, l.feed.items = .error e :: items ∧ l.ask c =
      (.failed (readerError l.feed.stream e), c,
        { l with feed := { l.feed with items := items } }) := by
  obtain ⟨client, ⟨stream, items⟩, signal, now⟩ := l
  cases items with
  | nil => exact .inl ⟨rfl, rfl⟩
  | cons item items =>
      cases item with
      | ok slot => exact .inr (.inl ⟨slot, items, rfl, rfl⟩)
      | error e => exact .inr (.inr ⟨e, items, rfl, rfl⟩)

end Line

end EventSourcing.Remote
