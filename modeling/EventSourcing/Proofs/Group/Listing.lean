import EventSourcing.Proofs.Group.Redelivery
import EventSourcing.Proofs.Sorting

/-!
# The order in which records in flight are listed

A group keeps what is in flight in no particular order. Since no two records that it may hand out
again share a position (`Group.Timed.nodup_positions`), all that it does with them is the same
however they are listed (`Server.listing_never_shows`).
-/

namespace EventSourcing

namespace Group

/-! ## Positions -/

namespace Timed

variable {g : Group} {log : Log} {now : Nat} {t : Timeline}

/-- What may be handed out again was handed out before. -/
theorem exists_handedOut (h : g.Timed log now t) {d : Delivery} (hd : d ∈ g.live) :
    ∃ time, .handedOut d time ∈ t := by
  have hlast : ∃ time, (t.handOuts d.ackId).getLast? = some (d, time) := by
    rcases List.mem_append.1 hd with hd | hd
    · obtain ⟨f, hf, rfl⟩ := List.mem_map.1 hd
      exact ⟨f.sentAt, h.sent f hf⟩
    · exact (h.retry d hd).1
  obtain ⟨time, hlast⟩ := hlast
  exact ⟨time, (Timeline.mem_handOuts.1 (List.mem_of_getLast? hlast)).1⟩

theorem nodup_positions (h : g.Timed log now t) : (g.live.map (·.position)).Nodup := by
  have hn := nodup_live h.nodup
  apply List.Nodup.map_on _ hn.of_map
  intro d hd d' hd' hp
  obtain ⟨time, ht⟩ := h.exists_handedOut hd
  obtain ⟨time', ht'⟩ := h.exists_handedOut hd'
  exact List.inj_on_of_nodup_map hn hd hd' (h.disciplined.ackId_unique ht ht' hp)

end Timed

/-! ## Listings -/

/-- The group with its records in flight listed in this way. -/
def relist (g : Group) (sent : List Sent) : Group := { g with sent := sent }

/-- However the records in flight are listed, the group does the same, and they are listed in some
way after it. -/
def IgnoresListing (g : Group) (act : Group → Option Delivery × Group) : Prop :=
  ∀ sent, sent.Perm g.sent → ∃ sent', sent'.Perm (act g).2.sent ∧
    act (g.relist sent) = ((act g).1, (act g).2.relist sent')

/-- No two records in flight share a position. -/
def Apart (g : Group) : Prop := (g.inFlight.map (·.position)).Nodup

variable {g : Group} {sent : List Sent}

theorem apart_of_nodup (h : (g.live.map (·.position)).Nodup) : g.Apart := by
  rw [live, List.map_append] at h
  exact (List.nodup_append.1 h).1

/-- What is in flight goes back in the order of positions. -/
theorem recallAll_relist (ha : g.Apart) (hp : sent.Perm g.sent) :
    (g.relist sent).recallAll = g.recallAll := by
  have hsame := filter_eq_of_perm ha (hp.map (·.delivery))
  have hsorted := (arranges_mergeSort (·.position) (sent.map (·.delivery))).eq
    ((arranges_mergeSort (·.position) g.inFlight).congr hsame)
  simp only [recallAll, relist, hsorted, inFlight]

theorem increasing_mergeSort_inFlight (ha : g.Apart) :
    (g.inFlight.mergeSort fun d d' => d.position ≤ d'.position).Pairwise
      fun d d' => d.position < d'.position := by
  have hle := (arranges_mergeSort (·.position) g.inFlight).increasing
  have hne : (g.inFlight.mergeSort fun d d' => d.position ≤ d'.position).Pairwise
      fun d d' => d.position ≠ d'.position := by
    apply List.pairwise_map.1
    exact ((List.mergeSort_perm _ _).map _).nodup_iff.2 ha
  exact (hle.and hne).imp fun h => Nat.lt_of_le_of_ne h.1 h.2

theorem expired?_relist (ha : g.Apart) (hp : sent.Perm g.sent) (now : Nat) :
    (g.relist sent).expired? now = g.expired? now := by
  unfold Apart at ha
  rw [inFlight, List.map_map] at ha
  apply minOn?_eq_of_perm
  · exact ha.sublist (List.filter_sublist.map _)
  · exact hp.filter _

/-! ## Polls -/

theorem ignoresListing_pollRetry (g : Group) (now : Nat) :
    g.IgnoresListing fun g => g.pollRetry now := by
  intro sent hp
  have hspent : (g.relist sent).isSpent = g.isSpent := rfl
  have hretry : (g.relist sent).retry = g.retry := rfl
  simp only [pollRetry, hspent, hretry]
  cases g.retry.dropWhile g.isSpent with
  | nil => exact ⟨sent, hp, rfl⟩
  | cons d rest => exact ⟨_, (hp.filter _).append_right _, rfl⟩

theorem ignoresListing_pollExpired (g : Group) (f : Sent) (now : Nat) :
    g.IgnoresListing fun g => g.pollExpired f now := by
  intro sent hp
  have hspent : (g.relist sent).isSpent = g.isSpent := rfl
  simp only [pollExpired, hspent]
  cases g.isSpent f.delivery with
  | true => exact ⟨_, hp.filter _, rfl⟩
  | false => exact ⟨_, ((hp.filter _).filter _).append_right _, rfl⟩

theorem ignoresListing_pollNew (g : Group) (entries : List Entry) (now : Nat) :
    g.IgnoresListing fun g => g.pollNew entries now := by
  intro sent hp
  have hnext : (g.relist sent).next? entries = g.next? entries := rfl
  simp only [pollNew, hnext]
  cases g.next? entries with
  | none => exact ⟨sent, hp, rfl⟩
  | some a => exact ⟨_, (hp.filter _).append_right _, rfl⟩

theorem sent_pollRetry {g' : Group} {now : Nat} (h : g.pollRetry now = (none, g')) :
    g'.sent = g.sent := by
  unfold pollRetry at h
  cases hd : g.retry.dropWhile g.isSpent with
  | nil =>
      simp only [hd, Prod.mk.injEq, true_and] at h
      rw [← h]
  | cons d rest => simp [hd] at h

theorem ignoresListing_poll (ha : g.Apart) (entries : List Entry) (now : Nat) :
    g.IgnoresListing fun g => g.poll entries now := by
  intro sent hp
  obtain ⟨sent₁, hp₁, he₁⟩ := g.ignoresListing_pollRetry now sent hp
  simp only at hp₁ he₁
  simp only [poll, he₁]
  cases hr : g.pollRetry now with
  | mk answer g₁ =>
      rw [hr] at hp₁
      cases answer with
      | some d => exact ⟨sent₁, hp₁, rfl⟩
      | none =>
          have ha₁ : g₁.Apart := by
            unfold Apart inFlight
            rwa [sent_pollRetry hr]
          simp only [expired?_relist ha₁ hp₁]
          cases g₁.expired? now with
          | some f => exact g₁.ignoresListing_pollExpired f now sent₁ hp₁
          | none => exact g₁.ignoresListing_pollNew entries now sent₁ hp₁

end Group

/-! ## The main result -/

namespace Server

/-- No two records that a group may hand out again share a position. So in whatever order its
records in flight are listed, they go back before the retry queue in the order of positions when
connections are dropped, and a poll finds the same record whose time is over and comes to the
same. -/
theorem listing_never_shows (now : Nat) (stream group : String) (rs : List Request) {g : Group}
    (hg : ((start now).after rs).group? stream group = some g) :
    (g.live.map (·.position)).Nodup ∧
    (∃ ds, ds.Perm g.inFlight ∧ (ds.Pairwise fun d d' => d.position < d'.position) ∧
      ∀ sent, sent.Perm g.sent →
        (g.relist sent).recallAll = { g with sent := [], retry := ds ++ g.retry }) ∧
    ∀ time, (∀ sent, sent.Perm g.sent → (g.relist sent).expired? time = g.expired? time) ∧
      ∀ entries, g.IgnoresListing fun g => g.poll entries time := by
  have hn := (((timed_start stream group now).after rs).present g hg).nodup_positions
  have ha := Group.apart_of_nodup hn
  constructor
  · exact hn
  constructor
  · exact ⟨_, List.mergeSort_perm _ _, Group.increasing_mergeSort_inFlight ha,
      fun sent hp => Group.recallAll_relist ha hp⟩
  · intro time
    exact ⟨fun sent hp => Group.expired?_relist ha hp time,
      fun entries => Group.ignoresListing_poll ha entries time⟩

/-- Three records are handed out, and the first one is handed back. -/
def backRun : List Request :=
  let reader : Member := ⟨"order-1", "readers", 0, false⟩
  [.createGroup "order-1" "readers" {},
    .call (.append "order-1" .any [⟨"Placed", [], []⟩, ⟨"Paid", [], []⟩, ⟨"Shipped", [], []⟩]),
    .pollMember reader, .pollMember reader, .pollMember reader, .nack reader [0] .retry]

theorem listing_never_shows_backRun :
    ∃ g, ((start 0).after backRun).group? "order-1" "readers" = some g ∧
      g.inFlight.map (·.position) = [1, 2] ∧
      (g.relist g.sent.reverse).recallAll.retry.map (·.position) = [1, 2, 0] := by
  obtain ⟨g, hg, hsent, hretry⟩ : ∃ g, ((start 0).after backRun).group? "order-1" "readers" = some g ∧
      g.inFlight.map (·.position) = [1, 2] ∧ g.retry.map (·.position) = [0] :=
    ⟨_, rfl, rfl, rfl⟩
  obtain ⟨-, ⟨ds, hperm, hup, hrecall⟩, -⟩ := listing_never_shows 0 "order-1" "readers" backRun hg
  have hds : ds.map (·.position) = [1, 2] := by
    apply List.Perm.eq_of_pairwise _ (List.pairwise_map.2 hup) (by decide) (hsent ▸ hperm.map _)
    omega
  refine ⟨g, hg, hsent, ?_⟩
  rw [hrecall _ (List.reverse_perm _), List.map_append, hds, hretry]
  rfl

end Server

end EventSourcing
