import EventSourcing.Proofs.Group.Due
import EventSourcing.Proofs.Group.Listing

/-!
# Records that are handed back

Records that are handed back to be retried go behind the others that wait, in the order in which they
are named; with a request to stop each of them goes before the others, so that they come out in
reverse (`Server.handed_back_in_turn`). What waits is handed out again in its order, before all else
(`Group.handsOut_repeats`).
-/

namespace EventSourcing

/-! ## Lists of elements with different keys -/

section Keys

variable {α : Type} {key : α → RecordId} {xs : List α} {id : RecordId}

theorem filter_ne_of_notMem (h : id ∉ xs.map key) : (xs.filter fun a => key a ≠ id) = xs := by
  apply List.filter_eq_self.2
  intro a ha
  apply decide_eq_true
  intro he
  exact h (List.mem_map.2 ⟨a, ha, he⟩)

theorem filter_ne_filter_notMem (key : α → RecordId) (xs : List α) (id : RecordId)
    (ids : List RecordId) : ((xs.filter fun a => key a ≠ id).filter fun a => key a ∉ ids) =
      xs.filter fun a => key a ∉ id :: ids := by
  rw [List.filter_filter]
  apply List.filter_congr
  intro a _
  simp [Bool.and_comm]

theorem eraseP_eq_filter (hn : (xs.map key).Nodup) (id : RecordId) :
    (xs.eraseP fun a => key a = id) = xs.filter fun a => key a ≠ id := by
  induction xs with
  | nil => rfl
  | cons a xs ih =>
      simp only [List.map_cons, List.nodup_cons] at hn
      by_cases ha : key a = id
      · rw [List.eraseP_cons_of_pos (by simpa using ha), List.filter_cons_of_neg (by simpa using ha),
          filter_ne_of_notMem (ha ▸ hn.1)]
      · rw [List.eraseP_cons_of_neg (by simpa using ha), List.filter_cons_of_pos (by simpa using ha),
          ih hn.2]

theorem find?_key_eq_some (key : α → RecordId) (hn : (xs.map key).Nodup) {a : α} (ha : a ∈ xs) :
    (xs.find? fun b => key b = key a) = some a := by
  cases hx : xs.find? fun b => key b = key a with
  | none => simpa using List.find?_eq_none.1 hx a ha
  | some b =>
      have hkey : key b = key a := by simpa using List.find?_some hx
      rw [List.inj_on_of_nodup_map hn (List.mem_of_find?_eq_some hx) ha hkey]

end Keys

namespace Group

/-- The group without what it may hand out again of these records. -/
def without (g : Group) (ids : List RecordId) : Group :=
  { g with
    sent := g.sent.filter fun f => f.delivery.ackId ∉ ids
    retry := g.retry.filter fun d => d.ackId ∉ ids }

/-- What is handed out of these deliveries when it is their turn. -/
def repeats (g : Group) (ds : List Delivery) : List Delivery :=
  (ds.filter fun d => !g.isSpent d).map Delivery.again

/-- Whenever the group is asked as often, it hands out just these deliveries. -/
def HandsOut (g : Group) (ds : List Delivery) : Prop :=
  ∀ entries times, times.length = ds.length → g.answers entries times = ds.map some

/-- The queue of what is to be retried when deliveries have been handed back. -/
def queueAfter (others ds : List Delivery) : Refusal → List Delivery
  | .retry => others ++ ds
  | .stop => ds.reverse ++ others
  | .park | .skip => others

variable {g : Group} {d : Delivery} {ds : List Delivery} {ids : List RecordId}

/-! ## Taking back -/

theorem takeBack?_eq (hn : g.unsettled.Nodup) (hd : d ∈ g.live) :
    g.takeBack? d.ackId = some (d, { g with
      sent := g.sent.filter fun f => f.delivery.ackId ≠ d.ackId
      retry := g.retry.filter fun d' => d'.ackId ≠ d.ackId }) := by
  have hlive := nodup_live hn
  rw [live, ackIds, List.map_append, inFlight, List.map_map] at hlive
  obtain ⟨hsent, hretry, hapart⟩ := List.nodup_append.1 hlive
  unfold takeBack?
  rcases List.mem_append.1 hd with hd | hd
  · obtain ⟨f, hf, rfl⟩ := List.mem_map.1 hd
    have hnot : f.delivery.ackId ∉ ackIds g.retry := fun h =>
      hapart _ (List.mem_map_of_mem hf) _ h rfl
    have hfind := find?_key_eq_some (fun f : Sent => f.delivery.ackId) hsent hf
    simp only [hfind, filter_ne_of_notMem hnot]
    rfl
  · have hnot : d.ackId ∉ g.sent.map fun f => f.delivery.ackId := fun h =>
      hapart _ h _ (List.mem_map_of_mem hd) rfl
    have hnone : (g.sent.find? fun f => f.delivery.ackId = d.ackId) = none := by
      apply List.find?_eq_none.2
      intro f hf
      simpa using fun he => hnot (List.mem_map.2 ⟨f, hf, he⟩)
    simp only [hnone, find?_key_eq_some _ hretry hd, eraseP_eq_filter hretry,
      filter_ne_of_notMem hnot]

theorem isOutstanding_iff (hn : g.unsettled.Nodup) {id : RecordId} :
    g.isOutstanding id ↔ ∃ d ∈ g.live, d.ackId = id := by
  constructor
  · intro h
    obtain ⟨⟨d, g'⟩, ht⟩ := Option.isSome_iff_exists.1 h
    obtain ⟨hid, hr⟩ := takeBack?_released hn ht
    exact ⟨d, hr.mem, hid⟩
  · rintro ⟨d, hd, rfl⟩
    rw [isOutstanding, takeBack?_eq hn hd]
    rfl

theorem exists_deliveries (hn : g.unsettled.Nodup) (ho : ∀ id ∈ ids, g.isOutstanding id) :
    ∃ ds, ackIds ds = ids ∧ ds ⊆ g.live := by
  induction ids with
  | nil => exact ⟨[], rfl, List.nil_subset _⟩
  | cons id ids ih =>
      obtain ⟨ds, hds, hlive⟩ := ih fun id hid => ho id (List.mem_cons_of_mem _ hid)
      obtain ⟨d, hd, rfl⟩ := (isOutstanding_iff hn).1 (ho id List.mem_cons_self)
      exact ⟨d :: ds, by simp [hds], List.cons_subset.2 ⟨hd, hlive⟩⟩

/-! ## Handing back -/

theorem nackOne_eq (hn : g.unsettled.Nodup) (hd : d ∈ g.live) {action : Refusal}
    (ha : action = .retry ∨ action = .stop) : g.nackOne action d.ackId = { g with
      sent := g.sent.filter fun f => f.delivery.ackId ≠ d.ackId
      retry := queueAfter (g.retry.filter fun d' => d'.ackId ≠ d.ackId) [d] action } := by
  rw [nackOne, takeBack?_eq hn hd]
  rcases ha with rfl | rfl <;> rfl

theorem mem_live_nackOne (hn : g.unsettled.Nodup) (hd : d ∈ g.live) {action : Refusal}
    (ha : action = .retry ∨ action = .stop) {d' : Delivery} (hd' : d' ∈ g.live)
    (hne : d'.ackId ≠ d.ackId) : d' ∈ (g.nackOne action d.ackId).live := by
  rw [nackOne_eq hn hd ha]
  simp only [live, inFlight, List.mem_append, List.mem_map, List.mem_filter,
    decide_eq_true_eq] at hd' ⊢
  rcases hd' with ⟨f, hf, rfl⟩ | hd'
  · exact .inl ⟨f, ⟨hf, hne⟩, rfl⟩
  · rcases ha with rfl | rfl <;> simp [queueAfter, hd', hne]

/-- Deliveries are handed back one by one, each to the queue that those before it have left. -/
theorem nack_eq_queueAfter (hn : g.unsettled.Nodup) {action : Refusal}
    (ha : action = .retry ∨ action = .stop) (hds : ds ⊆ g.live) (hids : (ackIds ds).Nodup) :
    g.nack (ackIds ds) action = { g.without (ackIds ds) with
      retry := queueAfter (g.without (ackIds ds)).retry ds action } := by
  -- The first one goes to its end of the queue before the others are looked for, which it leaves
  -- where they are since its id is none of theirs.
  induction ds generalizing g with
  | nil => rcases ha with rfl | rfl <;> simp [nack, without, queueAfter]
  | cons d ds ih =>
      obtain ⟨hnot, hids⟩ := List.nodup_cons.1 hids
      obtain ⟨hd, hds⟩ := List.cons_subset.1 hds
      have hskip : action ≠ .skip := by rcases ha with rfl | rfl <;> simp
      have hn₁ := (nackOne_rearranged hn hskip d.ackId).nodup hn
      have hds₁ : ds ⊆ (g.nackOne action d.ackId).live := fun d' hd' =>
        mem_live_nackOne hn hd ha (hds hd') fun he => hnot (List.mem_map.2 ⟨d', hd', he⟩)
      have hkeep : ([d].filter fun d' => d'.ackId ∉ ackIds ds) = [d] :=
        List.filter_eq_self.2 (by simpa using hnot)
      rw [ackIds, List.map_cons, nack, List.foldl_cons, ← nack, ← ackIds, ih hn₁ hds₁ hids,
        nackOne_eq hn hd ha]
      have hsent := filter_ne_filter_notMem (fun f : Sent => f.delivery.ackId) g.sent d.ackId
        (ackIds ds)
      have hretry := filter_ne_filter_notMem (fun d : Delivery => d.ackId) g.retry d.ackId
        (ackIds ds)
      rcases ha with rfl | rfl
      · simp only [without, queueAfter, List.filter_append, hsent, hretry, hkeep, List.append_assoc,
          List.singleton_append]
      · simp only [without, queueAfter, List.filter_append, hsent, hretry, hkeep, List.reverse_cons,
          List.reverse_nil, List.nil_append, List.append_assoc]

/-! ## Handing out again -/

theorem repeats_eq (g : Group) (ds : List Delivery) :
    g.repeats ds = match ds.dropWhile g.isSpent with
      | [] => []
      | d :: rest => d.again :: g.repeats rest := by
  induction ds with
  | nil => rfl
  | cons d ds ih =>
      cases hs : g.isSpent d with
      | true => simpa [repeats, hs] using ih
      | false => simp [repeats, hs]

@[simp] theorem repeats_append (g : Group) (ds ds' : List Delivery) :
    g.repeats (ds ++ ds') = g.repeats ds ++ g.repeats ds' := by
  simp [repeats]

@[simp] theorem repeats_reverse (g : Group) (ds : List Delivery) :
    g.repeats ds.reverse = (g.repeats ds).reverse := by
  simp [repeats, List.filter_reverse]

theorem poll_of_repeats (h : g.repeats g.retry = d :: ds) (entries : List Entry) (now : Nat) :
    (g.poll entries now).1 = some d ∧
      (g.poll entries now).2.repeats (g.poll entries now).2.retry = ds := by
  rw [repeats_eq] at h
  unfold poll pollRetry
  cases hd : g.retry.dropWhile g.isSpent with
  | nil => simp [hd] at h
  | cons d₀ rest =>
      simp only [hd, List.cons.injEq] at h
      obtain ⟨rfl, rfl⟩ := h
      exact ⟨rfl, rfl⟩

/-- What waits to be handed out again is handed out first, in its order. -/
theorem handsOut_repeats (g : Group) : g.HandsOut (g.repeats g.retry) := by
  intro entries times hlen
  -- A poll leaves the rest of what is to be repeated, so the induction is on that.
  generalize hr : g.repeats g.retry = ds at hlen ⊢
  induction ds generalizing g times with
  | nil =>
      obtain rfl := List.length_eq_zero_iff.1 hlen
      rfl
  | cons d ds ih =>
      cases times with
      | nil => cases hlen
      | cons now times =>
          obtain ⟨hfirst, hrest⟩ := poll_of_repeats hr entries now
          rw [answers, hfirst, ih _ _ hrest (Nat.succ.inj hlen), List.map_cons]

theorem increasing_repeats (g : Group) (h : ds.Pairwise fun d d' => d.position < d'.position) :
    (g.repeats ds).Pairwise fun d d' => d.position < d'.position := by
  unfold repeats
  exact List.pairwise_map.2 (h.filter _)

theorem handsOut_nack (hn : g.unsettled.Nodup) {action : Refusal}
    (ha : action = .retry ∨ action = .stop) (hds : ds ⊆ g.live) (hids : (ackIds ds).Nodup) :
    (g.nack (ackIds ds) action).HandsOut
      (g.repeats (queueAfter (g.without (ackIds ds)).retry ds action)) := by
  rw [nack_eq_queueAfter hn ha hds hids]
  exact handsOut_repeats { g.without (ackIds ds) with
    retry := queueAfter (g.without (ackIds ds)).retry ds action }

theorem handsOut_recallAll (g : Group) : g.recallAll.HandsOut
    (g.repeats (g.inFlight.mergeSort fun d d' => d.position ≤ d'.position) ++ g.repeats g.retry) := by
  rw [← repeats_append]
  exact handsOut_repeats g.recallAll

end Group

/-! ## The main result -/

namespace Server

/-- Records that a group may hand out again and that are handed back, each once, in any order, are
those deliveries of it. To be retried, they go behind the others that wait, as they are named; with
a request to stop, they go before them, the last one first. Whoever is handed records next gets what
waits in its order, without what may not be repeated. So records named in the order of positions are
handed out in that order when they are to be retried, in the reverse order when the reader stops, and
records in flight are handed out in that order when connections are dropped. -/
theorem handed_back_in_turn (now : Nat) (stream group : String) (rs : List Request) {g : Group}
    (hg : ((start now).after rs).group? stream group = some g) {ids : List RecordId}
    (hids : ids.Nodup) (ho : ∀ id ∈ ids, g.isOutstanding id) :
    ∃ ds, ackIds ds = ids ∧ ds ⊆ g.live ∧
      (let others := (g.without ids).retry
       (g.nack ids .retry = { g.without ids with retry := others ++ ds } ∧
          (g.nack ids .retry).HandsOut (g.repeats others ++ g.repeats ds)) ∧
       (g.nack ids .stop = { g.without ids with retry := ds.reverse ++ others } ∧
          (g.nack ids .stop).HandsOut ((g.repeats ds).reverse ++ g.repeats others))) ∧
      (∃ dropped, dropped.Perm g.inFlight ∧
        (dropped.Pairwise fun d d' => d.position < d'.position) ∧
        g.recallAll.HandsOut (g.repeats dropped ++ g.repeats g.retry)) ∧
      ∀ ds : List Delivery, (ds.Pairwise fun d d' => d.position < d'.position) →
        (g.repeats ds).Pairwise fun d d' => d.position < d'.position := by
  have ht := ((timed_start stream group now).after rs).present g hg
  have ha := Group.apart_of_nodup ht.nodup_positions
  obtain ⟨ds, rfl, hds⟩ := Group.exists_deliveries ht.nodup ho
  refine ⟨ds, rfl, hds, ⟨⟨?_, ?_⟩, ?_, ?_⟩, ?_, ?_⟩
  · exact Group.nack_eq_queueAfter ht.nodup (.inl rfl) hds hids
  · simpa [Group.queueAfter] using Group.handsOut_nack ht.nodup (.inl rfl) hds hids
  · exact Group.nack_eq_queueAfter ht.nodup (.inr rfl) hds hids
  · simpa [Group.queueAfter] using Group.handsOut_nack ht.nodup (.inr rfl) hds hids
  · exact ⟨_, List.mergeSort_perm _ _, Group.increasing_mergeSort_inFlight ha,
      g.handsOut_recallAll⟩
  · exact fun ds h => g.increasing_repeats h

/-- Three records are handed out, and the first and the third are handed back. -/
def queuedRun : List Request :=
  let reader : Member := ⟨"order-1", "readers", 0, false⟩
  [.createGroup "order-1" "readers" {},
    .call (.append "order-1" .any [⟨"Placed", [], []⟩, ⟨"Paid", [], []⟩, ⟨"Shipped", [], []⟩]),
    .pollMember reader, .pollMember reader, .pollMember reader, .nack reader [0, 2] .retry]

theorem handed_back_in_turn_queuedRun :
    ∃ g, ((start 0).after queuedRun).group? "order-1" "readers" = some g ∧ ackIds g.retry = [0, 2] ∧
      [1, 2].Nodup ∧ (∀ id ∈ [1, 2], g.isOutstanding id) ∧
      ackIds (g.nack [1, 2] .retry).retry = [0, 1, 2] := by
  obtain ⟨g, hg, hretry, ho⟩ : ∃ g, ((start 0).after queuedRun).group? "order-1" "readers" = some g ∧
      ackIds g.retry = [0, 2] ∧ ∀ id ∈ [1, 2], g.isOutstanding id :=
    ⟨_, rfl, rfl, by decide⟩
  have hids : [1, 2].Nodup := by decide
  obtain ⟨ds, hds, -, ⟨⟨hnack, -⟩, -⟩, -⟩ :=
    handed_back_in_turn 0 "order-1" "readers" queuedRun hg hids ho
  have hothers : ackIds (g.without [1, 2]).retry = (ackIds g.retry).filter (· ∉ [1, 2]) := by
    rw [ackIds, ackIds, List.filter_map]
    rfl
  refine ⟨g, hg, hretry, hids, ho, ?_⟩
  rw [hnack, ackIds, List.map_append, ← ackIds, ← ackIds, hothers, hretry, hds]
  rfl

/-- With a request to stop the two wait in reverse, and are handed out so. -/
theorem stop_reverses :
    ∃ g, ((start 0).after queuedRun).group? "order-1" "readers" = some g ∧
      (∀ id ∈ [1, 2], g.isOutstanding id) ∧ ackIds (g.nack [1, 2] .stop).retry = [2, 1, 0] ∧
      ((g.nack [1, 2] .stop).answers [] [0, 0, 0]).map (Option.map (·.position)) =
        [some 2, some 1, some 0] :=
  ⟨_, rfl, by decide, rfl, rfl⟩

end Server

end EventSourcing
