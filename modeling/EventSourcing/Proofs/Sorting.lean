import Mathlib.Data.List.Nodup

/-!
# Order by a number

What it means that a list is put in the order of a number that each of its members has
(`Arranges`). There is one such order only (`Arranges.eq`), sorting finds it (`arranges_mergeSort`),
and it does not depend on how the list was ordered before, as long as members with the same number
are not swapped (`Arranges.congr`).
-/

namespace EventSourcing

variable {α : Type} {key : α → Nat} {xs ys zs ordered ordered' : List α}

/-- The list has the members of the other in the order of the key: for each key there are the same
members, as they came. -/
structure Arranges (key : α → Nat) (ordered xs : List α) : Prop where
  increasing : ordered.Pairwise fun a b => key a ≤ key b
  same : ∀ k, (ordered.filter fun a => key a = k) = xs.filter fun a => key a = k

theorem mem_of_filter_eq {a : α}
    (h : ∀ k, (xs.filter fun a => key a = k) = ys.filter fun a => key a = k) (ha : a ∈ xs) :
    a ∈ ys := by
  have hm : a ∈ xs.filter fun b => key b = key a := by simp [ha]
  rw [h] at hm
  exact (List.mem_filter.1 hm).1

namespace Arranges

theorem congr (h : Arranges key ordered xs)
    (hs : ∀ k, (ys.filter fun a => key a = k) = xs.filter fun a => key a = k) :
    Arranges key ordered ys :=
  ⟨h.increasing, fun k => (h.same k).trans (hs k).symm⟩

theorem eq (h : Arranges key ordered xs) (h' : Arranges key ordered' xs) : ordered = ordered' := by
  have hsame k := (h.same k).trans (h'.same k).symm
  have hup := h.increasing
  have hup' := h'.increasing
  clear h h'
  induction ordered generalizing ordered' with
  | nil =>
      cases ordered' with
      | nil => rfl
      | cons a' rest' => simpa using hsame (key a')
  | cons a rest ih =>
      cases ordered' with
      | nil => simpa using hsame (key a)
      | cons a' rest' =>
          -- Both lists start with a member that has the lowest key.
          have hle : key a' ≤ key a := by
            have hm := mem_of_filter_eq hsame List.mem_cons_self
            cases hm with
            | head => simp
            | tail _ hm => exact (List.pairwise_cons.1 hup').1 a hm
          have hge : key a ≤ key a' := by
            have hm := mem_of_filter_eq (fun k => (hsame k).symm) List.mem_cons_self
            cases hm with
            | head => simp
            | tail _ hm => exact (List.pairwise_cons.1 hup).1 a' hm
          have hfirst := hsame (key a)
          simp only [List.filter_cons, Nat.le_antisymm hle hge, decide_true, if_true,
            List.cons.injEq] at hfirst
          obtain ⟨rfl, hrest⟩ := hfirst
          congr 1
          apply ih
          · intro k
            by_cases hk : key a = k
            · rwa [← hk]
            · simpa [List.filter_cons, hk] using hsame k
          · exact (List.pairwise_cons.1 hup).2
          · exact (List.pairwise_cons.1 hup').2

/-- What has higher keys than all that is there is arranged behind it. -/
theorem append (h : Arranges key ordered xs) (h' : Arranges key ordered' ys)
    (hlt : ∀ a ∈ xs, ∀ b ∈ ys, key a < key b) :
    Arranges key (ordered ++ ordered') (xs ++ ys) where
  increasing := by
    apply List.pairwise_append.2
    refine ⟨h.increasing, h'.increasing, fun a ha b hb => ?_⟩
    exact Nat.le_of_lt (hlt a (mem_of_filter_eq h.same ha) b (mem_of_filter_eq h'.same hb))
  same k := by simp only [List.filter_append, h.same, h'.same]

end Arranges

section Keys

variable (key : α → Nat)

theorem leKey_trans (a b c : α) (h : decide (key a ≤ key b)) (h' : decide (key b ≤ key c)) :
    decide (key a ≤ key c) := by
  simp only [decide_eq_true_eq] at *
  omega

theorem leKey_total (a b : α) : decide (key a ≤ key b) || decide (key b ≤ key a) := by
  simp only [Bool.or_eq_true, decide_eq_true_eq]
  omega

/-- Sorting does not swap members with the same key. -/
theorem arranges_mergeSort (xs : List α) :
    Arranges key (xs.mergeSort fun a b => key a ≤ key b) xs where
  increasing := by
    simpa only [decide_eq_true_eq] using
      List.pairwise_mergeSort (leKey_trans key) (leKey_total key) xs
  same k := by
    have hp := (List.mergeSort_perm xs fun a b => key a ≤ key b).filter fun a => key a = k
    have hs : (xs.filter fun a => key a = k).Sublist (xs.mergeSort fun a b => key a ≤ key b) := by
      apply List.sublist_mergeSort (leKey_trans key) (leKey_total key)
      · apply List.pairwise_of_forall_mem_list
        simp +contextual
      · exact List.filter_sublist
    have hf := hs.filter fun a => key a = k
    rw [List.filter_filter] at hf
    simp only [Bool.and_self] at hf
    exact (hf.eq_of_length hp.length_eq.symm).symm

end Keys

/-- If no two members have the same key, any order will do. -/
theorem filter_eq_of_perm (hn : (xs.map key).Nodup) (hp : ys.Perm xs) (k : Nat) :
    (ys.filter fun a => key a = k) = xs.filter fun a => key a = k := by
  have hany (zs : List α) : zs.Pairwise fun _ _ => True := List.pairwise_of_forall fun _ _ => trivial
  apply List.Perm.eq_of_pairwise _ (hany _) (hany _) (hp.filter _)
  intro a b ha hb _ _
  simp only [List.mem_filter, decide_eq_true_eq, hp.mem_iff] at ha hb
  exact List.inj_on_of_nodup_map hn ha.1 hb.1 (ha.2.trans hb.2.symm)

/-! ## The least member -/

theorem le_of_minOn?_eq_some {a b : α} (h : xs.minOn? key = some a) (hb : b ∈ xs) :
    key a ≤ key b := by
  simpa only [h, Option.get_some] using List.apply_get_minOn?_le_of_mem (f := key) hb

theorem minOn?_eq_of_perm (hn : (xs.map key).Nodup) (hp : ys.Perm xs) :
    ys.minOn? key = xs.minOn? key := by
  cases xs with
  | nil => rw [hp.eq_nil]
  | cons x xs =>
      have hx := List.isSome_minOn?_of_mem (f := key) (List.mem_cons_self (a := x) (l := xs))
      have hy := List.isSome_minOn?_of_mem (f := key) (hp.mem_iff.2 List.mem_cons_self)
      obtain ⟨a, ha⟩ := Option.isSome_iff_exists.1 hx
      obtain ⟨b, hb⟩ := Option.isSome_iff_exists.1 hy
      have hma := List.minOn?_mem ha
      have hmb := hp.mem_iff.1 (List.minOn?_mem hb)
      rw [ha, hb, List.inj_on_of_nodup_map hn hmb hma]
      apply Nat.le_antisymm
      · exact le_of_minOn?_eq_some hb (hp.mem_iff.2 hma)
      · exact le_of_minOn?_eq_some ha hmb

/-! ## Shuffling -/

/-- The third list takes its members from the other two, each of which keeps its order. -/
inductive Shuffled : List α → List α → List α → Prop
  | nil : Shuffled [] [] []
  | left {a : α} {xs ys zs : List α} (h : Shuffled xs ys zs) : Shuffled (a :: xs) ys (a :: zs)
  | right {b : α} {xs ys zs : List α} (h : Shuffled xs ys zs) : Shuffled xs (b :: ys) (b :: zs)

/-- No two members with the same key are swapped when lists are shuffled of which the one has higher
keys than the other. -/
theorem Shuffled.filter_eq (h : Shuffled xs ys zs) (hlt : ∀ a ∈ xs, ∀ b ∈ ys, key a < key b)
    (k : Nat) : (zs.filter fun a => key a = k) = (xs ++ ys).filter fun a => key a = k := by
  induction h with
  | nil => rfl
  | @left a xs ys zs h ih =>
      have ih := ih fun a ha => hlt a (List.mem_cons_of_mem _ ha)
      simp only [List.cons_append, List.filter_cons, ih]
  | @right b xs ys zs h ih =>
      have ih := ih fun a ha b hb => hlt a ha b (List.mem_cons_of_mem _ hb)
      simp only [List.filter_append, List.filter_cons] at ih ⊢
      by_cases hb : key b = k
      · have hnone : (xs.filter fun a => key a = k) = [] := by
          apply List.filter_eq_nil_iff.2
          intro a ha
          have := hlt a ha b List.mem_cons_self
          simp only [decide_eq_true_eq]
          omega
        simp [hb, ih, hnone]
      · simp [hb, ih]

end EventSourcing
