import Mathlib.Data.List.Sort

/-!
# Sorting with ties

Two sorted arrangements of one list differ only among tied elements, and a
stable sort shows the order in which these arrive. The first elements of a
sorted list are therefore determined exactly if no tie reaches into them.
-/

set_option autoImplicit false

namespace Jetski.StableSort

variable {α : Type}

/-! ## Two elements of a list -/

theorem pair_or (l : List α) (a b : α) (ha : a ∈ l) (hb : b ∈ l) (hne : a ≠ b) :
    [a, b].Sublist l ∨ [b, a].Sublist l := by
  induction l with
  | nil => cases ha
  | cons c l ih =>
    rcases List.mem_cons.mp ha with rfl | ha'
    · have hb' := (List.mem_cons.mp hb).resolve_left hne.symm
      exact Or.inl ((List.singleton_sublist.mpr hb').cons_cons a)
    · rcases List.mem_cons.mp hb with rfl | hb'
      · exact Or.inr ((List.singleton_sublist.mpr ha').cons_cons b)
      · exact (ih ha' hb').imp (fun h => h.cons c) (fun h => h.cons c)

/-- The pair is found behind its first element only if it starts the list. -/
theorem pair_cons (l : List α) (a b c : α) (h : [a, b].Sublist (c::l)) (hne : a ≠ c) :
    [a, b].Sublist l := by
  cases h with
  | cons _ h => exact h
  | cons_cons _ h => exact absurd rfl hne

theorem pair_exclusive (l : List α) (hn : l.Nodup) (a b : α) (h : [a, b].Sublist l) :
    ¬ [b, a].Sublist l := by
  induction l with
  | nil => cases h
  | cons c l ih =>
    intro h'
    rw [List.nodup_cons] at hn
    by_cases ha : a = c
    · by_cases hb : b = c
      · have hpair := h.nodup (List.nodup_cons.mpr hn)
        simp [ha, hb] at hpair
      · exact hn.1 (ha ▸ (pair_cons l b a c h' hb).subset (by simp))
    · have hab := pair_cons l a b c h ha
      by_cases hb : b = c
      · exact hn.1 (hb ▸ hab.subset (by simp))
      · exact ih hn.2 hab (pair_cons l b a c h' hb)

theorem find_of_pair (p : α → Bool) (l : List α) (hn : l.Nodup) (a b : α) (h : [a, b].Sublist l)
    (ha : p a = true) : l.find? p ≠ some b := by
  induction l with
  | nil => cases h
  | cons c l ih =>
    rw [List.nodup_cons] at hn
    have hb : b ∈ l := by
      by_cases hac : a = c
      · subst hac
        have htail : [b].Sublist l := by
          cases h with
          | cons _ h => exact (List.sublist_cons_self a [b]).trans h
          | cons_cons _ h => exact h
        exact List.singleton_sublist.mp htail
      · exact (pair_cons l a b c h hac).subset (by simp)
    have hcb : c ≠ b := fun heq => hn.1 (heq ▸ hb)
    by_cases hc : p c = true
    · rw [List.find?_cons_of_pos hc]
      exact fun heq => hcb (Option.some.inj heq)
    · rw [List.find?_cons_of_neg hc]
      have hac : a ≠ c := fun heq => hc (heq ▸ ha)
      exact ih hn.2 (pair_cons l a b c h hac)

/-- A list that reads the same backwards repeats an element. -/
theorem reverse_ne (l : List α) (hn : l.Nodup) (a b : α) (ha : a ∈ l) (hb : b ∈ l) (hne : a ≠ b) :
    l ≠ l.reverse := by
  intro heq
  rcases pair_or l a b ha hb hne with h | h
  · have hrev : [b, a].Sublist l.reverse := h.reverse
    exact pair_exclusive l hn a b h (heq ▸ hrev)
  · have hrev : [a, b].Sublist l.reverse := h.reverse
    exact pair_exclusive l hn b a h (heq ▸ hrev)

/-! ## First elements -/

/-- The list starts like an arrangement that another relation sorts exactly if the
relation puts each of its first elements before all that follow. -/
theorem take_resorted (s : α → α → Prop) [Std.Total s] [IsTrans α s] (n : ℕ) (l : List α)
    (hn : l.Nodup) :
    (∃ l' : List α, l'.Perm l ∧ l'.Pairwise s ∧ l.take n = l'.take n) ↔
      ∀ a ∈ l.take n, ∀ b, [a, b].Sublist l → s a b := by
  constructor
  · rintro ⟨l', hp, hs, htake⟩ a ha b hab
    have hne : a ≠ b := by
      intro heq
      have hpair := hab.nodup hn
      simp [heq] at hpair
    have ha' : a ∈ l'.take n := htake ▸ ha
    by_cases hb : b ∈ l.take n
    · rcases pair_or (l.take n) a b ha hb hne with h | h
      · rw [htake] at h
        exact List.pairwise_iff_forall_sublist.mp hs (h.trans (List.take_sublist n l'))
      · exact absurd (h.trans (List.take_sublist n l)) (pair_exclusive l hn a b hab)
    · have hbl : b ∈ l' := hp.mem_iff.mpr (hab.subset (by simp))
      rw [← List.take_append_drop n l', List.mem_append, ← htake] at hbl
      rw [← List.take_append_drop n l', List.pairwise_append] at hs
      exact hs.2.2 a ha' b (hbl.resolve_left hb)
  · intro h
    classical
    have hp := List.perm_insertionSort s (l.drop n)
    refine ⟨l.take n++(l.drop n).insertionSort s, ?_, ?_, ?_⟩
    · have hall := hp.append_left (l.take n)
      rwa [List.take_append_drop] at hall
    · rw [List.pairwise_append]
      refine ⟨?_, List.pairwise_insertionSort s _, ?_⟩
      · rw [List.pairwise_iff_forall_sublist]
        intro a b hab
        exact h a (hab.subset (by simp)) b (hab.trans (List.take_sublist n l))
      · intro a ha b hb
        have hb' : b ∈ l.drop n := hp.mem_iff.mp hb
        have hpair := (List.singleton_sublist.mpr ha).append (List.singleton_sublist.mpr hb')
        rw [List.take_append_drop] at hpair
        exact h a ha b hpair
    · by_cases hlen : n ≤ l.length
      · exact (List.take_left' (List.length_take_of_le hlen)).symm
      · have hdrop : l.drop n = [] := List.drop_eq_nil_of_le (by omega)
        rw [hdrop, List.insertionSort_nil, List.append_nil, List.take_take, min_self]

/-- Fewer elements than the first ones come before one of these. -/
theorem count_of_mem_take (r : α → α → Prop) [DecidableRel r] [Std.Refl r] (n : ℕ) (l : List α)
    (hs : l.Pairwise r) (a : α) (ha : a ∈ l.take n) : l.countP (fun c => ¬ r a c) < n := by
  have hsplit := hs
  rw [← List.take_append_drop n l, List.pairwise_append] at hsplit
  have hdrop : (l.drop n).countP (fun c => ¬ r a c) = 0 := by
    rw [List.countP_eq_zero]
    intro c hc
    simp [hsplit.2.2 a ha c hc]
  have htake : (l.take n).countP (fun c => ¬ r a c) < (l.take n).length := by
    refine lt_of_le_of_ne List.countP_le_length fun heq => ?_
    have hself := List.countP_eq_length.mp heq a ha
    simp [Std.Refl.refl (r := r) a] at hself
  have hall := @List.countP_append _ (fun c => decide (¬ r a c)) (l.take n) (l.drop n)
  rw [List.take_append_drop] at hall
  have hlen := List.length_take_le n l
  omega

/-- If none of the first elements is to come behind one that is not among them, they all
come before it. -/
theorem take_le_count (r : α → α → Prop) [DecidableRel r] (n : ℕ) (l : List α) (a : α)
    (ha : a ∈ l.drop n) (h : ∀ c ∈ l.take n, ¬ r a c) : n ≤ l.countP (fun c => ¬ r a c) := by
  have hall : (l.take n).countP (fun c => ¬ r a c) = (l.take n).length := by
    rw [List.countP_eq_length]
    intro c hc
    simp [h c hc]
  have hle := (List.take_sublist n l).countP_le (p := fun c => decide (¬ r a c))
  have hpos := List.length_pos_of_mem ha
  rw [List.length_drop] at hpos
  rw [hall, List.length_take] at hle
  omega

/-- An element that is found before all that are not to come before it is among the
first ones, if few are to come before it. -/
theorem mem_take_of_count (r : α → α → Prop) [DecidableRel r] (n : ℕ) (l : List α)
    (hn : l.Nodup) (a : α) (ha : a ∈ l)
    (h : ∀ b ∈ l, b ≠ a → r a b → [a, b].Sublist l) (hcount : l.countP (fun c => ¬ r a c) < n) :
    a ∈ l.take n := by
  by_contra hnot
  have hdrop : a ∈ l.drop n := by
    rw [← List.take_append_drop n l, List.mem_append] at ha
    exact ha.resolve_left hnot
  refine absurd (take_le_count r n l a hdrop ?_) (not_le.mpr hcount)
  intro c hc hac
  have hca : c ≠ a := fun heq => hnot (heq ▸ hc)
  have hpair := (List.singleton_sublist.mpr hc).append (List.singleton_sublist.mpr hdrop)
  rw [List.take_append_drop] at hpair
  exact pair_exclusive l hn c a hpair (h c (List.mem_of_mem_take hc) hca hac)

/-! ## Ties -/

section Ties
variable (r : α → α → Prop) [DecidableRel r]

/-- Of two tied elements that arrive in the other order the sort shows this. -/
theorem sort_reverse_ne (l : List α) (hn : l.Nodup) (a b : α) (ha : a ∈ l) (hb : b ∈ l)
    (hne : a ≠ b) (hab : r a b) (hba : r b a) :
    l.insertionSort r ≠ l.reverse.insertionSort r := by
  intro heq
  have hnodup := (List.perm_insertionSort r l).nodup_iff.mpr hn
  rcases pair_or l a b ha hb hne with h | h
  · have hrev : [b, a].Sublist l.reverse := h.reverse
    have h' := List.pair_sublist_insertionSort hba hrev
    rw [← heq] at h'
    exact pair_exclusive _ hnodup a b (List.pair_sublist_insertionSort hab h) h'
  · have hrev : [a, b].Sublist l.reverse := h.reverse
    have h' := List.pair_sublist_insertionSort hab hrev
    rw [← heq] at h'
    exact pair_exclusive _ hnodup b a (List.pair_sublist_insertionSort hba h) h'

section Refl
variable [Std.Refl r]

/-- The first elements are the same in two sorted arrangements if at least as many
elements come before any tie. -/
theorem take_eq (n : ℕ) (l l' : List α) (hp : l.Perm l') (hs : l.Pairwise r) (hs' : l'.Pairwise r)
    (h : ∀ a ∈ l, ∀ b ∈ l, a ≠ b → r a b → r b a → n ≤ l.countP (fun c => ¬ r a c)) :
    l.take n = l'.take n := by
  induction n generalizing l l' with
  | zero => rw [List.take_zero, List.take_zero]
  | succ n ih =>
    cases l with
    | nil =>
      have hnil := hp.nil_eq
      rw [← hnil]
    | cons x t =>
      cases l' with
      | nil => exact absurd hp.length_eq (by simp)
      | cons y t' =>
        have hfirst : ∀ c ∈ x::t, r x c := by
          intro c hc
          rcases List.mem_cons.mp hc with rfl | hc
          · exact Std.Refl.refl c
          · exact (List.pairwise_cons.mp hs).1 c hc
        have hfirst' : ∀ c ∈ y::t', r y c := by
          intro c hc
          rcases List.mem_cons.mp hc with rfl | hc
          · exact Std.Refl.refl c
          · exact (List.pairwise_cons.mp hs').1 c hc
        have hyl : y ∈ x::t := hp.mem_iff.mpr (.head _)
        have hxl : x ∈ y::t' := hp.mem_iff.mp (.head _)
        have hxy : x = y := by
          by_contra hne
          have hcount := h x (.head _) y hyl hne (hfirst y hyl) (hfirst' x hxl)
          have hzero : (x::t).countP (fun c => ¬ r x c) = 0 := by
            rw [List.countP_eq_zero]
            intro c hc
            simp [hfirst c hc]
          omega
        subst hxy
        rw [List.take_succ_cons, List.take_succ_cons]
        congr 1
        refine ih t t' hp.cons_inv (List.pairwise_cons.mp hs).2 (List.pairwise_cons.mp hs').2 ?_
        intro a ha b hb hne hab hba
        have hcount := h a (.tail _ ha) b (.tail _ hb) hne hab hba
        rw [List.countP_cons] at hcount
        split at hcount <;> omega

/-- A tie before which fewer elements come shows in the first ones. -/
theorem find_take (n : ℕ) (l : List α) (hs : l.Pairwise r) (a : α) (ha : a ∈ l)
    (hcount : l.countP (fun c => ¬ r a c) < n) :
    ∃ x, (l.take n).find? (fun c => r a c ∧ r c a) = some x ∧
      l.find? (fun c => r a c ∧ r c a) = some x := by
  have hrefl : r a a := Std.Refl.refl a
  cases hf : (l.take n).find? (fun c => r a c ∧ r c a) with
  | some x =>
    have hsplit := @List.find?_append _ (fun c => decide (r a c ∧ r c a)) (l.take n) (l.drop n)
    rw [List.take_append_drop, hf, Option.some_or] at hsplit
    exact ⟨x, rfl, hsplit⟩
  | none =>
    exfalso
    rw [List.find?_eq_none] at hf
    have hdrop : a ∈ l.drop n := by
      rw [← List.take_append_drop n l, List.mem_append] at ha
      exact ha.resolve_left (fun h => hf a h (by simp [hrefl]))
    refine absurd (take_le_count r n l a hdrop ?_) (not_le.mpr hcount)
    intro c hc hac
    have hpair := hs
    rw [← List.take_append_drop n l, List.pairwise_append] at hpair
    exact hf c hc (by simp [hac, hpair.2.2 c hc a hdrop])

end Refl

theorem sort_take_ne [Std.Total r] [IsTrans α r] (n : ℕ) (l : List α) (hn : l.Nodup) (a b : α)
    (ha : a ∈ l) (hb : b ∈ l) (hne : a ≠ b) (hab : r a b) (hba : r b a)
    (hcount : l.countP (fun c => ¬ r a c) < n) :
    (l.insertionSort r).take n ≠ (l.reverse.insertionSort r).take n := by
  intro heq
  have hrefl : r a a := (Std.Total.total a a).elim id id
  have : Std.Refl r := ⟨fun c => (Std.Total.total c c).elim id id⟩
  have hp := List.perm_insertionSort r l
  have hp' := (List.perm_insertionSort r l.reverse).trans l.reverse_perm
  obtain ⟨x, hx, hfirst⟩ := find_take r n _ (List.pairwise_insertionSort r l) a (hp.mem_iff.mpr ha)
    (by rwa [hp.countP_eq])
  obtain ⟨x', hx', hfirst'⟩ := find_take r n _ (List.pairwise_insertionSort r l.reverse) a
    (hp'.mem_iff.mpr ha) (by rwa [hp'.countP_eq])
  rw [heq, hx', Option.some.injEq] at hx
  subst hx
  have hxl : x' ∈ l := hp.mem_iff.mp (List.mem_of_find?_eq_some hfirst)
  have hsome := List.find?_some hfirst
  have htied : r a x' ∧ r x' a := of_decide_eq_true hsome
  -- one of the two tied elements is not the first one
  obtain ⟨y, hyl, hyne, hay, hya⟩ : ∃ y ∈ l, y ≠ x' ∧ r a y ∧ r y a := by
    by_cases hax : a = x'
    · exact ⟨b, hb, fun h => hne (hax.trans h.symm), hab, hba⟩
    · exact ⟨a, ha, hax, hrefl, hrefl⟩
  have hyx : r y x' := IsTrans.trans y a x' hya htied.1
  have hlater : ∀ m : List α, m.Nodup →
      (m.insertionSort r).find? (fun c => r a c ∧ r c a) = some x' →
      ¬ [y, x'].Sublist m := by
    intro m hm hfind hpair
    have hsorted := List.pair_sublist_insertionSort hyx hpair
    exact find_of_pair _ _ ((List.perm_insertionSort r m).nodup_iff.mpr hm) y x' hsorted
      (decide_eq_true ⟨hay, hya⟩) hfind
  rcases pair_or l y x' hyl hxl hyne with h | h
  · exact hlater l hn hfirst h
  · exact hlater l.reverse (List.nodup_reverse.mpr hn) hfirst' h.reverse

end Ties

end Jetski.StableSort
