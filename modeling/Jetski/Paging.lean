import Jetski.StableSort

/-!
# Pages of a sorted list

Pages are cut out of several arrangements of one list, each of them sorted. They
fit together exactly if elements that are tied are all on one page.
-/

set_option autoImplicit false

namespace Jetski.Paging

variable {α : Type}

def pageOf (c p : ℕ) (l : List α) : List α := (l.drop (p*c)).take c

theorem pageOf_map {β : Type} (f : α → β) (c p : ℕ) (l : List α) :
    pageOf c p (l.map f) = (pageOf c p l).map f := by
  rw [pageOf, pageOf, ← List.map_drop, ← List.map_take]

theorem mem_pageOf (c p : ℕ) (hc : 0 < c) (l : List α) (a : α) :
    a ∈ pageOf c p l ↔ ∃ i, l[i]? = some a ∧ i/c = p := by
  rw [pageOf, List.mem_iff_getElem?]
  constructor
  · rintro ⟨j, hj⟩
    by_cases hlt : j < c
    · rw [List.getElem?_take_of_lt hlt, List.getElem?_drop] at hj
      refine ⟨p*c+j, hj, ?_⟩
      rw [Nat.mul_comm, Nat.mul_add_div hc, Nat.div_eq_of_lt hlt, Nat.add_zero]
    · rw [List.getElem?_take_eq_none (not_lt.mp hlt)] at hj
      cases hj
  · rintro ⟨i, hi, rfl⟩
    have hsplit := Nat.div_add_mod' i c
    refine ⟨i%c, ?_⟩
    rw [List.getElem?_take_of_lt (Nat.mod_lt i hc), List.getElem?_drop, hsplit, hi]

/-- The pages of one list give it back. -/
theorem flatMap_pageOf (c n : ℕ) (l : List α) :
    (List.range n).flatMap (fun p => pageOf c p l) = l.take (n*c) := by
  induction n with
  | zero => simp
  | succ n ih =>
    rw [List.range_succ, List.flatMap_append, ih, List.flatMap_singleton, pageOf, Nat.succ_mul,
      List.take_add]

/-- A predicate of the first elements holds of as many as satisfy it. -/
theorem first_iff (P : α → Bool) (l : List α) (hfirst : l.Pairwise (fun a b => P b → P a)) (i : ℕ)
    (a : α) (ha : l[i]? = some a) : P a ↔ i < l.countP P := by
  induction l generalizing i with
  | nil => cases ha
  | cons b l ih =>
    obtain ⟨hb, htail⟩ := List.pairwise_cons.mp hfirst
    have hnone : ¬ P b → l.countP P = 0 := by
      intro hP
      rw [List.countP_eq_zero]
      exact fun x hx hx' => hP (hb x hx hx')
    cases i with
    | zero =>
      rw [List.getElem?_cons_zero, Option.some.injEq] at ha
      subst ha
      by_cases hP : P b
      · simp [hP]
      · simp [hP, hnone hP]
    | succ i =>
      rw [List.getElem?_cons_succ] at ha
      rw [ih htail i ha, List.countP_cons]
      by_cases hP : P b
      · simp [hP]
      · simp [hP, hnone hP]

theorem flatMap_perm {β γ : Type} (f g : β → List γ) (bs : List β)
    (h : ∀ b ∈ bs, (f b).Perm (g b)) :
    (bs.flatMap f).Perm (bs.flatMap g) := by
  induction bs with
  | nil => exact .refl _
  | cons b bs ih =>
    rw [List.flatMap_cons, List.flatMap_cons]
    exact (h b (.head _)).append (ih (fun b' hb' => h b' (.tail _ hb')))

/-- Two tied neighbours can change places. -/
theorem pairwise_swap (r : α → α → Prop) (l l' : List α) (x y : α)
    (h : (l++x::y::l').Pairwise r) (hyx : r y x) :
    (l++y::x::l').Pairwise r := by
  obtain ⟨hl, hxy, hcross⟩ := List.pairwise_append.mp h
  obtain ⟨hx, hy, hl'⟩ := List.pairwise_cons.mp hxy |>.imp_right List.pairwise_cons.mp
  rw [List.pairwise_append]
  refine ⟨hl, ?_, fun a ha b hb => hcross a ha b ?_⟩
  · rw [List.pairwise_cons, List.pairwise_cons]
    refine ⟨fun b hb => ?_, fun b hb => hx b (.tail _ hb), hl'⟩
    rcases List.mem_cons.mp hb with rfl | hb
    · exact hyx
    · exact hy b hb
  · exact (List.Perm.swap x y l').mem_iff.mp hb

section Ties
variable (r : α → α → Prop) [DecidableRel r]

/-- The number of elements before all those that are tied with an element. -/
def before (l : List α) (a : α) : ℕ := l.countP (fun b => ¬ r a b)

/-- The number of elements up to the last one tied with an element. -/
def upTo (l : List α) (a : α) : ℕ := l.countP (fun b => r b a)

/-- Elements that are tied are on one page. -/
def Unsplit (c : ℕ) (l : List α) : Prop := ∀ a ∈ l, before r l a/c = (upTo r l a-1)/c

section Order
variable [IsTrans α r]

theorem before_iff (l : List α) (hs : l.Pairwise r) (a b : α) (i : ℕ) (hb : l[i]? = some b) :
    r a b ↔ before r l a ≤ i := by
  have hfirst : l.Pairwise (fun x y => decide (¬ r a y) → decide (¬ r a x)) := by
    refine hs.imp fun {x y} hxy => ?_
    simp only [decide_eq_true_eq]
    exact fun hy hx => hy (IsTrans.trans a x y hx hxy)
  have h := first_iff (fun b => decide (¬ r a b)) l hfirst i b hb
  rw [decide_eq_true_eq] at h
  rw [before, ← not_lt, ← h, not_not]

theorem upTo_iff (l : List α) (hs : l.Pairwise r) (a b : α) (i : ℕ) (hb : l[i]? = some b) :
    r b a ↔ i < upTo r l a := by
  have hfirst : l.Pairwise (fun x y => decide (r y a) → decide (r x a)) := by
    refine hs.imp fun {x y} hxy => ?_
    simp only [decide_eq_true_eq]
    exact fun hy => IsTrans.trans x y a hxy hy
  have h := first_iff (fun b => decide (r b a)) l hfirst i b hb
  rwa [decide_eq_true_eq] at h

theorem mem_page_iff [Std.Refl r] (c : ℕ) (hc : 0 < c) (l : List α) (hs : l.Pairwise r)
    (h : Unsplit r c l) (p : ℕ) (a : α) : a ∈ pageOf c p l ↔ a ∈ l ∧ before r l a/c = p := by
  have hrefl : r a a := Std.Refl.refl a
  have hplace : ∀ i, l[i]? = some a → i/c = before r l a/c := by
    intro i hi
    have hlow := Nat.div_le_div_right (c := c) ((before_iff r l hs a a i hi).mp hrefl)
    have hup := (upTo_iff r l hs a a i hi).mp hrefl
    have hhigh := Nat.div_le_div_right (c := c) (show i ≤ upTo r l a-1 by omega)
    have hunsplit := h a (List.mem_of_getElem? hi)
    omega
  rw [mem_pageOf c p hc]
  constructor
  · rintro ⟨i, hi, rfl⟩
    exact ⟨List.mem_of_getElem? hi, (hplace i hi).symm⟩
  · rintro ⟨ha, hp⟩
    obtain ⟨i, hi⟩ := List.mem_iff_getElem?.mp ha
    exact ⟨i, hi, (hplace i hi).trans hp⟩

theorem page_perm [Std.Refl r] (c : ℕ) (hc : 0 < c) (l l' : List α) (hn : l.Nodup)
    (hp : l'.Perm l) (hs : l.Pairwise r) (hs' : l'.Pairwise r) (h : Unsplit r c l) (p : ℕ) :
    (pageOf c p l').Perm (pageOf c p l) := by
  have hbefore : ∀ a, before r l' a = before r l a := fun a => hp.countP_eq _
  have hupTo : ∀ a, upTo r l' a = upTo r l a := fun a => hp.countP_eq _
  have h' : Unsplit r c l' := by
    intro a ha
    rw [hbefore, hupTo]
    exact h a (hp.mem_iff.mp ha)
  have hsub : ∀ l : List α, (pageOf c p l).Sublist l :=
    fun l => (List.take_sublist _ _).trans (List.drop_sublist _ _)
  apply (List.perm_ext_iff_of_nodup ((hsub l').nodup (hp.nodup_iff.mpr hn)) ((hsub l).nodup hn)).mpr
  intro a
  rw [mem_page_iff r c hc l' hs' h', mem_page_iff r c hc l hs h, hbefore, hp.mem_iff]

/-- The pages list every element once and in order. -/
def Complete (n c : ℕ) (l : List α) (arranged : ℕ → List α) : Prop :=
  ((List.range n).flatMap (fun p => pageOf c p (arranged p))).Perm l ∧
    ((List.range n).flatMap (fun p => pageOf c p (arranged p))).Pairwise r

theorem unsplit_complete [Std.Refl r] [Std.Total r] (c : ℕ) (hc : 0 < c) (n : ℕ) (l : List α)
    (hn : l.Nodup) (hlength : l.length ≤ n*c) (h : Unsplit r c l) (arranged : ℕ → List α)
    (hp : ∀ p, (arranged p).Perm l) (hs : ∀ p, (arranged p).Pairwise r) :
    Complete r n c l arranged := by
  have hsort := List.pairwise_insertionSort r l
  have hperm := List.perm_insertionSort r l
  have hpages : ∀ p, (pageOf c p (arranged p)).Perm (pageOf c p (l.insertionSort r)) := by
    intro p
    have h' : Unsplit r c (l.insertionSort r) := by
      intro a ha
      rw [before, upTo, hperm.countP_eq, hperm.countP_eq]
      exact h a (hperm.mem_iff.mp ha)
    exact page_perm r c hc _ _ (hperm.nodup_iff.mpr hn) ((hp p).trans hperm.symm) hsort (hs p) h' p
  have hall : (List.range n).flatMap (fun p => pageOf c p (l.insertionSort r)) =
      l.insertionSort r := by
    rw [flatMap_pageOf, List.take_of_length_le (by rwa [List.length_insertionSort])]
  constructor
  · have hflat := flatMap_perm _ _ (List.range n) (fun p _ => hpages p)
    rw [hall] at hflat
    exact hflat.trans hperm
  · rw [← hall, List.pairwise_flatMap] at hsort
    rw [List.pairwise_flatMap]
    constructor
    · intro p _
      exact (hs p).sublist ((List.take_sublist _ _).trans (List.drop_sublist _ _))
    · refine hsort.2.imp fun {p q} hpq x hx y hy => ?_
      exact hpq x ((hpages p).mem_iff.mp hx) y ((hpages q).mem_iff.mp hy)

/-- An element at the end of one page and at the start of the next one. -/
theorem split_neighbours [Std.Refl r] (c : ℕ) (hc : 0 < c) (l : List α) (hs : l.Pairwise r)
    (h : ¬ Unsplit r c l) : ∃ k t x y t', l = t++x::y::t' ∧ t.length+1 = (k+1)*c ∧ r y x := by
  simp only [Unsplit, not_forall] at h
  obtain ⟨a, ha, hne⟩ := h
  obtain ⟨i, hi⟩ := List.mem_iff_getElem?.mp ha
  have hrefl : r a a := Std.Refl.refl a
  have hlow := (before_iff r l hs a a i hi).mp hrefl
  have hhigh := (upTo_iff r l hs a a i hi).mp hrefl
  have hle := Nat.div_le_div_right (c := c) (show before r l a ≤ upTo r l a-1 by omega)
  have hfirst : before r l a < (before r l a/c+1)*c :=
    (Nat.div_lt_iff_lt_mul hc).mp (Nat.lt_succ_self _)
  have hlast : (before r l a/c+1)*c ≤ upTo r l a-1 :=
    (Nat.le_div_iff_mul_le hc).mp (by omega)
  have hlength : upTo r l a ≤ l.length := List.countP_le_length
  generalize hm : (before r l a/c+1)*c = m at hfirst hlast
  obtain ⟨j, rfl⟩ : ∃ j, m = j+1 := ⟨m-1, by omega⟩
  have hx : l[j]? = some (l.get ⟨j, by omega⟩) := List.getElem?_eq_getElem _
  have hy : l[j+1]? = some (l.get ⟨j+1, by omega⟩) := List.getElem?_eq_getElem _
  have hax := (before_iff r l hs a _ j hx).mpr (by omega)
  have hya := (upTo_iff r l hs a _ (j+1) hy).mpr (by omega)
  refine ⟨before r l a/c, l.take j, _, _, l.drop (j+2), ?_, ?_, IsTrans.trans _ a _ hya hax⟩
  · have hdrop := List.drop_eq_getElem_cons (show j < l.length by omega)
    have hdrop' := List.drop_eq_getElem_cons (show j+1 < l.length by omega)
    rw [hdrop'] at hdrop
    conv_lhs => rw [← List.take_append_drop j l, hdrop]
    rfl
  · rw [List.length_take, hm]
    omega

/-- Tied elements on two pages can be arranged so that one of them is listed twice. -/
theorem split_repeats [Std.Refl r] [Std.Total r] (c : ℕ) (hc : 0 < c) (n : ℕ) (l : List α)
    (hlength : l.length ≤ n*c) (h : ¬ Unsplit r c l) :
    ∃ arranged : ℕ → List α, (∀ p, (arranged p).Perm l) ∧ (∀ p, (arranged p).Pairwise r) ∧
      ¬ ((List.range n).flatMap (fun p => pageOf c p (arranged p))).Nodup := by
  have hperm := List.perm_insertionSort r l
  have hsort := List.pairwise_insertionSort r l
  have h' : ¬ Unsplit r c (l.insertionSort r) := by
    intro hunsplit
    apply h
    intro a ha
    have hpage := hunsplit a (hperm.mem_iff.mpr ha)
    rwa [before, upTo, hperm.countP_eq, hperm.countP_eq] at hpage
  obtain ⟨k, t, x, y, t', heq, ht, hyx⟩ := split_neighbours r c hc _ hsort h'
  rw [heq] at hsort hperm
  have hswap := pairwise_swap r t t' x y hsort hyx
  refine ⟨fun p => if p = k+1 then t++y::x::t' else t++x::y::t', fun p => ?_, fun p => ?_, ?_⟩
  · by_cases hp : p = k+1
    · simp only [if_pos hp]
      exact ((List.Perm.swap x y t').append_left t).trans hperm
    · simp only [if_neg hp]
      exact hperm
  · by_cases hp : p = k+1
    · simp only [if_pos hp]
      exact hswap
    · simp only [if_neg hp]
      exact hsort
  · intro hnodup
    have hx : x ∈ pageOf c k (t++x::y::t') := by
      rw [mem_pageOf c k hc]
      refine ⟨t.length, by simp, ?_⟩
      rw [Nat.div_eq_iff hc]
      rw [Nat.succ_mul] at ht
      omega
    have hx' : x ∈ pageOf c (k+1) (t++y::x::t') := by
      rw [mem_pageOf c (k+1) hc]
      refine ⟨t.length+1, by simp, ?_⟩
      rw [ht, Nat.mul_div_cancel _ hc]
    have hlast : t.length+1 < l.length := by
      rw [← hperm.length_eq]
      simp
    have hk : k+1 < n := by
      have hmul : (k+1)*c < n*c := by omega
      exact Nat.lt_of_mul_lt_mul_right hmul
    have hdisjoint := (List.nodup_flatMap.mp hnodup).2
    rw [List.pairwise_iff_getElem] at hdisjoint
    have hpages := hdisjoint k (k+1) (by simp; omega) (by simpa using hk) (by omega)
    simp only [Function.onFun, List.getElem_range, if_neg (show k ≠ k+1 by omega), if_true]
      at hpages
    exact hpages hx hx'

end Order

end Ties

end Jetski.Paging
