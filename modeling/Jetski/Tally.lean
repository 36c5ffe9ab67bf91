import Mathlib.Algebra.BigOperators.Group.List.Lemmas
import Mathlib.Algebra.BigOperators.Ring.Finset
import Jetski.Analytics

/-!
# Maps that group a list

A loop that changes one entry of a map for each element of a list groups the
list by the keys of the elements. The map holds for every key what the elements
of the key fold to, in their order, so that its contents do not depend on how
the groups interleave.
-/

set_option autoImplicit false

namespace Jetski.Tally

open Analytics

section Update
variable {α : Type}

theorem update_keys (m : GoMap α) (k : String) (init : α) (f : α → α) :
    (update m k init f).map Prod.fst =
      if k ∈ m.map Prod.fst then m.map Prod.fst else m.map Prod.fst++[k] := by
  induction m with
  | nil => rfl
  | cons e m ih =>
    obtain ⟨k', a⟩ := e
    by_cases hk : k' = k
    · simp [update, hk]
    · have hk' : k ≠ k' := fun h => hk h.symm
      simp only [update, if_neg hk, List.map_cons, ih, List.mem_cons, hk', false_or]
      split <;> rfl

theorem lookup_cons_ne (m : GoMap α) (k k' : String) (a : α) (h : k ≠ k') :
    List.lookup k ((k', a)::m) = m.lookup k := by
  rw [List.lookup_cons, beq_eq_false_iff_ne.mpr h]

theorem update_lookup (m : GoMap α) (k k' : String) (init : α) (f : α → α) :
    (update m k init f).lookup k' =
      if k' = k then some (f ((m.lookup k).getD init)) else m.lookup k' := by
  induction m with
  | nil =>
    by_cases h : k' = k
    · simp [update, h]
    · simp [update, h]
  | cons e m ih =>
    obtain ⟨k₁, a⟩ := e
    by_cases hk : k₁ = k
    · subst hk
      by_cases h : k' = k₁
      · simp [update, h]
      · rw [update, if_pos rfl, lookup_cons_ne m _ _ _ h, lookup_cons_ne m _ _ _ h, if_neg h]
    · have hk' : k ≠ k₁ := fun h => hk h.symm
      rw [update, if_neg hk, lookup_cons_ne m k _ _ hk']
      by_cases h : k' = k₁
      · subst h
        rw [List.lookup_cons_self, List.lookup_cons_self, if_neg hk]
      · rw [lookup_cons_ne _ _ _ _ h, lookup_cons_ne _ _ _ _ h, ih]

theorem mem_lookup (m : GoMap α) (hn : (m.map Prod.fst).Nodup) (k : String) (a : α) :
    (k, a) ∈ m ↔ m.lookup k = some a := by
  induction m with
  | nil => simp
  | cons e m ih =>
    obtain ⟨k', a'⟩ := e
    rw [List.map_cons, List.nodup_cons] at hn
    rw [List.mem_cons, ih hn.2]
    by_cases h : k = k'
    · subst h
      have hnone : m.lookup k = none := by
        rw [List.lookup_eq_none_iff]
        intro e he
        have hne : e.1 ≠ k := fun h => hn.1 (List.mem_map.mpr ⟨e, he, h⟩)
        simpa using hne.symm
      simp [hnone, eq_comm]
    · rw [lookup_cons_ne m k k' a' h]
      simp [h]

end Update

section Groups
variable {β α : Type} (key : β → Option String) (init : β → α) (f : β → α → α)

def group (k : String) (bs : List β) : List β := bs.filter (fun b => key b = some k)

/-- What elements fold to, starting from the initial value of the first one. -/
def folded (bs : List β) : Option α :=
  bs.foldl (fun o b => some (f b (o.getD (init b)))) none

/-- The map holds what the elements under each key fold to. -/
structure Groups (bs : List β) (m : GoMap α) : Prop where
  nodup : (m.map Prod.fst).Nodup
  lookup : ∀ k, m.lookup k = folded init f (group key k bs)

theorem groups_nil : Groups key init f [] [] where
  nodup := List.nodup_nil
  lookup _ := rfl

variable {key init f}

theorem groups_skip (bs : List β) (b : β) (m : GoMap α) (h : Groups key init f bs m)
    (hb : key b = none) : Groups key init f (bs++[b]) m where
  nodup := h.nodup
  lookup k := by
    rw [h.lookup k, group, group, List.filter_append]
    simp [hb]

theorem groups_update (bs : List β) (b : β) (m : GoMap α) (h : Groups key init f bs m) (k : String)
    (hb : key b = some k) : Groups key init f (bs++[b]) (update m k (init b) (f b)) where
  nodup := by
    rw [update_keys]
    split
    · exact h.nodup
    · next hk =>
      exact List.nodup_append.mpr ⟨h.nodup, by simp, fun a ha b hb hab => by
        rw [List.mem_singleton] at hb
        exact hk (hb ▸ hab ▸ ha)⟩
  lookup k' := by
    rw [update_lookup, h.lookup k, h.lookup k', group, group, group, List.filter_append]
    by_cases hk : k' = k
    · subst hk
      simp [hb, folded, List.foldl_append]
    · have hne : key b ≠ some k' := fun h => hk (Option.some.inj (h.symm.trans hb))
      simp [hk, hne]

def Round (key : β → Option String) (init : β → α) (f : β → α → α) (m : GoMap α) (b : β)
    (m' : GoMap α) : Prop :=
  (key b = none ∧ m' = m) ∨ ∃ k, key b = some k ∧ m' = update m k (init b) (f b)

theorem groups_round (bs : List β) (b : β) (m m' : GoMap α) (h : Groups key init f bs m)
    (hr : Round key init f m b m') : Groups key init f (bs++[b]) m' := by
  rcases hr with ⟨hb, rfl⟩ | ⟨k, hb, rfl⟩
  · exact groups_skip bs b _ h hb
  · exact groups_update bs b m h k hb

theorem groups_foldl (step : GoMap α → β → GoMap α)
    (hstep : ∀ m b, Round key init f m b (step m b)) (bs bs' : List β) (m : GoMap α)
    (h : Groups key init f bs m) : Groups key init f (bs++bs') (bs'.foldl step m) := by
  induction bs' generalizing bs m with
  | nil => rwa [List.append_nil]
  | cons b bs' ih =>
    have hround := groups_round bs b m _ h (hstep m b)
    have hrest := ih (bs++[b]) _ hround
    rwa [List.append_assoc] at hrest

theorem groups_foldlM (step : GoMap α → β → Except Panic (GoMap α))
    (hstep : ∀ m b m', step m b = .ok m' → Round key init f m b m') (bs bs' : List β)
    (m m' : GoMap α) (h : Groups key init f bs m) (hm : bs'.foldlM step m = .ok m') :
    Groups key init f (bs++bs') m' := by
  induction bs' generalizing bs m with
  | nil =>
    cases hm
    rwa [List.append_nil]
  | cons b bs' ih =>
    rw [List.foldlM_cons] at hm
    cases hs : step m b with
    | error e =>
      rw [hs] at hm
      cases hm
    | ok m₁ =>
      rw [hs] at hm
      have hround := groups_round bs b m m₁ h (hstep m b m₁ hs)
      have hrest := ih (bs++[b]) m₁ hround hm
      rwa [List.append_assoc] at hrest

/-! ## Entries -/

theorem folded_cons (b : β) (bs : List β) :
    folded init f (b::bs) = some (bs.foldl (fun a b => f b a) (f b (init b))) := by
  rw [folded, List.foldl_cons, Option.getD_none]
  generalize f b (init b) = a
  induction bs generalizing a with
  | nil => rfl
  | cons b' bs ih =>
    rw [List.foldl_cons, List.foldl_cons, Option.getD_some]
    exact ih (f b' a)

theorem folded_isSome (bs : List β) : (folded init f bs).isSome ↔ bs ≠ [] := by
  cases bs with
  | nil => simp [folded]
  | cons b bs => simp [folded_cons]

theorem mem_group (k : String) (bs : List β) (b : β) :
    b ∈ group key k bs ↔ b ∈ bs ∧ key b = some k := by
  simp [group]

theorem group_ne_nil (k : String) (bs : List β) :
    group key k bs ≠ [] ↔ k ∈ bs.filterMap key := by
  rw [List.mem_filterMap]
  constructor
  · intro h
    obtain ⟨b, hb⟩ := List.exists_mem_of_ne_nil _ h
    exact ⟨b, (mem_group k bs b).mp hb⟩
  · rintro ⟨b, hb⟩
    exact List.ne_nil_of_mem ((mem_group k bs b).mpr hb)

theorem groups_entry (bs : List β) (m : GoMap α) (h : Groups key init f bs m) (k : String) (a : α) :
    (k, a) ∈ m ↔ folded init f (group key k bs) = some a := by
  rw [mem_lookup m h.nodup, h.lookup k]

theorem groups_key (bs : List β) (m : GoMap α) (h : Groups key init f bs m) (k : String) :
    k ∈ m.map Prod.fst ↔ k ∈ bs.filterMap key := by
  rw [← group_ne_nil, ← @folded_isSome _ _ init f, Option.isSome_iff_exists,
    List.mem_map]
  constructor
  · rintro ⟨⟨k', a⟩, hmem, rfl⟩
    exact ⟨a, (groups_entry bs m h k' a).mp hmem⟩
  · rintro ⟨a, ha⟩
    exact ⟨(k, a), (groups_entry bs m h k a).mpr ha, rfl⟩

/-- The keys of the map are those of the elements. -/
theorem groups_keys (bs : List β) (m : GoMap α) (h : Groups key init f bs m) :
    (m.map Prod.fst).Perm (bs.filterMap key).dedup := by
  apply (List.perm_ext_iff_of_nodup h.nodup (List.nodup_dedup _)).mpr
  intro k
  rw [List.mem_dedup, groups_key bs m h k]

theorem group_length (k : String) (bs : List β) :
    (group key k bs).length = (bs.filterMap key).count k := by
  rw [group, ← List.countP_eq_length_filter, List.count_filterMap]
  apply List.countP_congr
  intro b _
  simp

/-- A field that every change raises by one counts the elements. -/
theorem folded_count (count : α → ℤ) (hinit : ∀ b, count (init b) = 0)
    (hf : ∀ b a, count (f b a) = count a+1) (bs : List β) (a : α)
    (h : folded init f bs = some a) : count a = bs.length := by
  cases bs with
  | nil => cases h
  | cons b bs =>
    rw [folded_cons, Option.some.injEq] at h
    have hall : ∀ (bs : List β) (a : α),
        count (bs.foldl (fun a b => f b a) a) = count a+bs.length := by
      intro bs
      induction bs with
      | nil => simp
      | cons b bs ih =>
        intro a
        rw [List.foldl_cons, ih, hf, List.length_cons]
        push_cast
        ring
    rw [← h, hall, hf, hinit, List.length_cons]
    push_cast
    ring

theorem groups_count (count : α → ℤ) (hinit : ∀ b, count (init b) = 0)
    (hf : ∀ b a, count (f b a) = count a+1) (bs : List β) (m : GoMap α)
    (h : Groups key init f bs m) (k : String) (a : α) (hmem : (k, a) ∈ m) :
    count a = (bs.filterMap key).count k := by
  rw [folded_count count hinit hf _ a ((groups_entry bs m h k a).mp hmem), group_length]

/-- No element is lost or counted twice. -/
theorem groups_total (count : α → ℤ) (hinit : ∀ b, count (init b) = 0)
    (hf : ∀ b a, count (f b a) = count a+1) (bs : List β) (m : GoMap α)
    (h : Groups key init f bs m) :
    (m.map (fun e => count e.2)).sum = (bs.filterMap key).length := by
  have hentries : m.map (fun e => count e.2) =
      (m.map Prod.fst).map (fun k => (((bs.filterMap key).count k : ℕ) : ℤ)) := by
    rw [List.map_map]
    apply List.map_congr_left
    intro e he
    exact groups_count count hinit hf bs m h e.1 e.2 he
  have hkeys := (groups_keys bs m h).map (fun k => (((bs.filterMap key).count k : ℕ) : ℤ))
  rw [hentries, hkeys.sum_eq, ← List.sum_map_count_dedup_eq_length (bs.filterMap key),
    Nat.cast_list_sum, List.map_map]
  rfl

/-- The contents of the map, if elements fold to a value of theirs. -/
theorem groups_perm (value : List β → α) (hvalue : ∀ bs ≠ [], folded init f bs = some (value bs))
    (bs : List β) (m : GoMap α) (h : Groups key init f bs m) :
    m.Perm ((bs.filterMap key).dedup.map (fun k => (k, value (group key k bs)))) := by
  have hentries : m = (m.map Prod.fst).map (fun k => (k, value (group key k bs))) := by
    rw [List.map_map]
    conv_lhs => rw [← List.map_id m]
    apply List.map_congr_left
    intro e he
    have hentry := (groups_entry bs m h e.1 e.2).mp he
    have hne : group key e.1 bs ≠ [] := by
      rw [← @folded_isSome _ _ init f, hentry]
      rfl
    rw [hvalue _ hne, Option.some.injEq] at hentry
    exact Prod.ext rfl hentry.symm
  rw [hentries]
  exact (groups_keys bs m h).map _

theorem folded_induction (P : α → Prop) (bs : List β) (hinit : ∀ b ∈ bs, P (init b))
    (hf : ∀ b ∈ bs, ∀ a, P a → P (f b a)) (a : α) (h : folded init f bs = some a) : P a := by
  cases bs with
  | nil => cases h
  | cons b bs =>
    rw [folded_cons, Option.some.injEq] at h
    rw [← h]
    have hall : ∀ (bs' : List β), (∀ b' ∈ bs', b' ∈ b::bs) → ∀ a, P a →
        P (bs'.foldl (fun a b => f b a) a) := by
      intro bs'
      induction bs' with
      | nil => exact fun _ a ha => ha
      | cons b' bs' ih =>
        intro hsub a ha
        exact ih (fun c hc => hsub c (.tail _ hc)) _ (hf b' (hsub b' (.head _)) a ha)
    exact hall bs (fun c hc => .tail _ hc) _ (hf b (.head _) _ (hinit b (.head _)))

/-- With one initial value for all elements they fold from it. -/
theorem folded_const (a₀ : α) (bs : List β) (hne : bs ≠ []) :
    folded (fun _ => a₀) f bs = some (bs.foldl (fun a b => f b a) a₀) := by
  cases bs with
  | nil => exact absurd rfl hne
  | cons b bs => rw [folded_cons, List.foldl_cons]

/-- Where every group starts from one value, an entry is the fold of its group. -/
theorem groups_fold (a₀ : α) (bs : List β) (m : GoMap α) (h : Groups key (fun _ => a₀) f bs m)
    (k : String) (a : α) (hm : (k, a) ∈ m) :
    (group key k bs).foldl (fun a b => f b a) a₀ = a := by
  have hentry := (groups_entry bs m h k a).mp hm
  have hne : group key k bs ≠ [] := by
    intro hnil
    rw [hnil] at hentry
    cases hentry
  rw [folded_const a₀ _ hne] at hentry
  exact Option.some.inj hentry

end Groups

end Jetski.Tally
