import Mathlib.Data.List.Nodup
import Mathlib.Logic.Function.Basic

/-!
# Keyed relational stores

A store keeps, for every table, at most one row under each key, so a primary
key can never be violated. The heap of a table lists the keys written so far in
scan order; it carries the proofs that scans visit every row and visit it once.
Row images are the only writes, so a transaction is a list of them.
-/

set_option autoImplicit false

namespace Relational

variable {T : Type} {Key Row : T → Type}

structure Store (Key Row : T → Type) where
  row : (t : T) → Key t → Option (Row t)
  heap : (t : T) → List (Key t)
  nodup : ∀ t, (heap t).Nodup
  complete : ∀ t k v, row t k = some v → k ∈ heap t

abbrev Ref (Key : T → Type) := (t : T) × Key t

/-- A row image: the row stored under a key from now on, or its deletion. -/
structure Write (Key Row : T → Type) where
  table : T
  key : Key table
  image : Option (Row table)

namespace Store

def empty : Store Key Row where
  row _ _ := none
  heap _ := []
  nodup _ := List.nodup_nil
  complete _ _ _ h := nomatch h

theorem ext {s s' : Store Key Row} (hr : ∀ t k, s.row t k = s'.row t k)
    (hh : ∀ t, s.heap t = s'.heap t) : s = s' := by
  cases s
  cases s'
  congr
  · funext t k
    exact hr t k
  · funext t
    exact hh t

def scan (s : Store Key Row) (t : T) : List (Key t × Row t) :=
  (s.heap t).filterMap (fun k => (s.row t k).map (fun v => (k, v)))

theorem mem_scan (s : Store Key Row) (t : T) (k : Key t) (v : Row t) :
    (k, v) ∈ s.scan t ↔ s.row t k = some v := by
  simp only [scan, List.mem_filterMap, Option.map_eq_some_iff, Prod.mk.injEq]
  constructor
  · rintro ⟨k', -, v', hv, rfl, rfl⟩
    exact hv
  · intro h
    exact ⟨k, s.complete t k v h, v, h, rfl, rfl⟩

theorem scan_nodup (s : Store Key Row) (t : T) : (s.scan t).Nodup := by
  apply List.Nodup.filterMap _ (s.nodup t)
  intro k k' p hk hk'
  simp only [Option.mem_def, Option.map_eq_some_iff] at hk hk'
  obtain ⟨v, -, rfl⟩ := hk
  obtain ⟨v', -, h⟩ := hk'
  exact (Prod.mk.inj h).1.symm

/-- Exactly one row satisfies the predicate. -/
def One (s : Store Key Row) (t : T) (p : Row t → Prop) : Prop :=
  ∃ k v, s.row t k = some v ∧ p v ∧ ∀ k' v', s.row t k' = some v' → p v' → k' = k

theorem one_iff_scan (s : Store Key Row) (t : T) (p : Row t → Prop) [DecidablePred p] :
    s.One t p ↔ ((s.scan t).filter (fun x => p x.2)).length = 1 := by
  have hmem : ∀ k v, (k, v) ∈ (s.scan t).filter (fun x => p x.2) ↔ s.row t k = some v ∧ p v := by
    intro k v
    rw [List.mem_filter, mem_scan, decide_eq_true_eq]
  have hnodup := (s.scan_nodup t).filter (fun x => p x.2)
  generalize (s.scan t).filter (fun x => p x.2) = xs at hmem hnodup
  constructor
  · rintro ⟨k, v, hv, hp, hone⟩
    have hall : ∀ x ∈ xs, x = (k, v) := by
      rintro ⟨k', v'⟩ hx
      obtain ⟨hv', hp'⟩ := (hmem k' v').mp hx
      cases hone k' v' hv' hp'
      cases hv.symm.trans hv'
      rfl
    have hx := List.eq_replicate_of_mem hall
    rw [hx, List.nodup_replicate] at hnodup
    have hne := List.length_pos_of_mem ((hmem k v).mpr ⟨hv, hp⟩)
    omega
  · intro hl
    obtain ⟨⟨k, v⟩, hx⟩ := List.length_eq_one_iff.mp hl
    obtain ⟨hv, hp⟩ := (hmem k v).mp (by simp [hx])
    refine ⟨k, v, hv, hp, fun k' v' hv' hp' => ?_⟩
    have hmem' := (hmem k' v').mpr ⟨hv', hp'⟩
    rw [hx, List.mem_singleton] at hmem'
    exact congrArg Prod.fst hmem'

theorem scan_length_eq (s s' : Store Key Row) (t : T) (hh : s'.heap t = s.heap t)
    (hn : ∀ k, s'.row t k = none ↔ s.row t k = none) :
    (s'.scan t).length = (s.scan t).length := by
  rw [scan, scan, hh, List.length_filterMap_eq_countP, List.length_filterMap_eq_countP]
  apply List.countP_congr
  intro k _
  have := hn k
  cases h : s.row t k <;> cases h' : s'.row t k <;> simp_all

def map {Row' : T → Type} (s : Store Key Row) (f : (t : T) → Row t → Row' t) :
    Store Key Row' where
  row t k := (s.row t k).map (f t)
  heap := s.heap
  nodup := s.nodup
  complete t k v h := by
    obtain ⟨w, hw, -⟩ := Option.map_eq_some_iff.mp h
    exact s.complete t k w hw

@[simp] theorem map_row {Row' : T → Type} (s : Store Key Row) (f : (t : T) → Row t → Row' t)
    (t : T) (k : Key t) : (s.map f).row t k = (s.row t k).map (f t) := rfl

variable [DecidableEq T] [∀ t, DecidableEq (Key t)]

def set (s : Store Key Row) (t : T) (k : Key t) (v : Option (Row t)) : Store Key Row where
  row := Function.update s.row t (Function.update (s.row t) k v)
  heap := Function.update s.heap t (if k ∈ s.heap t then s.heap t else s.heap t ++ [k])
  nodup t' := by
    by_cases ht : t' = t
    · subst ht
      rw [Function.update_self]
      split
      · exact s.nodup t'
      · next hk =>
        apply List.Nodup.append (s.nodup t') (List.nodup_singleton k)
        simpa using hk
    · rw [Function.update_of_ne ht]
      exact s.nodup t'
  complete t' k' v' h := by
    by_cases ht : t' = t
    · subst ht
      rw [Function.update_self] at h ⊢
      by_cases hk : k' = k
      · subst hk
        split <;> simp [*]
      · rw [Function.update_of_ne hk] at h
        have := s.complete t' k' v' h
        split <;> simp [*]
    · rw [Function.update_of_ne ht] at h ⊢
      exact s.complete t' k' v' h

@[simp] theorem set_same (s : Store Key Row) (t : T) (k : Key t) (v : Option (Row t)) :
    (s.set t k v).row t k = v := by
  simp [set]

theorem set_key (s : Store Key Row) (t : T) (k k' : Key t) (v : Option (Row t)) (h : k' ≠ k) :
    (s.set t k v).row t k' = s.row t k' := by
  simp [set, h]

theorem set_table (s : Store Key Row) (t t' : T) (k : Key t) (k' : Key t') (v : Option (Row t))
    (h : t' ≠ t) : (s.set t k v).row t' k' = s.row t' k' := by
  simp [set, h]

theorem set_row (s : Store Key Row) (t : T) (k k' : Key t) (v : Option (Row t)) :
    (s.set t k v).row t k' = if k' = k then v else s.row t k' := by
  split
  · next h => rw [h, set_same]
  · next h => exact set_key s t k k' v h

theorem set_heap_of_mem (s : Store Key Row) (t t' : T) (k : Key t) (v : Option (Row t))
    (h : k ∈ s.heap t) : (s.set t k v).heap t' = s.heap t' := by
  by_cases ht : t' = t
  · subst ht
    simp [set, h]
  · simp [set, ht]

def write (s : Store Key Row) (w : Write Key Row) : Store Key Row :=
  s.set w.table w.key w.image

def replay (s : Store Key Row) (ws : List (Write Key Row)) : Store Key Row :=
  ws.foldl write s

@[simp] theorem replay_nil (s : Store Key Row) : s.replay [] = s := rfl

@[simp] theorem replay_cons (s : Store Key Row) (w : Write Key Row) (ws : List (Write Key Row)) :
    s.replay (w::ws) = (s.write w).replay ws := rfl

theorem replay_append (s : Store Key Row) (ws rest : List (Write Key Row)) :
    s.replay (ws++rest) = (s.replay ws).replay rest :=
  List.foldl_append

/-! The row of the last image, another row of its table and a row of another table. -/

section Last
variable (s : Store Key Row) (ws : List (Write Key Row)) (t : T) (k : Key t) (v : Option (Row t))

theorem last_same : (s.replay (ws++[⟨t, k, v⟩])).row t k = v := by
  rw [replay_append]
  exact set_same _ t k v

theorem last_key (k' : Key t) (h : k' ≠ k) :
    (s.replay (ws++[⟨t, k, v⟩])).row t k' = (s.replay ws).row t k' := by
  rw [replay_append]
  exact set_key _ t k k' v h

theorem last_table (t' : T) (k' : Key t') (h : t' ≠ t) :
    (s.replay (ws++[⟨t, k, v⟩])).row t' k' = (s.replay ws).row t' k' := by
  rw [replay_append]
  exact set_table _ t t' k k' v h

end Last

def Touches (w : Write Key Row) (t : T) (k : Key t) : Prop :=
  (⟨w.table, w.key⟩ : Ref Key) = ⟨t, k⟩

theorem write_untouched (s : Store Key Row) (w : Write Key Row) (t : T) (k : Key t)
    (h : ¬ Touches w t k) : (s.write w).row t k = s.row t k := by
  obtain ⟨t', k', v⟩ := w
  by_cases ht : t = t'
  · subst ht
    apply set_key
    intro hk
    exact h (by rw [Touches, hk])
  · exact set_table s t' t k' k v ht

/-- A row that no image of the list addresses is left as it was. -/
theorem replay_untouched (s : Store Key Row) (ws : List (Write Key Row)) (t : T) (k : Key t)
    (h : ∀ w ∈ ws, ¬ Touches w t k) : (s.replay ws).row t k = s.row t k := by
  induction ws generalizing s with
  | nil => rfl
  | cons w ws ih =>
    rw [replay_cons, ih _ (fun w' hw => h w' (by simp [hw])),
      write_untouched s w t k (h w (by simp))]

/-- Stores that agree on a row agree on it after the same images. -/
theorem replay_agrees (s s' : Store Key Row) (ws : List (Write Key Row)) (t : T) (k : Key t)
    (h : s.row t k = s'.row t k) : (s.replay ws).row t k = (s'.replay ws).row t k := by
  induction ws generalizing s s' with
  | nil => exact h
  | cons w ws ih =>
    refine ih _ _ ?_
    by_cases ht : Touches w t k
    · obtain ⟨t', k', v'⟩ := w
      cases ht
      rw [write, write, set_same, set_same]
    · rw [write_untouched s w t k ht, write_untouched s' w t k ht, h]

/-- A row that no image removes is still there, though maybe another one. -/
theorem replay_kept (s : Store Key Row) (ws : List (Write Key Row)) (t : T) (k : Key t)
    (h : (s.row t k).isSome) (hw : ⟨t, k, none⟩ ∉ ws) : ((s.replay ws).row t k).isSome := by
  induction ws generalizing s with
  | nil => exact h
  | cons w ws ih =>
    refine ih _ ?_ (fun hm => hw (List.mem_cons_of_mem _ hm))
    by_cases ht : Touches w t k
    · obtain ⟨t', k', v'⟩ := w
      cases ht
      cases v' with
      | none => exact absurd List.mem_cons_self hw
      | some v => rw [write, set_same]; rfl
    · rwa [write_untouched s w t k ht]

/-- Every row after a replay is an old row or one of the images. -/
theorem replay_row (s : Store Key Row) (ws : List (Write Key Row)) (t : T) (k : Key t)
    (v : Row t) (h : (s.replay ws).row t k = some v) :
    s.row t k = some v ∨ ⟨t, k, some v⟩ ∈ ws := by
  induction ws generalizing s with
  | nil => exact Or.inl h
  | cons w ws ih =>
    rcases ih _ h with hw | hw
    · by_cases ht : Touches w t k
      · obtain ⟨t', k', v'⟩ := w
        cases ht
        simp only [write, set_same] at hw
        exact Or.inr (by simp [hw])
      · rw [write_untouched s w t k ht] at hw
        exact Or.inl hw
    · exact Or.inr (by simp [hw])

end Store
end Relational
