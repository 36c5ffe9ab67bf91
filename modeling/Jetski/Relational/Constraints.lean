import Jetski.Relational.Cascade

/-!
# Integrity constraints

The constraints of a schema are its unique and its foreign keys. A row is put
under its key only when no unique value is taken by another row and no foreign
key is left without its parent; the constraint that fails is reported by name,
as a server reports it. Soundness of a store is decided by its scans.
-/

set_option autoImplicit false

namespace Relational

variable {T : Type} {Key Row : T → Type} {V : Type}

structure Unique (Key Row : T → Type) (V : Type) where
  name : String
  table : T
  value : Key table → Row table → V

structure Constraints (Key Row : T → Type) (V : Type) where
  tables : List T
  uniques : List (Unique Key Row V)
  foreignKeys : List (ForeignKey Key Row)

inductive Violation where
  | unique (constraint : String)
  | foreignKey (constraint : String)
  deriving DecidableEq, Repr

/-- Every foreign key has its parent row and no unique value occurs twice. -/
structure Sound (S : Constraints Key Row V) (s : Store Key Row) : Prop where
  parent : ∀ f ∈ S.foreignKeys, ∀ k v j, s.row f.child k = some v → f.column k v = some j →
    ∃ w, s.row f.parent j = some w
  once : ∀ u ∈ S.uniques, ∀ k k' v v', s.row u.table k = some v → s.row u.table k' = some v' →
    u.value k v = u.value k' v' → k = k'

theorem sound_iff_scan (S : Constraints Key Row V) (s : Store Key Row) : Sound S s ↔
    (∀ f ∈ S.foreignKeys, ∀ p ∈ s.scan f.child, ∀ j ∈ f.column p.1 p.2,
      (s.row f.parent j).isSome) ∧
    (∀ u ∈ S.uniques, ∀ p ∈ s.scan u.table, ∀ q ∈ s.scan u.table,
      u.value p.1 p.2 = u.value q.1 q.2 → p.1 = q.1) := by
  constructor
  · intro h
    refine ⟨fun f hf p hp j hj => ?_, fun u hu p hp q hq => ?_⟩
    · obtain ⟨w, hw⟩ := h.parent f hf p.1 p.2 j ((s.mem_scan _ _ _).mp hp) hj
      simp [hw]
    · exact h.once u hu _ _ _ _ ((s.mem_scan _ _ _).mp hp) ((s.mem_scan _ _ _).mp hq)
  · rintro ⟨hp, ho⟩
    refine ⟨fun f hf k v j hv hj => ?_, fun u hu k k' v v' hv hv' => ?_⟩
    · exact Option.isSome_iff_exists.mp (hp f hf (k, v) ((s.mem_scan _ _ _).mpr hv) j hj)
    · exact ho u hu (k, v) ((s.mem_scan _ _ _).mpr hv) (k', v') ((s.mem_scan _ _ _).mpr hv')

instance [∀ t, DecidableEq (Key t)] [DecidableEq V] (S : Constraints Key Row V)
    (s : Store Key Row) : Decidable (Sound S s) :=
  decidable_of_iff _ (sound_iff_scan S s).symm

theorem sound_empty (S : Constraints Key Row V) : Sound S Store.empty where
  parent _ _ _ _ _ h := nomatch h
  once _ _ _ _ _ _ h := nomatch h

variable [DecidableEq T]

def ForeignKey.target (f : ForeignKey Key Row) (t : T) (k : Key t) (v : Row t) :
    Option (Key f.parent) :=
  if h : t = f.child then f.column (h ▸ k) (h ▸ v) else none

@[simp] theorem target_child (f : ForeignKey Key Row) (k : Key f.child) (v : Row f.child) :
    f.target f.child k v = f.column k v := by
  simp [ForeignKey.target]

def ForeignKey.dangles (f : ForeignKey Key Row) (s : Store Key Row) (t : T) (k : Key t)
    (v : Row t) : Bool :=
  match f.target t k v with
  | none => false
  | some j => (s.row f.parent j).isNone

theorem dangles_iff (f : ForeignKey Key Row) (s : Store Key Row) (k : Key f.child)
    (v : Row f.child) : f.dangles s f.child k v = true ↔
      ∃ j, f.column k v = some j ∧ s.row f.parent j = none := by
  simp only [ForeignKey.dangles, target_child]
  cases f.column k v <;> simp

theorem dangles_other (f : ForeignKey Key Row) (s : Store Key Row) (t : T) (k : Key t) (v : Row t)
    (h : t ≠ f.child) : f.dangles s t k v = false := by
  rw [ForeignKey.dangles, ForeignKey.target, dif_neg h]

theorem dangles_parent (f : ForeignKey Key Row) (s : Store Key Row) (k : Key f.child)
    (v : Row f.child) (h : ∀ j, f.column k v = some j → ∃ w, s.row f.parent j = some w) :
    f.dangles s f.child k v = false := by
  rw [Bool.eq_false_iff, ne_eq, dangles_iff]
  rintro ⟨j, hj, hn⟩
  obtain ⟨w, hw⟩ := h j hj
  exact absurd (hn.symm.trans hw) (by simp)

variable [∀ t, DecidableEq (Key t)] [DecidableEq V]

def Unique.clashes (u : Unique Key Row V) (s : Store Key Row) (t : T) (k : Key t)
    (v : Row t) : Bool :=
  if h : t = u.table then
    (s.scan u.table).any (fun p => p.1 ≠ h ▸ k ∧ u.value p.1 p.2 = u.value (h ▸ k) (h ▸ v))
  else false

/-- The row image of a row that meets all constraints. -/
def Constraints.put (S : Constraints Key Row V) (s : Store Key Row) (t : T) (k : Key t)
    (v : Row t) : Except Violation (List (Write Key Row)) :=
  match S.uniques.find? (fun u => u.clashes s t k v) with
  | some u => .error (.unique u.name)
  | none =>
    match S.foreignKeys.find? (fun f => f.dangles (s.set t k (some v)) t k v) with
    | some f => .error (.foreignKey f.name)
    | none => .ok [⟨t, k, some v⟩]

theorem put_ok (S : Constraints Key Row V) (s : Store Key Row) (t : T) (k : Key t) (v : Row t)
    (ws : List (Write Key Row)) (h : S.put s t k v = .ok ws) : ws = [⟨t, k, some v⟩] := by
  unfold Constraints.put at h
  split at h
  · cases h
  · split at h
    · cases h
    · cases h
      rfl

theorem clashes_other (u : Unique Key Row V) (s : Store Key Row) (t : T) (k : Key t) (v : Row t)
    (h : t ≠ u.table) : u.clashes s t k v = false := dif_neg h

/-- Only the constraints on its own table can stop a row. -/
theorem put_accepted (S : Constraints Key Row V) (s : Store Key Row) (t : T) (k : Key t) (v : Row t)
    (hu : ∀ u ∈ S.uniques.filter (fun u => u.table = t), u.clashes s t k v = false)
    (hf : ∀ f ∈ S.foreignKeys.filter (fun f => f.child = t),
      f.dangles (s.set t k (some v)) t k v = false) :
    S.put s t k v = .ok [⟨t, k, some v⟩] := by
  have hu : S.uniques.find? (fun u => u.clashes s t k v) = none := by
    refine List.find?_eq_none.mpr fun u hm => ?_
    by_cases ht : u.table = t
    · simp [hu u (List.mem_filter.mpr ⟨hm, by simpa using ht⟩)]
    · simp [clashes_other u s t k v (Ne.symm ht)]
  have hf : S.foreignKeys.find? (fun f => f.dangles (s.set t k (some v)) t k v) = none := by
    refine List.find?_eq_none.mpr fun f hm => ?_
    by_cases ht : f.child = t
    · simp [hf f (List.mem_filter.mpr ⟨hm, by simpa using ht⟩)]
    · simp [dangles_other f _ t k v (Ne.symm ht)]
  rw [Constraints.put, hu, hf]

theorem clashes_iff (u : Unique Key Row V) (s : Store Key Row) (k : Key u.table)
    (v : Row u.table) : u.clashes s u.table k v = true ↔
      ∃ k' v', s.row u.table k' = some v' ∧ k' ≠ k ∧ u.value k' v' = u.value k v := by
  simp [Unique.clashes, Store.mem_scan]

theorem put_unique (S : Constraints Key Row V) (u : Unique Key Row V) (hu : u ∈ S.uniques)
    (s : Store Key Row) (k : Key u.table) (v : Row u.table) (ws : List (Write Key Row))
    (h : S.put s u.table k v = .ok ws) (k' : Key u.table) (v' : Row u.table)
    (hv : s.row u.table k' = some v') (he : u.value k' v' = u.value k v) : k' = k := by
  unfold Constraints.put at h
  split at h
  · cases h
  · next hc =>
    rw [List.find?_eq_none] at hc
    by_contra hk
    exact hc u hu ((clashes_iff u s k v).mpr ⟨k', v', hv, hk, he⟩)

theorem put_parent (S : Constraints Key Row V) (f : ForeignKey Key Row) (hf : f ∈ S.foreignKeys)
    (s : Store Key Row) (k : Key f.child) (v : Row f.child) (ws : List (Write Key Row))
    (h : S.put s f.child k v = .ok ws) (j : Key f.parent) (hj : f.column k v = some j) :
    ∃ w, (s.set f.child k (some v)).row f.parent j = some w := by
  unfold Constraints.put at h
  split at h
  · cases h
  · split at h
    · cases h
    · next hd =>
      rw [List.find?_eq_none] at hd
      cases hrow : (s.set f.child k (some v)).row f.parent j with
      | some w => exact ⟨w, rfl⟩
      | none => exact absurd ((dangles_iff f _ k v).mpr ⟨j, hj, hrow⟩) (hd f hf)

/-- Putting a row that meets the constraints keeps the store sound. -/
theorem put_sound (S : Constraints Key Row V) (s : Store Key Row) (t : T) (k : Key t) (v : Row t)
    (ws : List (Write Key Row)) (hs : Sound S s) (h : S.put s t k v = .ok ws) :
    Sound S (s.replay ws) := by
  cases put_ok S s t k v ws h
  unfold Constraints.put at h
  split at h
  · cases h
  · next hu =>
    split at h
    · cases h
    · next hf =>
      rw [List.find?_eq_none] at hu hf
      have hkeep : ∀ t' k', (∃ w, s.row t' k' = some w) →
          ∃ w, (s.set t k (some v)).row t' k' = some w := by
        rintro t' k' ⟨w, hw⟩
        by_cases ht : t' = t
        · subst ht
          rw [s.set_row]
          split
          · exact ⟨v, rfl⟩
          · exact ⟨w, hw⟩
        · rw [s.set_table t t' k k' _ ht]
          exact ⟨w, hw⟩
      refine ⟨fun f hfm k' v' j hv hj => ?_, fun u hum k₁ k₂ v₁ v₂ h₁ h₂ he => ?_⟩
      · simp only [Store.replay_cons, Store.replay_nil, Store.write] at hv ⊢
        by_cases ht : f.child = t
        · subst ht
          rw [s.set_row] at hv
          split at hv
          · next hk =>
            subst hk
            cases hv
            cases hd : (s.set f.child k' (some v')).row f.parent j with
            | some w => exact ⟨w, rfl⟩
            | none => exact absurd ((dangles_iff f _ k' v').mpr ⟨j, hj, hd⟩) (hf f hfm)
          · exact hkeep _ _ (hs.parent f hfm k' v' j hv hj)
        · rw [s.set_table t f.child k k' _ ht] at hv
          exact hkeep _ _ (hs.parent f hfm k' v' j hv hj)
      · simp only [Store.replay_cons, Store.replay_nil, Store.write] at h₁ h₂
        by_cases ht : u.table = t
        · subst ht
          rw [s.set_row] at h₁ h₂
          split at h₁ <;> split at h₂
          · next e₁ e₂ => exact e₁.trans e₂.symm
          · next e₁ e₂ =>
            cases h₁
            subst e₁
            exact absurd ((clashes_iff u s k₁ v₁).mpr ⟨k₂, v₂, h₂, e₂, he.symm⟩) (hu u hum)
          · next e₁ e₂ =>
            cases h₂
            subst e₂
            exact absurd ((clashes_iff u s k₂ v₂).mpr ⟨k₁, v₁, h₁, e₁, he⟩) (hu u hum)
          · exact hs.once u hum k₁ k₂ v₁ v₂ h₁ h₂ he
        · rw [s.set_table t u.table k _ _ ht] at h₁ h₂
          exact hs.once u hum k₁ k₂ v₁ v₂ h₁ h₂ he

end Relational
