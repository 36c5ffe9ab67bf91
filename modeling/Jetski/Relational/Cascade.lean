import Mathlib.Algebra.Ring.Nat
import Mathlib.Data.List.Induction
import Jetski.Relational.Store

/-!
# Referential actions

Deleting a row queues one event for every foreign key that references its
table. Events run in the order in which they were queued, so everything the
deletion of a row causes comes before what the rows deleted by a cascade cause.
The rows a completed deletion removes are exactly the ones reached from the
root by cascading keys; a check without action sees the rows that a later
cascade would have removed.
-/

set_option autoImplicit false

namespace Relational

variable {T : Type} {Key Row : T → Type}

inductive OnDelete where
  | cascade
  | setNull
  | noAction
  deriving DecidableEq, Repr

structure ForeignKey (Key Row : T → Type) where
  name : String
  child : T
  parent : T
  column : Key child → Row child → Option (Key parent)
  clear : Row child → Row child := id
  onDelete : OnDelete := .noAction

/-- A pending referential action or check for one deleted parent row. -/
structure Event (Key Row : T → Type) where
  fk : ForeignKey Key Row
  key : Key fk.parent

inductive DeleteError where
  | violates (constraint : String)
  | exhausted
  deriving DecidableEq, Repr

/-! ## Exactly the owned rows are removed -/

/-- The rows reached from the root against the direction of cascading keys. -/
inductive Owned (fks : List (ForeignKey Key Row)) (s : Store Key Row) (root : Ref Key) :
    Ref Key → Prop
  | root : Owned fks s root root
  | child {f : ForeignKey Key Row} {k : Key f.child} {v : Row f.child} {j : Key f.parent} :
      f ∈ fks → f.onDelete = .cascade → s.row f.child k = some v → f.column k v = some j →
      Owned fks s root ⟨f.parent, j⟩ → Owned fks s root ⟨f.child, k⟩

theorem owned_row (fks : List (ForeignKey Key Row)) (s : Store Key Row) (root r : Ref Key)
    (h : Owned fks s root r) : r = root ∨ ∃ v, s.row r.1 r.2 = some v := by
  cases h with
  | root => exact Or.inl rfl
  | child _ _ hv _ _ => exact Or.inr ⟨_, hv⟩

/-- No table has a clearing and a cascading key at once. -/
def Separated (fks : List (ForeignKey Key Row)) : Prop :=
  ∀ f ∈ fks, f.onDelete = .cascade → ∀ g ∈ fks, g.onDelete = .setNull → g.child ≠ f.child

/-- Only owned rows have a clearing key on an owned row. -/
def NullsOwned (fks : List (ForeignKey Key Row)) (s : Store Key Row) (root : Ref Key) : Prop :=
  ∀ f ∈ fks, f.onDelete = .setNull → ∀ k v j, s.row f.child k = some v →
    f.column k v = some j → Owned fks s root ⟨f.parent, j⟩ → Owned fks s root ⟨f.child, k⟩

/-- What holds of the store while the queue of a deletion is worked off. -/
structure Draining (fks : List (ForeignKey Key Row)) (s : Store Key Row) (root : Ref Key)
    (q : List (Event Key Row)) (cur : Store Key Row) : Prop where
  kept : ∀ t k, ¬ Owned fks s root ⟨t, k⟩ → cur.row t k = s.row t k
  intact : ∀ t, (∀ g ∈ fks, g.onDelete = .setNull → g.child ≠ t) →
    ∀ k v, cur.row t k = some v → s.row t k = some v
  queued : ∀ e ∈ q, e.fk ∈ fks ∧ Owned fks s root ⟨e.fk.parent, e.key⟩
  settled : ∀ f ∈ fks, f.onDelete = .cascade → ∀ j, Owned fks s root ⟨f.parent, j⟩ →
    cur.row f.parent j = none →
    ⟨f, j⟩ ∈ q ∨ ∀ k v, cur.row f.child k = some v → f.column k v ≠ some j
  gone : cur.row root.1 root.2 = none

section Owned
variable (fks : List (ForeignKey Key Row)) (s : Store Key Row) (root : Ref Key)

theorem draining_noAction (f : ForeignKey Key Row) (j : Key f.parent) (q : List (Event Key Row))
    (cur : Store Key Row) (hn : f.onDelete = .noAction)
    (h : Draining fks s root (⟨f, j⟩::q) cur) : Draining fks s root q cur where
  kept := h.kept
  intact := h.intact
  queued e he := h.queued e (by simp [he])
  settled g hg hgc i hi hni := by
    rcases h.settled g hg hgc i hi hni with hq | hq
    · rcases List.mem_cons.mp hq with he | he
      · cases he
        rw [hn] at hgc
        cases hgc
      · exact Or.inl he
    · exact Or.inr hq
  gone := h.gone

theorem drained_owned (cur : Store Key Row) (hsep : Separated fks)
    (h : Draining fks s root [] cur) (r : Ref Key) (ho : Owned fks s root r) :
    cur.row r.1 r.2 = none := by
  induction ho with
  | root => exact h.gone
  | @child f k v j hf hc hv hcol ho ih =>
    rcases h.settled f hf hc j ho ih with hq | hq
    · simp at hq
    · cases hk : cur.row f.child k with
      | none => rfl
      | some v' =>
        have hs := h.intact f.child (hsep f hf hc) k v' hk
        cases hv.symm.trans hs
        exact absurd hcol (hq k v hk)

end Owned

/-! ## Working off the queue -/

section References
variable [∀ t, DecidableEq (Key t)]

def ForeignKey.references (f : ForeignKey Key Row) (s : Store Key Row) (j : Key f.parent) :
    List (Key f.child × Row f.child) :=
  (s.scan f.child).filter (fun p => f.column p.1 p.2 = some j)

theorem mem_references (f : ForeignKey Key Row) (s : Store Key Row) (j : Key f.parent)
    (k : Key f.child) (v : Row f.child) :
    (k, v) ∈ f.references s j ↔ s.row f.child k = some v ∧ f.column k v = some j := by
  simp [ForeignKey.references, Store.mem_scan]

theorem references_spec (f : ForeignKey Key Row) (s : Store Key Row) (j : Key f.parent) :
    ∀ p ∈ f.references s j, s.row f.child p.1 = some p.2 :=
  fun p hp => ((mem_references f s j p.1 p.2).mp hp).1

theorem mem_references_key (f : ForeignKey Key Row) (s : Store Key Row) (j : Key f.parent)
    (k : Key f.child) : k ∈ (f.references s j).map Prod.fst ↔
      ∃ v, s.row f.child k = some v ∧ f.column k v = some j := by
  simp only [List.mem_map, Prod.exists, exists_and_right, exists_eq_right, mem_references]

end References

variable [DecidableEq T]

instance (fks : List (ForeignKey Key Row)) : Decidable (Separated fks) :=
  inferInstanceAs (Decidable (∀ f ∈ fks, f.onDelete = .cascade → ∀ g ∈ fks,
    g.onDelete = .setNull → g.child ≠ f.child))

def fire (fks : List (ForeignKey Key Row)) (t : T) (k : Key t) : List (Event Key Row) :=
  fks.filterMap (fun f => if h : t = f.parent then some ⟨f, h ▸ k⟩ else none)

theorem mem_fire_of_mem (fks : List (ForeignKey Key Row)) (f : ForeignKey Key Row)
    (hf : f ∈ fks) (j : Key f.parent) : ⟨f, j⟩ ∈ fire fks f.parent j := by
  simp only [fire, List.mem_filterMap]
  exact ⟨f, hf, by simp⟩

theorem of_mem_fire (fks : List (ForeignKey Key Row)) (t : T) (k : Key t) (e : Event Key Row)
    (h : e ∈ fire fks t k) :
    e.fk ∈ fks ∧ (⟨e.fk.parent, e.key⟩ : Ref Key) = ⟨t, k⟩ := by
  simp only [fire, List.mem_filterMap] at h
  obtain ⟨f, hf, he⟩ := h
  split at he
  · next ht =>
    subst ht
    cases Option.some.inj he
    exact ⟨hf, rfl⟩
  · cases he

theorem fire_length (fks : List (ForeignKey Key Row)) (t : T) (k : Key t) :
    (fire fks t k).length ≤ fks.length :=
  List.length_filterMap_le _ _

variable [∀ t, DecidableEq (Key t)]

/-- One event: its row images and the events that the rows it deletes queue. -/
def Event.act (fks : List (ForeignKey Key Row)) (e : Event Key Row) (s : Store Key Row) :
    Except DeleteError (List (Write Key Row) × List (Event Key Row)) :=
  match e.fk.onDelete with
  | .cascade => .ok ((e.fk.references s e.key).map (fun p => ⟨e.fk.child, p.1, none⟩),
      (e.fk.references s e.key).flatMap (fun p => fire fks e.fk.child p.1))
  | .setNull => .ok ((e.fk.references s e.key).map
      (fun p => ⟨e.fk.child, p.1, some (e.fk.clear p.2)⟩), [])
  | .noAction => if (e.fk.references s e.key).isEmpty then .ok ([], [])
      else .error (.violates e.fk.name)

def drain (fks : List (ForeignKey Key Row)) :
    ℕ → List (Event Key Row) → Store Key Row → Except DeleteError (List (Write Key Row))
  | _, [], _ => .ok []
  | 0, _::_, _ => .error .exhausted
  | n+1, e::q, s =>
    match e.act fks s with
    | .error err => .error err
    | .ok (ws, new) =>
      match drain fks n (q++new) (s.replay ws) with
      | .error err => .error err
      | .ok rest => .ok (ws++rest)

def Store.size (s : Store Key Row) (tables : List T) : ℕ :=
  (tables.map (fun t => (s.scan t).length)).sum

/-- Deletes one row with everything its referential actions demand. -/
def deleteRow (fks : List (ForeignKey Key Row)) (tables : List T) (t : T) (k : Key t)
    (s : Store Key Row) : Except DeleteError (List (Write Key Row)) :=
  match drain fks (s.size tables*(fks.length+1)+fks.length) (fire fks t k) (s.set t k none) with
  | .error err => .error err
  | .ok ws => .ok (⟨t, k, none⟩::ws)

theorem drain_cons_ok (fks : List (ForeignKey Key Row)) (n : ℕ) (e : Event Key Row)
    (q : List (Event Key Row)) (s : Store Key Row) (out : List (Write Key Row))
    (h : drain fks (n+1) (e::q) s = .ok out) :
    ∃ ws new rest, e.act fks s = .ok (ws, new) ∧
      drain fks n (q++new) (s.replay ws) = .ok rest ∧ out = ws++rest := by
  simp only [drain] at h
  split at h
  · cases h
  · next ws new he =>
    split at h
    · cases h
    · next rest hr =>
      cases h
      exact ⟨ws, new, rest, he, hr, rfl⟩

/-! ## Deleting or clearing a batch of rows -/

theorem replay_images_row (s : Store Key Row) (t : T) (ps : List (Key t × Row t))
    (g : Row t → Option (Row t)) (k : Key t) (hs : ∀ p ∈ ps, s.row t p.1 = some p.2) :
    (s.replay (ps.map (fun p => ⟨t, p.1, g p.2⟩))).row t k =
      if k ∈ ps.map Prod.fst then (s.row t k).bind g else s.row t k := by
  induction ps using List.reverseRecOn with
  | nil => rfl
  | append_singleton ps p ih =>
    have hp := hs p (by simp)
    rw [List.map_append, Store.replay_append]
    simp only [List.map_cons, List.map_nil, Store.replay_cons, Store.replay_nil, Store.write,
      Store.set_row, ih (fun p' h' => hs p' (by simp [h']))]
    by_cases hk : k = p.1
    · subst hk
      simp [hp]
    · simp only [hk, if_false, List.map_append, List.map_cons, List.map_nil, List.mem_append,
        List.mem_singleton, or_false]

theorem replay_images_table (s : Store Key Row) (t t' : T) (ps : List (Key t × Row t))
    (g : Row t → Option (Row t)) (k : Key t') (h : t' ≠ t) :
    (s.replay (ps.map (fun p => ⟨t, p.1, g p.2⟩))).row t' k = s.row t' k := by
  apply Store.replay_untouched
  intro w hw ht
  obtain ⟨p, -, rfl⟩ := List.mem_map.mp hw
  exact h (congrArg Sigma.fst ht).symm

theorem replay_images_heap (s : Store Key Row) (t t' : T) (ps : List (Key t × Row t))
    (g : Row t → Option (Row t)) (hs : ∀ p ∈ ps, p.1 ∈ s.heap t) :
    (s.replay (ps.map (fun p => ⟨t, p.1, g p.2⟩))).heap t' = s.heap t' := by
  induction ps generalizing s with
  | nil => rfl
  | cons p ps ih =>
    have hp := hs p (by simp)
    rw [List.map_cons, Store.replay_cons, Store.write, ih, Store.set_heap_of_mem _ _ _ _ _ hp]
    intro p' hp'
    rw [Store.set_heap_of_mem _ _ _ _ _ hp]
    exact hs p' (by simp [hp'])

theorem cascade_row (f : ForeignKey Key Row) (s : Store Key Row) (j : Key f.parent)
    (k : Key f.child) :
    (s.replay ((f.references s j).map (fun p => ⟨f.child, p.1, none⟩))).row f.child k =
      if k ∈ (f.references s j).map Prod.fst then none else s.row f.child k := by
  rw [replay_images_row s f.child _ (fun _ => none) k (references_spec f s j)]
  simp

/-- Clearing a column deletes no row. -/
theorem setNull_none (f : ForeignKey Key Row) (s : Store Key Row) (j : Key f.parent) (t : T)
    (k : Key t) : (s.replay ((f.references s j).map
      (fun p => ⟨f.child, p.1, some (f.clear p.2)⟩))).row t k = none ↔ s.row t k = none := by
  by_cases ht : t = f.child
  · subst ht
    rw [replay_images_row s _ _ (fun v => some (f.clear v)) k (references_spec f s j)]
    split
    · cases s.row f.child k <;> simp
    · exact Iff.rfl
  · rw [replay_images_table s _ t _ (fun v => some (f.clear v)) k ht]

theorem draining_start (fks : List (ForeignKey Key Row)) (s : Store Key Row) (t : T) (k : Key t) :
    Draining fks s ⟨t, k⟩ (fire fks t k) (s.set t k none) where
  kept t' k' h := by
    by_cases ht : t' = t
    · subst ht
      exact s.set_key t' k k' none (fun hk => h (hk ▸ Owned.root))
    · exact s.set_table t t' k k' none ht
  intact t' _ k' v h := by
    by_cases ht : t' = t
    · subst ht
      rw [s.set_row] at h
      split at h
      · cases h
      · exact h
    · rwa [s.set_table t t' k k' none ht] at h
  queued e he := by
    obtain ⟨hf, hk⟩ := of_mem_fire fks t k e he
    exact ⟨hf, hk ▸ Owned.root⟩
  settled f hf _ j ho hj := by
    rcases owned_row fks s ⟨t, k⟩ ⟨f.parent, j⟩ ho with h | ⟨v, hv⟩
    · cases h
      exact Or.inl (mem_fire_of_mem fks f hf j)
    · by_cases hr : (⟨f.parent, j⟩ : Ref Key) = ⟨t, k⟩
      · cases hr
        exact Or.inl (mem_fire_of_mem fks f hf j)
      · have hu := s.write_untouched ⟨t, k, none⟩ f.parent j (fun h => hr h.symm)
        rw [Store.write] at hu
        rw [hu, hv] at hj
        cases hj
  gone := s.set_same t k none

section Step
variable (fks : List (ForeignKey Key Row)) (s : Store Key Row) (root : Ref Key)

theorem draining_cascade (f : ForeignKey Key Row) (j : Key f.parent) (q : List (Event Key Row))
    (cur : Store Key Row) (hsep : Separated fks) (hc : f.onDelete = .cascade)
    (h : Draining fks s root (⟨f, j⟩::q) cur) :
    Draining fks s root (q++(f.references cur j).flatMap (fun p => fire fks f.child p.1))
      (cur.replay ((f.references cur j).map (fun p => ⟨f.child, p.1, none⟩))) := by
  obtain ⟨hf, ho⟩ := h.queued ⟨f, j⟩ (by simp)
  have hrow := cascade_row f cur j
  have htab := fun t' (ht : t' ≠ f.child) k' =>
    replay_images_table cur f.child t' (f.references cur j) (fun _ => none) k' ht
  -- a row that a cascading event removes is owned: its content is still the original one
  have howned : ∀ k, k ∈ (f.references cur j).map Prod.fst → Owned fks s root ⟨f.child, k⟩ := by
    intro k hk
    obtain ⟨v, hv, hcol⟩ := (mem_references_key f cur j k).mp hk
    exact Owned.child hf hc (h.intact f.child (hsep f hf hc) k v hv) hcol ho
  have hsub : ∀ t' k' v, (cur.replay ((f.references cur j).map
      (fun p => ⟨f.child, p.1, none⟩))).row t' k' = some v → cur.row t' k' = some v := by
    intro t' k' v hv
    by_cases ht : t' = f.child
    · subst ht
      rw [hrow] at hv
      split at hv
      · cases hv
      · exact hv
    · rwa [htab t' ht] at hv
  refine ⟨?_, ?_, ?_, ?_, ?_⟩
  · intro t' k' hn
    by_cases ht : t' = f.child
    · subst ht
      rw [hrow, if_neg (fun hk => hn (howned k' hk))]
      exact h.kept _ k' hn
    · rw [htab t' ht]
      exact h.kept t' k' hn
  · exact fun t' ht k' v hv => h.intact t' ht k' v (hsub t' k' v hv)
  · intro e he
    rcases List.mem_append.mp he with he | he
    · exact h.queued e (by simp [he])
    · obtain ⟨p, hp, he⟩ := List.mem_flatMap.mp he
      obtain ⟨hfk, hk⟩ := of_mem_fire fks _ _ e he
      exact ⟨hfk, hk ▸ howned p.1 (List.mem_map_of_mem hp)⟩
  · intro g hg hgc i hi hnone
    by_cases hlive : cur.row g.parent i = none
    · rcases h.settled g hg hgc i hi hlive with hq | hq
      · rcases List.mem_cons.mp hq with he | he
        · cases he
          refine Or.inr fun k v hv hcol => ?_
          have hk := (mem_references_key f cur j k).mpr ⟨v, hsub _ k v hv, hcol⟩
          rw [hrow, if_pos hk] at hv
          cases hv
        · exact Or.inl (by simp [he])
      · exact Or.inr fun k v hv => hq k v (hsub _ k v hv)
    · -- the parent went with this very event, so its own events are queued
      left
      apply List.mem_append_right
      have ht : g.parent = f.child := by
        by_contra ht
        exact hlive (by rwa [htab g.parent ht] at hnone)
      have hm : ∃ p ∈ f.references cur j, (⟨f.child, p.1⟩ : Ref Key) = ⟨g.parent, i⟩ := by
        revert i
        rw [ht]
        intro i hi hnone hlive
        rw [hrow] at hnone
        split at hnone
        · next hk =>
          obtain ⟨p, hp, rfl⟩ := List.mem_map.mp hk
          exact ⟨p, hp, rfl⟩
        · exact absurd hnone hlive
      obtain ⟨p, hp, he⟩ := hm
      refine List.mem_flatMap.mpr ⟨p, hp, ?_⟩
      have := mem_fire_of_mem fks g hg i
      clear hi hnone hlive
      cases g
      simp only at he this ht ⊢
      subst ht
      cases he
      exact this
  · by_cases ht : root.1 = f.child
    · cases hv : (cur.replay ((f.references cur j).map
        (fun p => ⟨f.child, p.1, none⟩))).row root.1 root.2 with
      | none => rfl
      | some v => exact absurd (hsub _ _ v hv) (by simp [h.gone])
    · rw [htab root.1 ht]
      exact h.gone

theorem draining_setNull (f : ForeignKey Key Row) (j : Key f.parent) (q : List (Event Key Row))
    (cur : Store Key Row) (hsep : Separated fks) (hnull : NullsOwned fks s root)
    (hn : f.onDelete = .setNull) (h : Draining fks s root (⟨f, j⟩::q) cur) :
    Draining fks s root q
      (cur.replay ((f.references cur j).map (fun p => ⟨f.child, p.1, some (f.clear p.2)⟩))) := by
  obtain ⟨hf, ho⟩ := h.queued ⟨f, j⟩ (by simp)
  have hrow := fun k => replay_images_row cur f.child (f.references cur j)
    (fun v => some (f.clear v)) k (references_spec f cur j)
  have htab := fun t' (ht : t' ≠ f.child) k' => replay_images_table cur f.child t'
    (f.references cur j) (fun v => some (f.clear v)) k' ht
  have hnone := setNull_none f cur j
  refine ⟨?_, ?_, fun e he => h.queued e (by simp [he]), ?_, (hnone _ _).mpr h.gone⟩
  · intro t' k' hno
    by_cases ht : t' = f.child
    · subst ht
      rw [hrow, if_neg, h.kept _ k' hno]
      intro hk
      obtain ⟨v, hv, hcol⟩ := (mem_references_key f cur j k').mp hk
      rw [h.kept _ k' hno] at hv
      exact hno (hnull f hf hn k' v j hv hcol ho)
    · rw [htab t' ht]
      exact h.kept t' k' hno
  · intro t' ht k' v hv
    rw [htab t' (fun he => ht f hf hn he.symm)] at hv
    exact h.intact t' ht k' v hv
  · intro g hg hgc i hi hni
    rcases h.settled g hg hgc i hi ((hnone _ _).mp hni) with hq | hq
    · rcases List.mem_cons.mp hq with he | he
      · cases he
        rw [hn] at hgc
        cases hgc
      · exact Or.inl he
    · refine Or.inr fun k v hv => hq k v ?_
      rwa [htab g.child (fun he => hsep g hg hgc f hf hn he.symm)] at hv

/-- One event keeps the invariant, whatever its action. -/
theorem draining_act (e : Event Key Row) (q new : List (Event Key Row)) (cur : Store Key Row)
    (ws : List (Write Key Row)) (hsep : Separated fks) (hnull : NullsOwned fks s root)
    (h : Draining fks s root (e::q) cur) (ha : e.act fks cur = .ok (ws, new)) :
    Draining fks s root (q++new) (cur.replay ws) := by
  obtain ⟨f, j⟩ := e
  unfold Event.act at ha
  split at ha
  · next hc =>
    cases ha
    exact draining_cascade fks s root f j q cur hsep hc h
  · next hn =>
    cases ha
    rw [List.append_nil]
    exact draining_setNull fks s root f j q cur hsep hnull hn h
  · next hn =>
    split at ha
    · cases ha
      rw [List.append_nil]
      exact draining_noAction fks s root f j q cur hn h
    · cases ha

theorem draining_drain (n : ℕ) (q : List (Event Key Row)) (cur : Store Key Row)
    (ws : List (Write Key Row)) (hsep : Separated fks) (hnull : NullsOwned fks s root)
    (h : Draining fks s root q cur) (hd : drain fks n q cur = .ok ws) :
    Draining fks s root [] (cur.replay ws) := by
  induction n generalizing q cur ws with
  | zero =>
    cases q with
    | nil =>
      cases hd
      exact h
    | cons e q => cases hd
  | succ n ih =>
    cases q with
    | nil =>
      cases hd
      exact h
    | cons e q =>
      obtain ⟨ws', new, rest, ha, hr, rfl⟩ := drain_cons_ok fks n e q cur ws hd
      rw [Store.replay_append]
      exact ih _ _ _ (draining_act fks s root e q new cur ws' hsep hnull h ha) hr

end Step

/-- A completed deletion removes the owned rows and leaves all others as they were. -/
theorem deleteRow_row (fks : List (ForeignKey Key Row)) (tables : List T) (t : T) (k : Key t)
    (s : Store Key Row) (ws : List (Write Key Row)) (hsep : Separated fks)
    (hnull : NullsOwned fks s ⟨t, k⟩) (h : deleteRow fks tables t k s = .ok ws) (r : Ref Key) :
    (Owned fks s ⟨t, k⟩ r → (s.replay ws).row r.1 r.2 = none) ∧
    (¬ Owned fks s ⟨t, k⟩ r → (s.replay ws).row r.1 r.2 = s.row r.1 r.2) := by
  simp only [deleteRow] at h
  split at h
  · cases h
  · next ws' hd =>
    cases h
    have hend := draining_drain fks s ⟨t, k⟩ _ _ _ ws' hsep hnull
      (draining_start fks s t k) hd
    exact ⟨drained_owned fks s ⟨t, k⟩ _ hsep hend r, hend.kept r.1 r.2⟩

end Relational
