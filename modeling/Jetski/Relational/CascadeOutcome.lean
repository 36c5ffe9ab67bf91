import Mathlib.Algebra.Order.BigOperators.Group.List
import Mathlib.Tactic.Linarith
import Jetski.Relational.Cascade

/-!
# When a deletion completes

The fuel given to the queue always suffices, since a cascade is paid for by the
rows it removes. A deletion completes when every check without action that it
can reach passes, and it fails as soon as one check queued with the root itself
finds a row that no action queued before it touches.
-/

set_option autoImplicit false

namespace Relational

theorem list_sum_shrink {α : Type} (ts : List α) (f g : α → ℕ) (t : α) (r : ℕ) (ht : t ∈ ts)
    (hle : ∀ t', f t' ≤ g t') (hr : f t+r ≤ g t) : (ts.map f).sum+r ≤ (ts.map g).sum := by
  induction ts with
  | nil => cases ht
  | cons a ts ih =>
    simp only [List.map_cons, List.sum_cons]
    rcases List.mem_cons.mp ht with rfl | ht
    · have hs : (ts.map f).sum ≤ (ts.map g).sum := List.sum_le_sum (fun t' _ => hle t')
      omega
    · have := ih ht
      have := hle a
      omega

variable {T : Type} {Key Row : T → Type} [DecidableEq T] [∀ t, DecidableEq (Key t)]

theorem act_heap (fks : List (ForeignKey Key Row)) (e : Event Key Row)
    (s : Store Key Row) (ws : List (Write Key Row)) (new : List (Event Key Row))
    (h : e.act fks s = .ok (ws, new)) (t : T) : (s.replay ws).heap t = s.heap t := by
  have hmem : ∀ p ∈ e.fk.references s e.key, p.1 ∈ s.heap e.fk.child :=
    fun p hp => s.complete _ _ _ (references_spec e.fk s e.key p hp)
  unfold Event.act at h
  split at h
  · cases h
    exact replay_images_heap s _ t _ (fun _ => none) hmem
  · cases h
    exact replay_images_heap s _ t _ (fun v => some (e.fk.clear v)) hmem
  · split at h
    · cases h
      rfl
    · cases h

theorem cascade_scan (f : ForeignKey Key Row) (s : Store Key Row) (j : Key f.parent) :
    (s.replay ((f.references s j).map (fun p => ⟨f.child, p.1, none⟩))).scan f.child =
      (s.scan f.child).filter (fun p => ¬ f.column p.1 p.2 = some j) := by
  have hheap := replay_images_heap s f.child f.child (f.references s j) (fun _ => none)
    (fun p hp => s.complete _ _ _ (references_spec f s j p hp))
  rw [Store.scan, hheap, Store.scan, List.filter_filterMap]
  apply List.filterMap_congr
  intro k _
  rw [cascade_row]
  cases hv : s.row f.child k with
  | none => simp
  | some v =>
    have hm := mem_references_key f s j k
    simp only [hv, Option.some.injEq, exists_eq_left'] at hm
    by_cases hc : f.column k v = some j
    · simp [hm.mpr hc, Option.filter_some, hc]
    · simp [hm, Option.filter_some, hc]

/-- Every event is paid for: a cascade by the rows it deletes, any other by itself. -/
theorem act_measure (fks : List (ForeignKey Key Row)) (tables : List T) (e : Event Key Row)
    (s : Store Key Row) (ws : List (Write Key Row)) (new : List (Event Key Row))
    (ht : e.fk.child ∈ tables) (h : e.act fks s = .ok (ws, new)) :
    (s.replay ws).size tables*(fks.length+1)+new.length ≤ s.size tables*(fks.length+1) := by
  have hheap := act_heap fks e s ws new h
  unfold Event.act at h
  split at h
  · cases h
    have hchild : ((s.replay ((e.fk.references s e.key).map
        (fun p => ⟨e.fk.child, p.1, none⟩))).scan e.fk.child).length +
        (e.fk.references s e.key).length = (s.scan e.fk.child).length := by
      rw [cascade_scan, ForeignKey.references]
      have := List.length_eq_length_filter_add (l := s.scan e.fk.child)
        (fun p => decide (e.fk.column p.1 p.2 = some e.key))
      simp only [decide_not] at this ⊢
      omega
    have hle : ∀ t', ((s.replay ((e.fk.references s e.key).map
        (fun p => ⟨e.fk.child, p.1, none⟩))).scan t').length ≤ (s.scan t').length := by
      intro t'
      by_cases htt : t' = e.fk.child
      · subst htt
        omega
      · apply le_of_eq
        apply Store.scan_length_eq _ _ _ (hheap t')
        intro k
        rw [replay_images_table s _ t' _ (fun _ => none) k htt]
    have hsum := list_sum_shrink tables _ _ _ _ ht hle (le_of_eq hchild)
    have hnew : ((e.fk.references s e.key).flatMap (fun p => fire fks e.fk.child p.1)).length ≤
        (e.fk.references s e.key).length*fks.length := by
      rw [List.length_flatMap]
      calc ((e.fk.references s e.key).map (fun p => (fire fks e.fk.child p.1).length)).sum
          ≤ ((e.fk.references s e.key).map (fun _ => fks.length)).sum :=
            List.sum_le_sum (fun p _ => fire_length fks _ _)
        _ = (e.fk.references s e.key).length*fks.length := by simp
    simp only [Store.size] at hsum ⊢
    nlinarith [Nat.zero_le (e.fk.references s e.key).length]
  · cases h
    apply le_of_eq
    rw [List.length_nil, Nat.add_zero]
    congr 1
    apply congrArg List.sum
    apply List.map_congr_left
    intro t' _
    apply Store.scan_length_eq _ _ _ (hheap t')
    exact setNull_none e.fk s e.key t'
  · split at h
    · cases h
      simp
    · cases h

/-! ## Completion -/

/-- A table no clearing key belongs to only ever loses rows. -/
theorem act_sub (fks : List (ForeignKey Key Row)) (e : Event Key Row) (s : Store Key Row)
    (ws : List (Write Key Row)) (new : List (Event Key Row)) (h : e.act fks s = .ok (ws, new))
    (t : T) (ht : e.fk.onDelete = .setNull → e.fk.child ≠ t) (k : Key t) (v : Row t)
    (hv : (s.replay ws).row t k = some v) : s.row t k = some v := by
  unfold Event.act at h
  split at h
  · cases h
    by_cases htt : t = e.fk.child
    · subst htt
      rw [cascade_row] at hv
      split at hv
      · cases hv
      · exact hv
    · rwa [replay_images_table s _ t _ (fun _ => none) k htt] at hv
  · next hn =>
    cases h
    rwa [replay_images_table s _ t _ (fun v => some (e.fk.clear v)) k (ht hn).symm] at hv
  · split at h
    · cases h
      exact hv
    · cases h

/-- Cascades reach no table that a check without action guards. -/
def Guarded (fks : List (ForeignKey Key Row)) : Prop :=
  ∀ f ∈ fks, f.onDelete = .cascade → ∀ g ∈ fks, g.parent = f.child → g.onDelete ≠ .noAction

instance (fks : List (ForeignKey Key Row)) : Decidable (Guarded fks) :=
  inferInstanceAs (Decidable (∀ f ∈ fks, f.onDelete = .cascade → ∀ g ∈ fks,
    g.parent = f.child → g.onDelete ≠ .noAction))

/-- The check of a queued event passes now and after any further events. -/
def Passes (fks : List (ForeignKey Key Row)) (s : Store Key Row) (e : Event Key Row) : Prop :=
  e.fk.onDelete = .noAction →
    (∀ g ∈ fks, g.onDelete = .setNull → g.child ≠ e.fk.child) ∧
    ∀ k v, s.row e.fk.child k = some v → e.fk.column k v ≠ some e.key

theorem act_ok (fks : List (ForeignKey Key Row)) (e : Event Key Row) (s : Store Key Row)
    (h : Passes fks s e) : ∃ ws new, e.act fks s = .ok (ws, new) := by
  unfold Event.act
  split
  · exact ⟨_, _, rfl⟩
  · exact ⟨_, _, rfl⟩
  · next hn =>
    have hnil : e.fk.references s e.key = [] := by
      apply List.eq_nil_iff_forall_not_mem.mpr
      intro p hp
      obtain ⟨hv, hc⟩ := (mem_references e.fk s e.key p.1 p.2).mp hp
      exact (h hn).2 p.1 p.2 hv hc
    exact ⟨[], [], by simp [hnil]⟩

theorem act_new_passes (fks : List (ForeignKey Key Row)) (e : Event Key Row) (s s' : Store Key Row)
    (ws : List (Write Key Row)) (new : List (Event Key Row)) (hg : Guarded fks)
    (he : e.fk ∈ fks) (h : e.act fks s = .ok (ws, new)) :
    ∀ e' ∈ new, e'.fk ∈ fks ∧ Passes fks s' e' := by
  intro e' he'
  unfold Event.act at h
  split at h
  · next hc =>
    cases h
    obtain ⟨p, -, hp⟩ := List.mem_flatMap.mp he'
    obtain ⟨hf, hr⟩ := of_mem_fire fks _ _ e' hp
    exact ⟨hf, fun hn => absurd hn (hg e.fk he hc e'.fk hf (congrArg Sigma.fst hr))⟩
  · cases h
    cases he'
  · split at h
    · cases h
      cases he'
    · cases h

theorem drain_completes (fks : List (ForeignKey Key Row)) (tables : List T)
    (ht : ∀ f ∈ fks, f.child ∈ tables) (hg : Guarded fks) (n : ℕ) (q : List (Event Key Row))
    (s : Store Key Row) (hq : ∀ e ∈ q, e.fk ∈ fks ∧ Passes fks s e)
    (hn : s.size tables*(fks.length+1)+q.length ≤ n) : ∃ ws, drain fks n q s = .ok ws := by
  induction n generalizing q s with
  | zero =>
    cases q with
    | nil => exact ⟨[], rfl⟩
    | cons e q =>
      rw [List.length_cons] at hn
      omega
  | succ n ih =>
    cases q with
    | nil => exact ⟨[], rfl⟩
    | cons e q =>
      obtain ⟨he, hp⟩ := hq e (by simp)
      obtain ⟨ws, new, ha⟩ := act_ok fks e s hp
      have hm := act_measure fks tables e s ws new (ht _ he) ha
      have hnext : ∀ e' ∈ q++new, e'.fk ∈ fks ∧ Passes fks (s.replay ws) e' := by
        intro e' he'
        rcases List.mem_append.mp he' with h | h
        · obtain ⟨hf, hpass⟩ := hq e' (by simp [h])
          refine ⟨hf, fun hno => ⟨(hpass hno).1, fun k v hv => (hpass hno).2 k v ?_⟩⟩
          exact act_sub fks e s ws new ha _ (fun hs => (hpass hno).1 e.fk he hs) k v hv
        · exact act_new_passes fks e s _ ws new hg he ha e' h
      obtain ⟨rest, hr⟩ := ih (q++new) (s.replay ws) hnext (by
        simp only [List.length_append, List.length_cons] at hn ⊢
        omega)
      exact ⟨ws++rest, by simp [drain, ha, hr]⟩

theorem size_set_none (s : Store Key Row) (tables : List T) (t : T) (k : Key t)
    (hk : k ∈ s.heap t) : (s.set t k none).size tables ≤ s.size tables := by
  apply List.sum_le_sum
  intro t' _
  rw [Store.scan, Store.scan, s.set_heap_of_mem t t' k none hk, List.length_filterMap_eq_countP,
    List.length_filterMap_eq_countP]
  apply List.countP_mono_left
  intro k' _ h
  by_cases ht : t' = t
  · subst ht
    rw [Store.set_row] at h
    split at h
    · simp at h
    · exact h
  · rwa [s.set_table t t' k k' none ht] at h

/-- A deletion completes when nothing references the root through a key without action. -/
theorem deleteRow_completes (fks : List (ForeignKey Key Row)) (tables : List T) (t : T) (k : Key t)
    (s : Store Key Row) (ht : ∀ f ∈ fks, f.child ∈ tables) (hg : Guarded fks)
    (hk : k ∈ s.heap t) (hp : ∀ e ∈ fire fks t k, Passes fks (s.set t k none) e) :
    ∃ ws, deleteRow fks tables t k s = .ok ws := by
  obtain ⟨ws, h⟩ := drain_completes fks tables ht hg
    (s.size tables*(fks.length+1)+fks.length) (fire fks t k) (s.set t k none)
    (fun e he => ⟨(of_mem_fire fks t k e he).1, hp e he⟩) (by
      have := fire_length fks t k
      have := Nat.mul_le_mul_right (fks.length+1) (size_set_none s tables t k hk)
      omega)
  exact ⟨⟨t, k, none⟩::ws, by simp [deleteRow, h]⟩

/-! ## Failure -/

/-- A check without action queued in the first batch fails when the row it
finds belongs to a table that the actions of that batch leave alone. -/
theorem drain_blocked (fks : List (ForeignKey Key Row)) (n : ℕ)
    (batch rest : List (Event Key Row)) (s : Store Key Row) (e : Event Key Row)
    (he : e ∈ batch) (hn : e.fk.onDelete = .noAction) (k : Key e.fk.child) (v : Row e.fk.child)
    (hv : s.row e.fk.child k = some v) (hc : e.fk.column k v = some e.key)
    (hb : ∀ e' ∈ batch, e'.fk.onDelete ≠ .noAction → e'.fk.child ≠ e.fk.child) :
    ∀ ws, drain fks n (batch++rest) s ≠ .ok ws := by
  induction batch generalizing n rest s with
  | nil => cases he
  | cons e' batch ih =>
    intro ws h
    cases n with
    | zero => cases h
    | succ n =>
      obtain ⟨ws', new, out, ha, hr, -⟩ := drain_cons_ok fks n e' (batch++rest) s ws h
      rcases List.mem_cons.mp he with rfl | he
      · have hmem := (mem_references e.fk s e.key k v).mpr ⟨hv, hc⟩
        simp only [Event.act, hn] at ha
        split at ha
        · next hemp =>
          rw [List.isEmpty_iff.mp hemp] at hmem
          cases hmem
        · cases ha
      · have hv' : (s.replay ws').row e.fk.child k = some v := by
          have hne := hb e' (by simp)
          unfold Event.act at ha
          split at ha
          · next hc' =>
            cases ha
            rw [replay_images_table s _ _ _ (fun _ => none) k (hne (by simp [hc'])).symm]
            exact hv
          · next hc' =>
            cases ha
            rw [replay_images_table s _ _ _ (fun v => some (e'.fk.clear v)) k
              (hne (by simp [hc'])).symm]
            exact hv
          · split at ha
            · cases ha
              exact hv
            · cases ha
        rw [List.append_assoc] at hr
        exact ih n (rest++new) _ he hv' (fun e'' h'' => hb e'' (by simp [h''])) out hr

theorem deleteRow_blocked (fks : List (ForeignKey Key Row)) (tables : List T)
    (f : ForeignKey Key Row) (hf : f ∈ fks) (hn : f.onDelete = .noAction) (j : Key f.parent)
    (s : Store Key Row) (k : Key f.child) (v : Row f.child) (hself : f.child ≠ f.parent)
    (hv : s.row f.child k = some v) (hc : f.column k v = some j)
    (hb : ∀ g ∈ fks, g.parent = f.parent → g.onDelete ≠ .noAction → g.child ≠ f.child) :
    ∀ ws, deleteRow fks tables f.parent j s ≠ .ok ws := by
  intro ws h
  simp only [deleteRow] at h
  split at h
  · cases h
  · next ws' hd =>
    refine drain_blocked fks _ (fire fks f.parent j) [] (s.set f.parent j none) ⟨f, j⟩
      (mem_fire_of_mem fks f hf j) hn k v ?_ hc ?_ ws' (by rwa [List.append_nil])
    · rw [s.set_table f.parent f.child j k none hself]
      exact hv
    · intro e' he' hne
      obtain ⟨hm, hr⟩ := of_mem_fire fks f.parent j e' he'
      exact hb e'.fk hm (congrArg Sigma.fst hr) hne

/-! ## What the images of a deletion satisfy -/

/-- A row image of a drained queue is that of a cleared row. -/
theorem drain_images (fks : List (ForeignKey Key Row)) (R P : (t : T) → Key t → Row t → Prop)
    (hclear : ∀ f ∈ fks, f.onDelete = .setNull → ∀ k v, R f.child k v → P f.child k (f.clear v))
    (hP : ∀ t k v, P t k v → R t k v) (n : ℕ)
    (q : List (Event Key Row)) (s : Store Key Row) (ws : List (Write Key Row))
    (hq : ∀ e ∈ q, e.fk ∈ fks) (hs : ∀ t k v, s.row t k = some v → R t k v)
    (h : drain fks n q s = .ok ws) :
    ∀ t k v, (⟨t, k, some v⟩ : Write Key Row) ∈ ws → P t k v := by
  induction n generalizing q s ws with
  | zero =>
    cases q with
    | nil =>
      cases h
      simp
    | cons e q => cases h
  | succ n ih =>
    cases q with
    | nil =>
      cases h
      simp
    | cons e q =>
      obtain ⟨ws', new, rest, ha, hr, rfl⟩ := drain_cons_ok fks n e q s ws h
      have hact : ∀ t k v, (⟨t, k, some v⟩ : Write Key Row) ∈ ws' → P t k v := by
        intro t k v hw
        unfold Event.act at ha
        split at ha
        · cases ha
          obtain ⟨p, -, hp⟩ := List.mem_map.mp hw
          cases hp
        · next hnull =>
          cases ha
          obtain ⟨p, hp, he⟩ := List.mem_map.mp hw
          cases he
          exact hclear e.fk (hq e (by simp)) hnull _ _
            (hs _ _ _ (references_spec e.fk s e.key p hp))
        · split at ha
          · cases ha
            cases hw
          · cases ha
      have hnew : ∀ e' ∈ q++new, e'.fk ∈ fks := by
        intro e' he'
        rcases List.mem_append.mp he' with he' | he'
        · exact hq e' (by simp [he'])
        · unfold Event.act at ha
          split at ha
          · cases ha
            obtain ⟨p, -, hp⟩ := List.mem_flatMap.mp he'
            exact (of_mem_fire fks _ _ e' hp).1
          · cases ha
            cases he'
          · split at ha
            · cases ha
              cases he'
            · cases ha
      intro t k v hw
      rcases List.mem_append.mp hw with hw | hw
      · exact hact t k v hw
      · exact ih _ _ _ hnew (fun t k v hv => (Store.replay_row s ws' t k v hv).elim
          (hs t k v) (fun hv => hP t k v (hact t k v hv))) hr t k v hw

theorem deleteRow_cleared (fks : List (ForeignKey Key Row)) (tables : List T)
    (R P : (t : T) → Key t → Row t → Prop)
    (hclear : ∀ f ∈ fks, f.onDelete = .setNull → ∀ k v, R f.child k v → P f.child k (f.clear v))
    (hP : ∀ t k v, P t k v → R t k v) (t : T) (k : Key t) (s : Store Key Row)
    (ws : List (Write Key Row)) (hs : ∀ t k v, s.row t k = some v → R t k v)
    (h : deleteRow fks tables t k s = .ok ws) :
    ∀ t k v, (⟨t, k, some v⟩ : Write Key Row) ∈ ws → P t k v := by
  simp only [deleteRow] at h
  split at h
  · cases h
  · next ws' hd =>
    cases h
    intro t' k' v hw
    rcases List.mem_cons.mp hw with he | hw
    · cases he
    · refine drain_images fks R P hclear hP _ _ _ ws'
        (fun e he => (of_mem_fire fks t k e he).1) (fun t' k' v hv => hs t' k' v ?_) hd t' k' v hw
      rcases s.replay_row [⟨t, k, none⟩] t' k' v hv with hv | hv
      · exact hv
      · cases List.mem_singleton.mp hv

/-- A property of all rows that clearing keeps holds of every image of a deletion. -/
theorem deleteRow_images (fks : List (ForeignKey Key Row)) (tables : List T)
    (P : (t : T) → Key t → Row t → Prop)
    (hclear : ∀ f ∈ fks, ∀ k v, P f.child k v → P f.child k (f.clear v)) (t : T) (k : Key t)
    (s : Store Key Row) (ws : List (Write Key Row)) (hs : ∀ t k v, s.row t k = some v → P t k v)
    (h : deleteRow fks tables t k s = .ok ws) :
    ∀ t k v, (⟨t, k, some v⟩ : Write Key Row) ∈ ws → P t k v :=
  deleteRow_cleared fks tables P P (fun f hf _ => hclear f hf) (fun _ _ _ hv => hv) t k s ws hs h

/-! ## Which tables a deletion reaches -/

theorem drain_tables (fks : List (ForeignKey Key Row)) (S : T → Prop)
    (hS : ∀ f ∈ fks, f.onDelete ≠ .noAction → S f.parent → S f.child) (n : ℕ)
    (q : List (Event Key Row)) (s : Store Key Row) (ws : List (Write Key Row))
    (hq : ∀ e ∈ q, e.fk ∈ fks ∧ S e.fk.parent) (h : drain fks n q s = .ok ws) :
    ∀ w ∈ ws, S w.table := by
  induction n generalizing q s ws with
  | zero =>
    cases q with
    | nil =>
      cases h
      simp
    | cons e q => cases h
  | succ n ih =>
    cases q with
    | nil =>
      cases h
      simp
    | cons e q =>
      obtain ⟨ws', new, rest, ha, hr, rfl⟩ := drain_cons_ok fks n e q s ws h
      obtain ⟨hf, hp⟩ := hq e (by simp)
      have hact : (∀ w ∈ ws', S w.table) ∧ ∀ e' ∈ new, e'.fk ∈ fks ∧ S e'.fk.parent := by
        unfold Event.act at ha
        split at ha
        · next hc =>
          cases ha
          have hchild := hS e.fk hf (by simp [hc]) hp
          refine ⟨fun w hw => ?_, fun e' he' => ?_⟩
          · obtain ⟨p, -, rfl⟩ := List.mem_map.mp hw
            exact hchild
          · obtain ⟨p, -, he'⟩ := List.mem_flatMap.mp he'
            obtain ⟨hm, hr'⟩ := of_mem_fire fks _ _ e' he'
            have hpar : e'.fk.parent = e.fk.child := congrArg Sigma.fst hr'
            exact ⟨hm, hpar ▸ hchild⟩
        · next hn =>
          cases ha
          refine ⟨fun w hw => ?_, by simp⟩
          obtain ⟨p, -, rfl⟩ := List.mem_map.mp hw
          exact hS e.fk hf (by simp [hn]) hp
        · split at ha
          · cases ha
            exact ⟨by simp, by simp⟩
          · cases ha
      intro w hw
      rcases List.mem_append.mp hw with hw | hw
      · exact hact.1 w hw
      · refine ih _ _ _ (fun e' he' => ?_) hr w hw
        exact (List.mem_append.mp he').elim (fun h => hq e' (by simp [h])) (hact.2 e')

/-- A deletion writes only tables that its actions reach. -/
theorem deleteRow_tables (fks : List (ForeignKey Key Row)) (tables : List T) (S : T → Prop)
    (hS : ∀ f ∈ fks, f.onDelete ≠ .noAction → S f.parent → S f.child) (t : T) (k : Key t)
    (s : Store Key Row) (ws : List (Write Key Row)) (ht : S t)
    (h : deleteRow fks tables t k s = .ok ws) : ∀ w ∈ ws, S w.table := by
  simp only [deleteRow] at h
  split at h
  · cases h
  · next ws' hd =>
    cases h
    intro w hw
    rcases List.mem_cons.mp hw with rfl | hw
    · exact ht
    · refine drain_tables fks S hS _ _ _ ws' (fun e he => ?_) hd w hw
      obtain ⟨hm, hr⟩ := of_mem_fire fks t k e he
      have hpar : e.fk.parent = t := congrArg Sigma.fst hr
      exact ⟨hm, hpar ▸ ht⟩

end Relational
