import Jetski.Relational.Alone

/-!
# Lasting contents

A labelling may keep of every row the contents that no client ever changes. A
statement respects them if each row it stores has the contents of one that was
there, or the key that is drawn for the statement, or belongs to a table that
keeps nothing. A key that has been drawn and occurs nowhere then never carries a
row again. What clients remove occurs nowhere if they remove it only outside of
transactions, since the row locks keep the others away.
-/

set_option autoImplicit false

namespace Relational

variable {T : Type} {Key Row : T → Type} {L ε C O G σ α β Λ : Type}

/-! ## Statements that respect the contents -/

section Programs
variable (lb : Labelling Key Row Λ) (removable : T → Prop)

/-- What a statement that sees the rows may store and remove. -/
structure Lasts (t : Tick) (db : Store Key Row) (ws : List (Write Key Row)) : Prop where
  stored : ∀ tb k v, (⟨tb, k, some v⟩ : Write Key Row) ∈ ws →
    (∃ v', db.row tb k = some v' ∧ lb.label tb v' = lb.label tb v) ∨
    (lb.born tb k = t.fresh ∧
      ∀ v', (⟨tb, k, some v'⟩ : Write Key Row) ∈ ws → lb.label tb v' = lb.label tb v) ∨
    (lb.born tb k = 0 ∧ ∀ v', lb.label tb v' = lb.label tb v)
  removed : ∀ w ∈ ws, w.image = none → removable w.table

theorem lasts_nil (t : Tick) (db : Store Key Row) : Lasts lb removable t db [] := by
  refine ⟨fun tb k v hw => ?_, fun w hw => ?_⟩ <;> cases hw

section Single
variable (t : Tick) (db : Store Key Row) (tb : T) (k : Key tb) (v : Row tb)

theorem lasts_some (h : (∃ v', db.row tb k = some v' ∧ lb.label tb v' = lb.label tb v) ∨
    lb.born tb k = t.fresh ∨ (lb.born tb k = 0 ∧ ∀ v', lb.label tb v' = lb.label tb v)) :
    Lasts lb removable t db [⟨tb, k, some v⟩] := by
  constructor
  · intro tb' k' v' hw
    cases List.mem_singleton.mp hw
    refine h.imp_right (Or.imp_left fun hb => ⟨hb, fun v'' hw' => ?_⟩)
    cases List.mem_singleton.mp hw'
    rfl
  · intro w hw hn
    cases List.mem_singleton.mp hw
    cases hn

theorem lasts_none (h : removable tb) : Lasts lb removable t db [⟨tb, k, none⟩] := by
  constructor
  · intro tb' k' v' hw
    cases List.mem_singleton.mp hw
  · intro w hw _
    cases List.mem_singleton.mp hw
    exact h

end Single

def Action.Lasting : {β : Type} → Action Key Row L ε C O β → Prop
  | _, .stmt _ _ f => ∀ t db b ws, f t db = .ok (b, ws) → Lasts lb removable t db ws
  | _, _ => True

def Prog.Lasting : Prog Key Row L ε C O α → Prop
  | .ret _ => True
  | .act a k => a.Lasting lb removable ∧ ∀ b, (k b).Lasting

theorem lasting_bind (p : Prog Key Row L ε C O α) (f : α → Prog Key Row L ε C O β)
    (hp : p.Lasting lb removable) (hf : ∀ a, (f a).Lasting lb removable) :
    (p.bind f).Lasting lb removable := by
  induction p with
  | ret a => exact hf a
  | act a k ih => exact ⟨hp.1, fun b => ih b (hp.2 b)⟩

def Spares (kept : T → Prop) (w : Write Key Row) : Prop := kept w.table → w.image.isSome

theorem lasting_spares (kept : T → Prop) (hk : ∀ t, removable t → ¬ kept t)
    (p : Prog Key Row L ε C O α) (hp : p.Lasting lb removable) : p.Footprint (Spares kept) := by
  induction p with
  | ret a => trivial
  | act a k ih =>
    refine ⟨?_, fun b => ih b (hp.2 b)⟩
    cases a with
    | stmt name h f =>
      intro t db b ws hf w hw hkept
      by_contra hn
      exact hk _ ((hp.1 t db b ws hf).removed w hw (by simpa using hn)) hkept
    | begin | commit | rollback | call | emit => trivial

def Action.Unopened : {β : Type} → Action Key Row L ε C O β → Prop
  | _, .begin .pool => False
  | _, _ => True

def Prog.Unopened : Prog Key Row L ε C O α → Prop
  | .ret _ => True
  | .act a k => a.Unopened ∧ ∀ b, (k b).Unopened

theorem unopened_bind (p : Prog Key Row L ε C O α) (f : α → Prog Key Row L ε C O β)
    (hp : p.Unopened) (hf : ∀ a, (f a).Unopened) : (p.bind f).Unopened := by
  induction p with
  | ret a => exact hf a
  | act a k ih => exact ⟨hp.1, fun b => ih b (hp.2 b)⟩

/-- A client that removes no such row, or that never has a transaction open. -/
def Orderly (drawn : T → Prop) (p : Prog Key Row L ε C O α) (s : Session Key Row C O) : Prop :=
  (p.Footprint (Spares drawn) ∧ ∀ w ∈ s.pending, Spares drawn w) ∨
    (p.Unopened ∧ s.levels = [])

/-- The key is drawn and occurs nowhere. -/
def Gone (x : Config Key Row C O G σ) (t : T) (k : Key t) : Prop :=
  lb.born t k < x.srv.next ∧ ∀ v, ¬ x.Occurs t k v

/-- In a table that keeps anything such a key stays without a row. -/
theorem gone_keeps (x y : Config Key Row C O G σ) (hk : Keeps lb x y) (t : T) (k : Key t)
    (v v' : Row t) (hv : lb.label t v ≠ lb.label t v') (h : Gone lb x t k) : Gone lb y t k := by
  have hknown : ∀ u, Known lb y t k (lb.label t u) := fun u =>
    hk.2 t k _ ⟨h.1, ⟨u, rfl⟩, fun w hw => absurd hw (h.2 w)⟩
  refine ⟨Nat.lt_of_lt_of_le h.1 hk.1, fun w hw => hv ?_⟩
  exact ((hknown v).2.2 w hw).symm.trans ((hknown v').2.2 w hw)

end Programs

/-! ## Steps -/

section Exec
variable [DecidableEq T] [∀ t, DecidableEq (Key t)]
variable (be : Backend ε C G) (me : σ) (fail : Bool)

theorem exec_unopened (a : Action Key Row L ε C O β) (ha : a.Unopened)
    (srv : Server Key Row G σ) (s : Session Key Row C O) (hs : s.levels = []) :
    (a.exec be me fail srv s).2.2.levels = [] := by
  cases a with
  | stmt name h f =>
    cases h with
    | pool =>
      rw [Action.exec]
      split
      · exact hs
      · split <;> exact hs
    | tx d =>
      rw [Action.exec, if_pos (Or.inr hs)]
      exact hs
  | begin h =>
    cases h with
    | pool => exact ha.elim
    | tx d =>
      rw [Action.exec, if_pos (Or.inr (Or.inr hs))]
      exact hs
  | commit h =>
    by_cases hne : h = .tx 1
    · subst hne
      rw [Action.exec]
      split <;> rfl
    · rw [exec_release be me fail srv s h hne]
      split
      · exact hs
      · simp [Session.release, hs]
  | rollback h =>
    induction h using Handle.level_cases with
    | pool => exact hs
    | outer => rfl
    | inner d hd =>
      rw [exec_rollback_inner be me fail srv s d hd]
      simp [hs]
  | call c =>
    rw [Action.exec]
    split <;> exact hs
  | emit o => exact hs

theorem exec_orderly (drawn : T → Prop) (a : Action Key Row L ε C O β)
    (k : β → Prog Key Row L ε C O α) (srv : Server Key Row G σ) (s : Session Key Row C O)
    (h : Orderly drawn (.act a k) s) :
    Orderly drawn (k (a.exec be me fail srv s).1) (a.exec be me fail srv s).2.2 := by
  rcases h with ⟨hp, hs⟩ | ⟨hp, hs⟩
  · refine Or.inl ⟨hp.2 _, fun w hw => ?_⟩
    exact (exec_pending be me fail a srv s w hw).elim (hs w) (writes_footprint _ a hp.1 srv s w)
  · exact Or.inr ⟨hp.2 _, exec_unopened be me fail a hp.1 srv s hs⟩

variable (lb : Labelling Key Row Λ)

theorem lasting_allowed (hag : ∀ P t k v, lb.agrees P t k v) (x : Config Key Row C O G σ) (i : σ)
    (removable : T → Prop) (a : Action Key Row L ε C O β) (ha : a.Lasting lb removable)
    (hx : Labelled lb x) :
    Allowed lb x (a.writes x.srv (x.ses i)) := by
  intro tb k v hw
  refine ⟨hag _ _ _ _, ?_⟩
  cases a with
  | stmt name h f =>
    rw [Action.writes] at hw
    split at hw
    · next b ws hf =>
      have hfresh : ((x.ses i).tick x.srv h).fresh = x.srv.next := by cases h <;> rfl
      rcases (ha _ _ b ws hf).stored tb k v hw with ⟨v', hv', hl⟩ | ⟨hb, hl⟩ | ⟨hb, hl⟩
      · exact Or.inl ⟨v', visible_occurs x i h tb k v' hv', hl⟩
      · refine Or.inr (Or.inl ⟨hb.trans hfresh, fun v' hw' => hl v' ?_⟩)
        simpa [Action.writes, hf] using hw'
      · exact Or.inr (Or.inr ⟨hb ▸ hx.started, hl⟩)
    · cases hw
  | begin | commit | rollback | call | emit => cases hw

variable [DecidableEq σ]

/-- A removed row occurs nowhere. -/
theorem exec_gone (drawn : T → Prop) (x : Config Key Row C O G σ) (i : σ)
    (a : Action Key Row L ε C O β) (k : β → Prog Key Row L ε C O α) (hx : Labelled lb x)
    (ho : Orderly drawn (.act a k) (x.ses i)) (hu : x.Unlocked i a) (t : T) (ht : drawn t)
    (key : Key t) (hrow : (x.srv.db.row t key).isSome)
    (hnone : (x.exec be i fail a).2.srv.db.row t key = none) :
    Gone lb (x.exec be i fail a).2 t key := by
  obtain ⟨v, hv⟩ := Option.isSome_iff_exists.mp hrow
  obtain ⟨ws, hdb, hws⟩ := exec_replay be i fail a x.srv (x.ses i)
  have hgone : (x.srv.db.replay ws).row t key = none := hdb ▸ hnone
  have hmem : (⟨t, key, none⟩ : Write Key Row) ∈ ws := by
    by_contra hn
    have := x.srv.db.replay_kept ws t key hrow hn
    rw [hgone] at this
    cases this
  refine ⟨Nat.lt_of_lt_of_le (hx.known t key v (Or.inl hv)).1
    (exec_next be i fail a x.srv (x.ses i)).1, fun v' hv' => ?_⟩
  rcases ho with ⟨hp, hs⟩ | ⟨hp, hs⟩
  · have := (hws _ hmem).elim (hs _) (writes_footprint _ a hp.1 x.srv (x.ses i) _) ht
    cases this
  · have hw : (⟨t, key, none⟩ : Write Key Row) ∈ a.writes x.srv (x.ses i) :=
      (hws _ hmem).resolve_left (by simp [Session.pending, hs])
    rcases hv' with hv' | ⟨j, hj⟩
    · rw [hnone] at hv'
      cases hv'
    · by_cases hji : j = i
      · subst hji
        simp [Config.exec, Session.pending, exec_unopened be j fail a hp.1 x.srv _ hs] at hj
      · simp only [Config.exec, Function.update_of_ne hji] at hj
        exact hu j hji _ hw _ hj rfl

end Exec

/-! ## Runs -/

section Runs
variable [DecidableEq T] [∀ t, DecidableEq (Key t)] [DecidableEq σ]
variable (lb : Labelling Key Row Λ) (removable drawn : T → Prop) (be : Backend ε C G)
variable (permit : Admit Key Row L ε C O G σ)

/-- Clients that respect the lasting contents and remove rows in an orderly way. -/
structure Respects (w : World Key Row L ε C O G σ) : Prop where
  labelled : Labelled lb w.cfg
  lasting : ∀ i, (w.prog i).Lasting lb removable
  orderly : ∀ i, Orderly drawn (w.prog i) (w.cfg.ses i)

theorem step_respects (hag : ∀ P t k v, lb.agrees P t k v) (w w' : World Key Row L ε C O G σ)
    (hs : Step be permit w w') (h : Respects lb removable drawn w) :
    Respects lb removable drawn w' ∧ Keeps lb w.cfg w'.cfg := by
  obtain ⟨i, fail, a, k, hp, -⟩ := hs
  have hlast := h.lasting i
  have hord := h.orderly i
  rw [hp] at hlast hord
  obtain ⟨hl, hk⟩ := exec_lawful lb be i w.cfg fail a
    (lasting_allowed lb hag w.cfg i removable a hlast.1) h.labelled
  refine ⟨⟨hl, fun j => ?_, fun j => ?_⟩, hk⟩
  · by_cases hj : j = i
    · subst hj
      simpa using hlast.2 _
    · simpa [hj] using h.lasting j
  · by_cases hj : j = i
    · subst hj
      simpa [Config.exec] using exec_orderly be j fail drawn a k _ _ hord
    · simpa [Config.exec, hj] using h.orderly j

theorem run_respects (hag : ∀ P t k v, lb.agrees P t k v) (w w' : World Key Row L ε C O G σ)
    (hr : Run be permit w w') (h : Respects lb removable drawn w) :
    Respects lb removable drawn w' ∧ Keeps lb w.cfg w'.cfg := by
  induction hr with
  | refl => exact ⟨h, keeps_refl lb w.cfg⟩
  | tail _ hs ih =>
    obtain ⟨hy, hk⟩ := ih
    obtain ⟨hz, hk'⟩ := step_respects lb removable drawn be permit hag _ _ hs hy
    exact ⟨hz, keeps_trans lb _ _ _ hk hk'⟩

/-- The contents of a row last as long as there is a row under its key. -/
theorem run_contents (hag : ∀ P t k v, lb.agrees P t k v) (w w' : World Key Row L ε C O G σ)
    (hr : Run be permit w w') (h : Respects lb removable drawn w) (t : T) (k : Key t) (v v' : Row t)
    (hv : w.cfg.srv.db.row t k = some v) (hv' : w'.cfg.srv.db.row t k = some v') :
    lb.label t v' = lb.label t v := by
  obtain ⟨-, hk⟩ := run_respects lb removable drawn be permit hag w w' hr h
  exact (hk.2 t k _ (h.labelled.known t k v (Or.inl hv))).2.2 v' (Or.inl hv')

/-- A row that was removed never comes back. -/
theorem run_gone (hag : ∀ P t k v, lb.agrees P t k v)
    (hunlocked : ∀ x i fail β (a : Action Key Row L ε C O β), permit x i fail β a →
      x.Unlocked i a)
    (w w' w'' : World Key Row L ε C O G σ) (hr : Run be permit w w') (hr' : Run be permit w' w'')
    (h : Respects lb removable drawn w) (t : T) (ht : drawn t) (k : Key t) (v v' : Row t)
    (hd : lb.label t v ≠ lb.label t v') (hrow : (w.cfg.srv.db.row t k).isSome)
    (hnone : w'.cfg.srv.db.row t k = none) : w''.cfg.srv.db.row t k = none := by
  have hgone : (w'.cfg.srv.db.row t k).isSome ∨ Gone lb w'.cfg t k := by
    clear hr' hnone
    induction hr with
    | refl => exact Or.inl hrow
    | @tail y z hyz hs ih =>
      obtain ⟨hy, -⟩ := run_respects lb removable drawn be permit hag w y hyz h
      obtain ⟨hz, hk⟩ := step_respects lb removable drawn be permit hag y z hs hy
      rcases ih with hsome | hg
      · by_cases hzn : (z.cfg.srv.db.row t k).isSome
        · exact Or.inl hzn
        · obtain ⟨i, fail, a, q, hp, hadm⟩ := hs
          have hord := hy.orderly i
          rw [hp] at hord
          exact Or.inr (exec_gone be fail lb drawn y.cfg i a q hy.labelled hord
            (hunlocked _ _ _ _ _ hadm) t ht k hsome (by simpa using hzn))
      · exact Or.inr (gone_keeps lb _ _ hk t k v v' hd hg)
  rcases hgone with hsome | hg
  · rw [hnone] at hsome
    cases hsome
  · obtain ⟨hw', -⟩ := run_respects lb removable drawn be permit hag w w' hr h
    obtain ⟨-, hk⟩ := run_respects lb removable drawn be permit hag w' w'' hr' hw'
    have hg'' := gone_keeps lb _ _ hk t k v v' hd hg
    exact Option.eq_none_iff_forall_ne_some.mpr fun u hu => hg''.2 u (Or.inl hu)

section Stays
variable (kept : T → Prop)

def AllSpare (w : World Key Row L ε C O G σ) : Prop :=
  ∀ i, (w.prog i).Footprint (Spares kept) ∧ ∀ im ∈ (w.cfg.ses i).pending, Spares kept im

theorem step_spares (w w' : World Key Row L ε C O G σ) (hs : Step be permit w w')
    (h : AllSpare kept w) : AllSpare kept w' ∧ ∀ t, kept t → ∀ k,
      (w.cfg.srv.db.row t k).isSome → (w'.cfg.srv.db.row t k).isSome := by
  obtain ⟨i, fail, a, q, hp, -⟩ := hs
  obtain ⟨hf, hpend⟩ := h i
  rw [hp] at hf
  have hwrites := writes_footprint _ a hf.1 w.cfg.srv (w.cfg.ses i)
  refine ⟨fun j => ?_, fun t ht k hrow => ?_⟩
  · by_cases hj : j = i
    · subst hj
      refine ⟨by simpa using hf.2 _, fun im him => ?_⟩
      simp only [Config.exec, Function.update_self] at him
      exact (exec_pending be j fail a _ _ im him).elim (hpend im) (hwrites im)
    · simpa [Config.exec, hj] using h j
  · obtain ⟨ws, hdb, hws⟩ := exec_replay be i fail a w.cfg.srv (w.cfg.ses i)
    change ((a.exec be i fail w.cfg.srv (w.cfg.ses i)).2.1.db.row t k).isSome
    rw [hdb]
    refine w.cfg.srv.db.replay_kept ws t k hrow fun hm => ?_
    have := (hws _ hm).elim (hpend _) (hwrites _) ht
    cases this

/-- Rows of tables from which no client removes any stay. -/
theorem run_spares (w w' : World Key Row L ε C O G σ) (hr : Run be permit w w')
    (h : AllSpare kept w) : AllSpare kept w' ∧ ∀ t, kept t → ∀ k,
      (w.cfg.srv.db.row t k).isSome → (w'.cfg.srv.db.row t k).isSome := by
  induction hr with
  | refl => exact ⟨h, fun _ _ _ hrow => hrow⟩
  | tail _ hs ih =>
    obtain ⟨hy, hrows⟩ := step_spares be permit kept _ _ hs ih.1
    exact ⟨hy, fun t ht k hrow => hrows t ht k (ih.2 t ht k hrow)⟩

end Stays

end Runs
end Relational
