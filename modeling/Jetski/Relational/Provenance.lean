import Jetski.Relational.Schedule

/-!
# Provenance of rows

A row occurs in a configuration if it is committed or waits in the transaction
of some client. A labelling gives each row a label that never changes under its
key, and keys are born once. What is known of the label of a born key therefore
stays true whatever other clients do, and rows may be required to agree with
such knowledge.
-/

set_option autoImplicit false

namespace Relational

variable {T : Type} {Key Row : T → Type} {L ε C O G σ α β Λ : Type}

def Config.Occurs (x : Config Key Row C O G σ) (t : T) (k : Key t) (v : Row t) : Prop :=
  x.srv.db.row t k = some v ∨ ∃ j, (⟨t, k, some v⟩ : Write Key Row) ∈ (x.ses j).pending

/-- Labels of rows, the birth of keys, and what a row must know of others. -/
structure Labelling (Key Row : T → Type) (Λ : Type) where
  label : (t : T) → Row t → Λ
  born : (t : T) → Key t → ℕ
  agrees : ((t : T) → Key t → Λ → Prop) → (t : T) → Key t → Row t → Prop
  mono : ∀ P Q t k v, (∀ t k l, P t k l → Q t k l) → agrees P t k v → agrees Q t k v

section Known
variable (lb : Labelling Key Row Λ)

/-- The key is born, and every row that occurs under it has the label. -/
def Known (x : Config Key Row C O G σ) (t : T) (k : Key t) (l : Λ) : Prop :=
  lb.born t k < x.srv.next ∧ (∃ w, lb.label t w = l) ∧ ∀ v, x.Occurs t k v → lb.label t v = l

/-- Every row that occurs has a known label and agrees with what is known. -/
structure Labelled (x : Config Key Row C O G σ) : Prop where
  started : 0 < x.srv.next
  known : ∀ t k v, x.Occurs t k v → Known lb x t k (lb.label t v)
  agrees : ∀ t k v, x.Occurs t k v → lb.agrees (Known lb x) t k v

/-- There is no row under a key that is not born. -/
theorem labelled_fresh (x : Config Key Row C O G σ) (h : Labelled lb x) (t : T) (k : Key t)
    (hk : x.srv.next ≤ lb.born t k) : x.srv.db.row t k = none := by
  by_contra hne
  obtain ⟨v, hv⟩ := Option.ne_none_iff_exists'.mp hne
  have hborn := (h.known t k v (Or.inl hv)).1
  omega

def Keeps (x y : Config Key Row C O G σ) : Prop :=
  x.srv.next ≤ y.srv.next ∧ ∀ t k l, Known lb x t k l → Known lb y t k l

/-- The relation that is both the rely and the guarantee of every client. -/
def Lawful (x y : Config Key Row C O G σ) : Prop :=
  Labelled lb x → Labelled lb y ∧ Keeps lb x y

/-- A row image keeps the label of its key, or its key is born now, or its
table has only one label. -/
def Allowed (x : Config Key Row C O G σ) (ws : List (Write Key Row)) : Prop :=
  ∀ t k v, (⟨t, k, some v⟩ : Write Key Row) ∈ ws → lb.agrees (Known lb x) t k v ∧
    ((∃ v', x.Occurs t k v' ∧ lb.label t v' = lb.label t v) ∨
      (lb.born t k = x.srv.next ∧
        ∀ v', (⟨t, k, some v'⟩ : Write Key Row) ∈ ws → lb.label t v' = lb.label t v) ∨
      (lb.born t k < x.srv.next ∧ ∀ v', lb.label t v' = lb.label t v))

/-- Fewer rows occur, as when the open transactions are given up. -/
theorem labelled_fewer (x y : Config Key Row C O G σ) (hn : y.srv.next = x.srv.next)
    (hocc : ∀ t k v, y.Occurs t k v → x.Occurs t k v) (h : Labelled lb x) : Labelled lb y := by
  have hknown : ∀ t k l, Known lb x t k l → Known lb y t k l := by
    rintro t k l ⟨hb, hw, hl⟩
    exact ⟨hn ▸ hb, hw, fun v hv => hl v (hocc t k v hv)⟩
  constructor
  · exact hn ▸ h.started
  · intro t k v hv
    exact hknown t k _ (h.known t k v (hocc t k v hv))
  · intro t k v hv
    exact lb.mono _ _ t k v hknown (h.agrees t k v (hocc t k v hv))

theorem keeps_refl (x : Config Key Row C O G σ) : Keeps lb x x :=
  ⟨Nat.le_refl _, fun _ _ _ h => h⟩

theorem keeps_trans (x y z : Config Key Row C O G σ) (h : Keeps lb x y) (h' : Keeps lb y z) :
    Keeps lb x z :=
  ⟨Nat.le_trans h.1 h'.1, fun t k l hk => h'.2 t k l (h.2 t k l hk)⟩

theorem lawful_compatible :
    Compatible (σ := σ) (fun _ => Lawful (C := C) (O := O) (G := G) lb) (fun _ => Lawful lb) where
  refl _ x h := ⟨h, keeps_refl lb x⟩
  trans _ x y z h h' hx := by
    obtain ⟨hy, hk⟩ := h hx
    obtain ⟨hz, hk'⟩ := h' hy
    exact ⟨hz, keeps_trans lb x y z hk hk'⟩
  covers _ _ _ _ _ h := h

theorem allowed_nil (x : Config Key Row C O G σ) : Allowed lb x [] :=
  fun _ _ _ h => nomatch h

section Writes
variable (x y : Config Key Row C O G σ) (ws : List (Write Key Row))
variable (hnext : x.srv.next ≤ y.srv.next)
variable (hocc : ∀ t k v, y.Occurs t k v → x.Occurs t k v ∨ (⟨t, k, some v⟩ : Write Key Row) ∈ ws)
variable (hw : Allowed lb x ws)
include hnext hocc hw

theorem keeps_of_writes : Keeps lb x y := by
  refine ⟨hnext, fun t k l ⟨hb, ⟨w, hl⟩, hk⟩ => ⟨by omega, ⟨w, hl⟩, fun v hv => ?_⟩⟩
  rcases hocc t k v hv with hv | hv
  · exact hk v hv
  · rcases (hw t k v hv).2 with ⟨v', hv', he⟩ | ⟨hb', -⟩ | ⟨-, hc⟩
    · exact he.symm.trans (hk v' hv')
    · omega
    · exact (hc w).symm.trans hl

/-- Removing rows and adding allowed ones keeps every row labelled. -/
theorem labelled_of_writes (hx : Labelled lb x) (hfresh : ws ≠ [] → x.srv.next < y.srv.next) :
    Labelled lb y := by
  have hkeep := keeps_of_writes lb x y ws hnext hocc hw
  have := hx.started
  refine ⟨by omega, fun t k v hv => ?_, fun t k v hv => ?_⟩
  · rcases hocc t k v hv with hv | hv
    · exact hkeep.2 t k _ (hx.known t k v hv)
    · rcases (hw t k v hv).2 with ⟨v', hv', he⟩ | ⟨hb, hsame⟩ | ⟨hb, hc⟩
      · exact he ▸ hkeep.2 t k _ (hx.known t k v' hv')
      · have := hfresh (List.ne_nil_of_mem hv)
        refine ⟨by omega, ⟨v, rfl⟩, fun v' hv' => ?_⟩
        rcases hocc t k v' hv' with hv' | hv'
        · have := (hx.known t k v' hv').1
          omega
        · exact hsame v' hv'
      · exact ⟨by omega, ⟨v, rfl⟩, fun v' _ => hc v'⟩
  · rcases hocc t k v hv with hv | hv
    · exact lb.mono _ _ t k v hkeep.2 (hx.agrees t k v hv)
    · exact lb.mono _ _ t k v hkeep.2 (hw t k v hv).1

end Writes

end Known

/-! ## Where the rows of a step come from -/

theorem mem_pending_drop (s : Session Key Row C O) (n : ℕ) (w : Write Key Row)
    (h : w ∈ (s.levels.drop n).reverse.flatten) : w ∈ s.pending := by
  simp only [Session.pending, List.mem_flatten, List.mem_reverse] at h ⊢
  obtain ⟨l, hl, hw⟩ := h
  exact ⟨l, List.mem_of_mem_drop hl, hw⟩

theorem mem_pending_push (s : Session Key Row C O) (ws : List (Write Key Row))
    (w : Write Key Row) (h : w ∈ (s.push ws).pending) : w ∈ s.pending ∨ w ∈ ws := by
  by_cases hl : s.levels = []
  · simp only [Session.push, hl] at h
    exact Or.inl h
  · rw [s.pending_push ws hl] at h
    exact List.mem_append.mp h

variable [DecidableEq T] [∀ t, DecidableEq (Key t)]

theorem visible_occurs (x : Config Key Row C O G σ) (i : σ) (h : Handle) (t : T) (k : Key t)
    (v : Row t) (hv : ((x.ses i).visible x.srv h).row t k = some v) : x.Occurs t k v := by
  cases h with
  | pool => exact Or.inl hv
  | tx d => exact (Store.replay_row _ _ t k v hv).imp_right (fun hw => ⟨i, hw⟩)

section Exec
variable (be : Backend ε C G) (me : σ) (fail : Bool)

theorem exec_pending (a : Action Key Row L ε C O β) (srv : Server Key Row G σ)
    (s : Session Key Row C O) (w : Write Key Row)
    (hw : w ∈ (a.exec be me fail srv s).2.2.pending) : w ∈ s.pending ∨ w ∈ a.writes srv s := by
  cases a with
  | stmt name h f =>
    cases h with
    | pool =>
      rw [Action.exec] at hw
      split at hw
      · exact Or.inl hw
      · split at hw <;> exact Or.inl hw
    | tx d =>
      rw [Action.exec] at hw
      split at hw
      · exact Or.inl hw
      · split at hw
        · exact Or.inl hw
        · split at hw
          · exact Or.inl hw
          · next hf => simpa [Action.writes, hf] using mem_pending_push _ _ w hw
  | begin h =>
    cases h with
    | pool =>
      rw [Action.exec] at hw
      split at hw
      · exact Or.inl hw
      · simp [Session.pending] at hw
    | tx d =>
      rw [Action.exec] at hw
      split at hw <;> simpa [Session.pending, Action.writes] using hw
  | commit h =>
    left
    by_cases hne : h = .tx 1
    · subst hne
      rw [Action.exec] at hw
      split at hw <;> simp at hw
    · rw [exec_release be me fail srv s h hne] at hw
      split at hw
      · exact hw
      · simpa [Session.pending_release] using hw
  | rollback h =>
    left
    induction h using Handle.level_cases with
    | pool => exact hw
    | outer => simp [Action.exec] at hw
    | inner d hd =>
      rw [exec_rollback_inner be me fail srv s d hd] at hw
      exact mem_pending_drop s _ w hw
  | call c =>
    rw [Action.exec] at hw
    split at hw <;> exact Or.inl hw
  | emit o => exact Or.inl hw

theorem exec_db (a : Action Key Row L ε C O β) (srv : Server Key Row G σ)
    (s : Session Key Row C O) (t : T) (k : Key t) (v : Row t)
    (hv : (a.exec be me fail srv s).2.1.db.row t k = some v) : srv.db.row t k = some v ∨
      (⟨t, k, some v⟩ : Write Key Row) ∈ s.pending ∨
      (⟨t, k, some v⟩ : Write Key Row) ∈ a.writes srv s := by
  cases a with
  | stmt name h f =>
    cases h with
    | pool =>
      rw [Action.exec] at hv
      split at hv
      · exact Or.inl hv
      · split at hv
        · exact Or.inl hv
        · next hf =>
          rcases Store.replay_row _ _ t k v hv with hv | hv
          · exact Or.inl hv
          · exact Or.inr (Or.inr (by simpa [Action.writes, hf] using hv))
    | tx d =>
      rw [Action.exec] at hv
      split at hv
      · exact Or.inl hv
      · split at hv
        · exact Or.inl hv
        · split at hv <;> exact Or.inl hv
  | begin h =>
    cases h with
    | pool =>
      rw [Action.exec] at hv
      split at hv <;> exact Or.inl hv
    | tx d =>
      rw [Action.exec] at hv
      split at hv <;> exact Or.inl hv
  | commit h =>
    by_cases hne : h = .tx 1
    · subst hne
      rw [Action.exec] at hv
      split at hv
      · exact Or.inl hv
      · exact (Store.replay_row _ _ t k v hv).imp_right Or.inl
    · rw [exec_release be me fail srv s h hne] at hv
      split at hv <;> exact Or.inl hv
  | rollback h =>
    induction h using Handle.level_cases with
    | pool | outer => exact Or.inl hv
    | inner d hd =>
      rw [exec_rollback_inner be me fail srv s d hd] at hv
      exact Or.inl hv
  | call c =>
    rw [Action.exec] at hv
    split at hv <;> exact Or.inl hv
  | emit o => exact Or.inl hv

theorem exec_stmt_next (name : L) (h : Handle)
    (f : Tick → Store Key Row → Except ε (β × List (Write Key Row))) (srv : Server Key Row G σ)
    (s : Session Key Row C O) :
    ((Action.stmt name h f : Action Key Row L ε C O _).exec be me fail srv s).2.1.next =
      srv.next+1 := by
  cases h with
  | pool =>
    rw [Action.exec]
    split
    · rfl
    · split <;> rfl
  | tx d =>
    rw [Action.exec]
    split
    · rfl
    · split
      · rfl
      · split <;> rfl

theorem exec_next (a : Action Key Row L ε C O β) (srv : Server Key Row G σ)
    (s : Session Key Row C O) : srv.next ≤ (a.exec be me fail srv s).2.1.next ∧
      (a.writes srv s ≠ [] → srv.next < (a.exec be me fail srv s).2.1.next) := by
  cases a with
  | stmt name h f =>
    rw [exec_stmt_next]
    exact ⟨Nat.le_succ _, fun _ => Nat.lt_succ_self _⟩
  | begin h =>
    refine ⟨?_, fun h => absurd rfl h⟩
    cases h with
    | pool | tx d =>
      rw [Action.exec]
      split <;> exact Nat.le_succ _
  | commit h =>
    refine ⟨?_, fun h => absurd rfl h⟩
    by_cases hne : h = .tx 1
    · subst hne
      rw [Action.exec]
      split <;> exact Nat.le_succ _
    · rw [exec_release be me fail srv s h hne]
      split <;> exact Nat.le_succ _
  | rollback h =>
    refine ⟨?_, fun h => absurd rfl h⟩
    induction h using Handle.level_cases with
    | pool | outer => exact Nat.le_succ _
    | inner d hd =>
      rw [exec_rollback_inner be me fail srv s d hd]
      exact Nat.le_succ _
  | call c =>
    refine ⟨?_, fun h => absurd rfl h⟩
    rw [Action.exec]
    split <;> exact Nat.le_refl _
  | emit o => exact ⟨Nat.le_refl _, fun h => absurd rfl h⟩

/-- A statement that returns rows returned them from what it could see. -/
theorem exec_stmt_ok (name : L) (h : Handle)
    (f : Tick → Store Key Row → Except ε (β × List (Write Key Row))) (srv : Server Key Row G σ)
    (s : Session Key Row C O) (b : β)
    (hb : ((Action.stmt name h f : Action Key Row L ε C O _).exec be me fail srv s).1 = .ok b) :
    ∃ ws, f (s.tick srv h) (s.visible srv h) = .ok (b, ws) := by
  cases h with
  | pool =>
    rw [Action.exec] at hb
    split at hb
    · cases hb
    · split at hb
      · cases hb
      · next hf =>
        cases hb
        exact ⟨_, hf⟩
  | tx d =>
    rw [Action.exec] at hb
    split at hb
    · cases hb
    · split at hb
      · cases hb
      · split at hb
        · cases hb
        · next hf =>
          cases hb
          exact ⟨_, hf⟩

end Exec

variable [DecidableEq σ]

theorem exec_occurs (be : Backend ε C G) (x : Config Key Row C O G σ) (i : σ) (fail : Bool)
    (a : Action Key Row L ε C O β) (t : T) (k : Key t) (v : Row t)
    (h : (x.exec be i fail a).2.Occurs t k v) :
    x.Occurs t k v ∨ (⟨t, k, some v⟩ : Write Key Row) ∈ a.writes x.srv (x.ses i) := by
  rcases h with h | ⟨j, h⟩
  · rcases exec_db be i fail a x.srv (x.ses i) t k v h with h | h | h
    · exact Or.inl (Or.inl h)
    · exact Or.inl (Or.inr ⟨i, h⟩)
    · exact Or.inr h
  · by_cases hj : j = i
    · subst hj
      simp only [Config.exec, Function.update_self] at h
      exact (exec_pending be j fail a x.srv (x.ses j) _ h).imp_left (fun h => Or.inr ⟨j, h⟩)
    · simp only [Config.exec, Function.update_of_ne hj] at h
      exact Or.inl (Or.inr ⟨j, h⟩)

/-! ## Trusted programs -/

section Trusted
variable (lb : Labelling Key Row Λ) (be : Backend ε C G) (permit : Admit Key Row L ε C O G σ)
variable (i : σ)

theorem exec_lawful (x : Config Key Row C O G σ) (fail : Bool) (a : Action Key Row L ε C O β)
    (hw : Labelled lb x → Allowed lb x (a.writes x.srv (x.ses i))) :
    Lawful lb x (x.exec be i fail a).2 := by
  intro hx
  obtain ⟨hle, hlt⟩ := exec_next be i fail a x.srv (x.ses i)
  exact ⟨labelled_of_writes lb x _ _ hle (exec_occurs be x i fail a) (hw hx) hx hlt,
    keeps_of_writes lb x _ _ hle (exec_occurs be x i fail a) (hw hx)⟩

/-- A program all of whose statements write allowed rows, among clients of the same kind. -/
def Trusted (Q : α → Config Key Row C O G σ → Prop) (p : Prog Key Row L ε C O α)
    (x : Config Key Row C O G σ) : Prop :=
  Safe be permit (Lawful lb) (Lawful lb) i (fun a y => Labelled lb y ∧ Q a y) p x

theorem trusted_ret (Q : α → Config Key Row C O G σ → Prop) (a : α)
    (x : Config Key Row C O G σ) (hx : Labelled lb x) (hq : ∀ y, Keeps lb x y → Q a y) :
    Trusted lb be permit i Q (.ret a) x :=
  fun y hy => ⟨(hy hx).1, hq y (hy hx).2⟩

theorem trusted_bind (Q : α → Config Key Row C O G σ → Prop)
    (Q' : β → Config Key Row C O G σ → Prop) (p : Prog Key Row L ε C O α)
    (f : α → Prog Key Row L ε C O β) (x : Config Key Row C O G σ)
    (h : Trusted lb be permit i Q p x)
    (hf : ∀ a y, Labelled lb y → Q a y → Trusted lb be permit i Q' (f a) y) :
    Trusted lb be permit i Q' (p.bind f) x :=
  safe_bind be permit (Lawful lb) (Lawful lb) i _ _ p f
    (fun x hx => ⟨hx, keeps_refl lb x⟩) (fun a y hy => hf a y hy.1 hy.2) x h

theorem trusted_act (Q : α → Config Key Row C O G σ → Prop) (a : Action Key Row L ε C O β)
    (k : β → Prog Key Row L ε C O α) (x : Config Key Row C O G σ) (hx : Labelled lb x)
    (hw : ∀ y, Labelled lb y → Keeps lb x y → Allowed lb y (a.writes y.srv (y.ses i)))
    (hk : ∀ y fail, Labelled lb y → Keeps lb x y → Labelled lb (y.exec be i fail a).2 →
      Keeps lb y (y.exec be i fail a).2 →
      Trusted lb be permit i Q (k (y.exec be i fail a).1) (y.exec be i fail a).2) :
    Trusted lb be permit i Q (.act a k) x := by
  intro y hy fail _
  obtain ⟨hly, hky⟩ := hy hx
  have hlaw := exec_lawful lb be i y fail a (fun h => hw y h hky)
  obtain ⟨hlz, hkz⟩ := hlaw hly
  exact ⟨hlaw, hk y fail hly hky hlz hkz⟩

end Trusted
end Relational
