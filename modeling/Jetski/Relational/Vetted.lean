import Jetski.Relational.Alone

/-!
# Vetted rows

A predicate of single rows, whichever client writes them. A program vets its
rows if every statement that sees only rows that satisfy the predicate writes
only such rows. Programs that do so keep the predicate along every schedule, in
the committed rows and in every open transaction.
-/

set_option autoImplicit false

namespace Relational

variable {T : Type} {Key Row : T → Type} {L ε C O G σ α β : Type}

section Programs
variable (P : (t : T) → Key t → Row t → Prop)

def VettedRows (db : Store Key Row) : Prop := ∀ t k v, db.row t k = some v → P t k v

def VettedImages (ws : List (Write Key Row)) : Prop :=
  ∀ t k v, (⟨t, k, some v⟩ : Write Key Row) ∈ ws → P t k v

/-- Every statement on vetted rows writes vetted rows; the results that such
statements have are all that is known of them. -/
def Action.Vetting : {β : Type} → Action Key Row L ε C O β → (β → Prop) → Prop
  | _, .stmt _ _ f, K => (∀ e, K (.error e)) ∧ ∀ t db, VettedRows P db → ∀ b ws,
    f t db = .ok (b, ws) → VettedImages P ws ∧ K (.ok b)
  | _, .begin _, K => ∀ h, K h
  | _, .commit _, K => ∀ ok, K ok
  | _, .rollback _, K => K ()
  | _, .call _, K => ∀ ok, K ok
  | _, .emit _, K => K ()

def Prog.Vetting : Prog Key Row L ε C O α → (α → Prop) → Prop
  | .ret a, Q => Q a
  | .act a k, Q => a.Vetting P (fun b => (k b).Vetting Q)

theorem action_vetting_mono (K K' : β → Prop) (hK : ∀ b, K b → K' b)
    (a : Action Key Row L ε C O β) (h : a.Vetting P K) : a.Vetting P K' := by
  cases a with
  | stmt name hd f =>
    refine ⟨fun e => hK _ (h.1 e), fun t db hdb b ws hf => ?_⟩
    obtain ⟨hw, hk⟩ := h.2 t db hdb b ws hf
    exact ⟨hw, hK _ hk⟩
  | begin hd => exact fun tx => hK _ (h tx)
  | commit hd => exact fun ok => hK _ (h ok)
  | rollback hd => exact hK _ h
  | call c => exact fun ok => hK _ (h ok)
  | emit o => exact hK _ h

theorem vetting_mono (Q Q' : α → Prop) (hQ : ∀ a, Q a → Q' a) (p : Prog Key Row L ε C O α)
    (h : p.Vetting P Q) : p.Vetting P Q' := by
  induction p with
  | ret a => exact hQ a h
  | act a k ih => exact action_vetting_mono P _ _ (fun b hb => ih b hb) a h

theorem vetting_bind (Q : β → Prop) (p : Prog Key Row L ε C O α)
    (f : α → Prog Key Row L ε C O β) (h : p.Vetting P (fun a => (f a).Vetting P Q)) :
    (p.bind f).Vetting P Q := by
  induction p with
  | ret a => exact h
  | act a k ih => exact action_vetting_mono P _ _ (fun b hb => ih b hb) a h

end Programs

section Runs
variable [DecidableEq T] [∀ t, DecidableEq (Key t)]
variable (be : Backend ε C G) (P : (t : T) → Key t → Row t → Prop)

theorem vetted_replay (db : Store Key Row) (ws : List (Write Key Row)) (h : VettedRows P db)
    (hw : VettedImages P ws) : VettedRows P (db.replay ws) := by
  intro t k v hv
  rcases db.replay_row ws t k v hv with hv | hv
  · exact h t k v hv
  · exact hw t k v hv

/-- All rows that occur satisfy the predicate. -/
def Vetted (x : Config Key Row C O G σ) : Prop := ∀ t k v, x.Occurs t k v → P t k v

theorem vetted_visible (x : Config Key Row C O G σ) (h : Vetted P x) (i : σ) (hd : Handle) :
    VettedRows P ((x.ses i).visible x.srv hd) := by
  have hdb : VettedRows P x.srv.db := fun t k v hv => h t k v (Or.inl hv)
  cases hd with
  | pool => exact hdb
  | tx d => exact vetted_replay P _ _ hdb fun t k v hw => h t k v (Or.inr ⟨i, hw⟩)

variable [DecidableEq σ]

theorem exec_vetted (x : Config Key Row C O G σ) (i : σ) (fail : Bool)
    (a : Action Key Row L ε C O β) (K : β → Prop) (h : a.Vetting P K) (hx : Vetted P x) :
    Vetted P (x.exec be i fail a).2 ∧ K (x.exec be i fail a).1 := by
  have hwrites : VettedImages P (a.writes x.srv (x.ses i)) := by
    intro t k v hv
    cases a with
    | stmt name hd f =>
      rw [Action.writes] at hv
      split at hv
      · next b ws hf => exact (h.2 _ _ (vetted_visible P x hx i hd) b ws hf).1 t k v hv
      · cases hv
    | begin | commit | rollback | call | emit => cases hv
  constructor
  · rintro t k v (hv | ⟨j, hj⟩)
    · obtain ⟨ws, he, hws⟩ := exec_replay be i fail a x.srv (x.ses i)
      have hrow : (x.srv.db.replay ws).row t k = some v := he ▸ hv
      rcases x.srv.db.replay_row ws t k v hrow with hv | hv
      · exact hx t k v (Or.inl hv)
      · rcases hws _ hv with hv | hv
        · exact hx t k v (Or.inr ⟨i, hv⟩)
        · exact hwrites t k v hv
    · by_cases hi : j = i
      · subst hi
        simp only [Config.exec, Function.update_self] at hj
        rcases exec_pending be j fail a x.srv (x.ses j) _ hj with hv | hv
        · exact hx t k v (Or.inr ⟨j, hv⟩)
        · exact hwrites t k v hv
      · simp only [Config.exec, Function.update_of_ne hi] at hj
        exact hx t k v (Or.inr ⟨j, hj⟩)
  · change K (a.exec be i fail x.srv (x.ses i)).1
    cases a with
    | stmt name hd f =>
      have hok := h.2 ((x.ses i).tick x.srv hd) _ (vetted_visible P x hx i hd)
      cases hd with
      | pool =>
        rw [Action.exec]
        split
        · exact h.1 _
        · split
          · exact h.1 _
          · next b ws hf => exact (hok b ws hf).2
      | tx d =>
        rw [Action.exec]
        split
        · exact h.1 _
        · split
          · exact h.1 _
          · split
            · exact h.1 _
            · next b ws hf => exact (hok b ws hf).2
    | begin hd => exact h _
    | commit hd => exact h _
    | rollback hd => exact h
    | call c => exact h _
    | emit o => exact h

variable (permit : Admit Key Row L ε C O G σ)

structure Vetting (w : World Key Row L ε C O G σ) : Prop where
  rows : Vetted P w.cfg
  progs : ∀ i, (w.prog i).Vetting P (fun _ => True)

theorem step_vetting (w w' : World Key Row L ε C O G σ) (h : Vetting P w)
    (hs : Step be permit w w') : Vetting P w' := by
  obtain ⟨i, fail, a, k, hp, -⟩ := hs
  have hi := h.progs i
  rw [hp] at hi
  obtain ⟨hrows, hrest⟩ := exec_vetted be P w.cfg i fail a _ hi h.rows
  refine ⟨hrows, fun j => ?_⟩
  by_cases hj : j = i
  · subst hj
    simpa using hrest
  · simpa [hj] using h.progs j

theorem run_vetting (w w' : World Key Row L ε C O G σ) (h : Vetting P w)
    (hr : Run be permit w w') : Vetting P w' := by
  induction hr with
  | refl => exact h
  | tail _ hs ih => exact step_vetting be P permit _ _ ih hs

end Runs
end Relational
