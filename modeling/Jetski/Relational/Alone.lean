import Jetski.Relational.Provenance

/-!
# Programs that run alone

A program that no other client disturbs is followed action by action. Its
footprint is the set of row images it may write. A finer account keeps one
predicate of the rows at every level of the open transaction: a statement sees
rows that satisfy it and may weaken it, so a rollback never loses what is known,
and what a result tells is remembered as a fact that no longer mentions rows.
Where the failing steps are given, the outcome is followed exactly.
-/

set_option autoImplicit false

namespace Relational

variable {T : Type} {Key Row : T → Type} {L ε C O G σ α β : Type}

/-! ## Footprints -/

def Action.Footprint (P : Write Key Row → Prop) : {β : Type} → Action Key Row L ε C O β → Prop
  | _, .stmt _ _ f => ∀ t db b ws, f t db = .ok (b, ws) → ∀ w ∈ ws, P w
  | _, _ => True

/-- Every row image the program may write satisfies the predicate. -/
def Prog.Footprint (P : Write Key Row → Prop) : Prog Key Row L ε C O α → Prop
  | .ret _ => True
  | .act a k => a.Footprint P ∧ ∀ b, (k b).Footprint P

theorem footprint_bind (P : Write Key Row → Prop) (p : Prog Key Row L ε C O α)
    (f : α → Prog Key Row L ε C O β) (hp : p.Footprint P) (hf : ∀ a, (f a).Footprint P) :
    (p.bind f).Footprint P := by
  induction p with
  | ret a => exact hf a
  | act a k ih => exact ⟨hp.1, fun b => ih b (hp.2 b)⟩

variable [DecidableEq T] [∀ t, DecidableEq (Key t)]

section Exec
variable (be : Backend ε C G) (me : σ) (fail : Bool) (P : Write Key Row → Prop)

/-- The committed rows change by images of the open transaction and of the action. -/
theorem exec_replay (a : Action Key Row L ε C O β) (srv : Server Key Row G σ)
    (s : Session Key Row C O) : ∃ ws, (a.exec be me fail srv s).2.1.db = srv.db.replay ws ∧
      ∀ w ∈ ws, w ∈ s.pending ∨ w ∈ a.writes srv s := by
  have hnil : srv.db = srv.db.replay [] ∧ ∀ w ∈ ([] : List (Write Key Row)),
      w ∈ s.pending ∨ w ∈ a.writes srv s := ⟨rfl, by simp⟩
  cases a with
  | stmt name h f =>
    cases h with
    | pool =>
      rw [Action.exec]
      split
      · exact ⟨[], hnil⟩
      · split
        · exact ⟨[], hnil⟩
        · next ws hf => exact ⟨ws, rfl, fun w hw => Or.inr (by simpa [Action.writes, hf] using hw)⟩
    | tx d =>
      rw [Action.exec]
      split
      · exact ⟨[], hnil⟩
      · split
        · exact ⟨[], hnil⟩
        · split <;> exact ⟨[], hnil⟩
  | begin h =>
    cases h with
    | pool | tx d =>
      rw [Action.exec]
      split <;> exact ⟨[], hnil⟩
  | commit h =>
    by_cases hne : h = .tx 1
    · subst hne
      rw [Action.exec]
      split
      · exact ⟨[], hnil⟩
      · exact ⟨s.pending, rfl, fun w hw => Or.inl hw⟩
    · rw [exec_release be me fail srv s h hne]
      split <;> exact ⟨[], hnil⟩
  | rollback h =>
    induction h using Handle.level_cases with
    | pool | outer => exact ⟨[], hnil⟩
    | inner d hd =>
      rw [exec_rollback_inner be me fail srv s d hd]
      exact ⟨[], hnil⟩
  | call c =>
    rw [Action.exec]
    split <;> exact ⟨[], hnil⟩
  | emit o => exact ⟨[], hnil⟩

/-- What a client has emitted it never takes back. -/
theorem exec_out (a : Action Key Row L ε C O β) (srv : Server Key Row G σ)
    (s : Session Key Row C O) : s.out <+: (a.exec be me fail srv s).2.2.out := by
  have hpush : ∀ ws, (s.push ws).out = s.out := by
    intro ws
    unfold Session.push
    split <;> rfl
  have hrelease : s.release.out = s.out := by
    unfold Session.release
    split <;> rfl
  cases a with
  | stmt name h f =>
    cases h with
    | pool =>
      rw [Action.exec]
      split
      · exact List.prefix_rfl
      · split <;> exact List.prefix_rfl
    | tx d =>
      rw [Action.exec]
      split
      · exact List.prefix_rfl
      · split
        · exact List.prefix_rfl
        · split
          · exact List.prefix_rfl
          · rw [hpush]
  | begin h =>
    cases h with
    | pool | tx d =>
      rw [Action.exec]
      split <;> exact List.prefix_rfl
  | commit h =>
    by_cases hne : h = .tx 1
    · subst hne
      rw [Action.exec]
      split <;> exact List.prefix_rfl
    · rw [exec_release be me fail srv s h hne]
      split
      · exact List.prefix_rfl
      · rw [hrelease]
  | rollback h =>
    induction h using Handle.level_cases with
    | pool | outer => exact List.prefix_rfl
    | inner d hd =>
      rw [exec_rollback_inner be me fail srv s d hd]
  | call c =>
    rw [Action.exec]
    split <;> exact List.prefix_rfl
  | emit o => exact List.prefix_append s.out [o]

theorem writes_footprint (a : Action Key Row L ε C O β) (h : a.Footprint P)
    (srv : Server Key Row G σ) (s : Session Key Row C O) : ∀ w ∈ a.writes srv s, P w := by
  intro w hw
  cases a with
  | stmt name hd f =>
    rw [Action.writes] at hw
    split at hw
    · next b ws hf => exact h _ _ b ws hf w hw
    · cases hw
  | begin | commit | rollback | call | emit => cases hw

/-- What a run commits lies in the footprint. -/
theorem run_footprint (fails : StepName L → Bool) (p : Prog Key Row L ε C O α)
    (h : p.Footprint P) (srv : Server Key Row G σ) (s : Session Key Row C O)
    (hs : ∀ w ∈ s.pending, P w) : ∃ ws, (p.run be me fails srv s).2.1.db = srv.db.replay ws ∧
      ∀ w ∈ ws, P w := by
  induction p generalizing srv s with
  | ret a => exact ⟨[], rfl, by simp⟩
  | act a k ih =>
    have hw := writes_footprint P a h.1 srv s
    obtain ⟨ws, he, hws⟩ := exec_replay be me (fails a.name) a srv s
    obtain ⟨ws', he', hws'⟩ := ih _ (h.2 _) (a.exec be me (fails a.name) srv s).2.1
      (a.exec be me (fails a.name) srv s).2.2
      (fun w hp => (exec_pending be me _ a srv s w hp).elim (hs w) (hw w))
    refine ⟨ws++ws', ?_, fun w hm => ?_⟩
    · rw [Prog.run, he', he, Store.replay_append]
    · rcases List.mem_append.mp hm with hm | hm
      · exact (hws w hm).elim (hs w) (hw w)
      · exact hws' w hm

end Exec

/-! ## Predicates of the rows at every level -/

/-- What is known when a program ends: its result, whether a transaction is
open and the predicate that the rows of every level satisfy. -/
abbrev Post (Key Row : T → Type) (α : Type) := α → Bool → (Store Key Row → Prop) → Prop

section Meets
variable (calls : C → Prop) (outs : O → Prop)

def Action.Meets : {β : Type} → Action Key Row L ε C O β → Post Key Row β → Bool →
    (Store Key Row → Prop) → Prop
  | _, .stmt _ h f, K, o, I => (h = .pool → o = false) ∧ (∀ e, K (.error e) o I) ∧
    ∃ I', (∀ db, I db → I' db) ∧ ∀ t db b ws, I db → f t db = .ok (b, ws) →
      I' (db.replay ws) ∧ K (.ok b) o I'
  | _, .begin .pool, K, o, I => K none o I ∧ K (some (.tx 1)) true I
  | _, .begin (.tx d), K, o, I => K none o I ∧ K (some (.tx (d+1))) o I
  | _, .commit (.tx 1), K, _, I => ∀ b, K b false I
  | _, .commit _, K, o, I => ∀ b, K b o I
  | _, .rollback (.tx 1), K, _, I => K () false I
  | _, .rollback _, K, o, I => K () o I
  | _, .call c, K, o, I => calls c ∧ ∀ b, K b o I
  | _, .emit x, K, o, I => outs x ∧ K () o I

/-- Along the program every call and every output is allowed, and the
postcondition is met at its end, whichever steps fail. -/
def Prog.Meets : Prog Key Row L ε C O α → Post Key Row α → Bool → (Store Key Row → Prop) → Prop
  | .ret a, Q, o, I => Q a o I
  | .act a k, Q, o, I => a.Meets calls outs (fun b o I => (k b).Meets Q o I) o I

/-- The rows of every level satisfy the predicate; statements on the pool are
only sent while no transaction is open. -/
def Holds (I : Store Key Row → Prop) (o : Bool) (srv : Server Key Row G σ)
    (s : Session Key Row C O) : Prop :=
  (o = false → s.levels = []) ∧ ∀ n, I (srv.db.replay (s.levels.drop n).reverse.flatten)

theorem action_meets_mono (K K' : Post Key Row β) (hK : ∀ b o I, K b o I → K' b o I)
    (a : Action Key Row L ε C O β) (o : Bool) (I : Store Key Row → Prop)
    (h : a.Meets calls outs K o I) : a.Meets calls outs K' o I := by
  cases a with
  | stmt name hd f =>
    obtain ⟨ho, he, I', hI, hs⟩ := h
    exact ⟨ho, fun e => hK _ _ _ (he e), I', hI, fun t db b ws hd hf =>
      ⟨(hs t db b ws hd hf).1, hK _ _ _ (hs t db b ws hd hf).2⟩⟩
  | begin hd => cases hd <;> exact ⟨hK _ _ _ h.1, hK _ _ _ h.2⟩
  | commit hd =>
    match hd with
    | .pool | .tx 0 | .tx 1 | .tx (d+2) => exact fun b => hK _ _ _ (h b)
  | rollback hd =>
    match hd with
    | .pool | .tx 0 | .tx 1 | .tx (d+2) => exact hK _ _ _ h
  | call c => exact ⟨h.1, fun b => hK _ _ _ (h.2 b)⟩
  | emit x => exact ⟨h.1, hK _ _ _ h.2⟩

theorem meets_release (K : Post Key Row Bool) (hd : Handle) (hne : hd ≠ .tx 1) (o : Bool)
    (I : Store Key Row → Prop)
    (h : (Action.commit hd : Action Key Row L ε C O Bool).Meets calls outs K o I) (b : Bool) :
    K b o I := by
  cases hd with
  | pool => exact h b
  | tx d =>
    rcases d with _ | _ | d
    · exact h b
    · exact absurd rfl hne
    · exact h b

theorem meets_rollback_inner (K : Post Key Row Unit) (d : ℕ) (hne : d ≠ 1) (o : Bool)
    (I : Store Key Row → Prop)
    (h : (Action.rollback (.tx d) : Action Key Row L ε C O Unit).Meets calls outs K o I) :
    K () o I := by
  rcases d with _ | _ | d
  · exact h
  · exact absurd rfl hne
  · exact h

theorem meets_mono (Q Q' : Post Key Row α) (hQ : ∀ a o I, Q a o I → Q' a o I)
    (p : Prog Key Row L ε C O α) (o : Bool) (I : Store Key Row → Prop)
    (h : p.Meets calls outs Q o I) : p.Meets calls outs Q' o I := by
  induction p generalizing o I with
  | ret a => exact hQ a o I h
  | act a k ih => exact action_meets_mono calls outs _ _ (fun b o I hk => ih b o I hk) a o I h

theorem meets_bind (Q : Post Key Row β) (p : Prog Key Row L ε C O α)
    (f : α → Prog Key Row L ε C O β) (o : Bool) (I : Store Key Row → Prop)
    (h : p.Meets calls outs (fun a o I => (f a).Meets calls outs Q o I) o I) :
    (p.bind f).Meets calls outs Q o I := by
  induction p generalizing o I with
  | ret a => exact h
  | act a k ih => exact action_meets_mono calls outs _ _ (fun b o I hk => ih b o I hk) a o I h

end Meets

/-! ## Soundness -/

section Levels
variable (I : Store Key Row → Prop) (srv : Server Key Row G σ) (s : Session Key Row C O)

theorem holds_db (o : Bool) (h : Holds I o srv s) : I srv.db := by
  simpa using h.2 s.levels.length

theorem holds_view (o : Bool) (h : Holds I o srv s) : I (s.view srv.db) := h.2 0

theorem holds_closed (db : Store Key Row) (hs : srv.db = db) (hl : s.levels = []) (h : I db) :
    Holds I false srv s :=
  ⟨fun _ => hl, fun n => by simpa [hl, hs] using h⟩

/-- Only the rows and the levels matter. -/
theorem holds_congr (o : Bool) (srv' : Server Key Row G σ) (s' : Session Key Row C O)
    (hdb : srv'.db = srv.db) (hl : s'.levels = s.levels) (h : Holds I o srv s) :
    Holds I o srv' s' := by
  rw [Holds, hdb, hl]
  exact h

theorem holds_drop (m : ℕ) (o : Bool) (ho : o = false → s.levels = [])
    (s' : Session Key Row C O) (hl : s'.levels = s.levels.drop m)
    (h : ∀ n, I (srv.db.replay (s.levels.drop n).reverse.flatten)) (srv' : Server Key Row G σ)
    (hdb : srv'.db = srv.db) : Holds I o srv' s' := by
  refine ⟨fun hc => by simp [hl, ho hc], fun n => ?_⟩
  rw [hdb, hl, List.drop_drop]
  exact h (m+n)

theorem holds_push (I' : Store Key Row → Prop) (hI : ∀ db, I db → I' db)
    (ws : List (Write Key Row)) (o : Bool) (h : Holds I o srv s)
    (hv : I' ((s.view srv.db).replay ws)) (srv' : Server Key Row G σ) (hdb : srv'.db = srv.db)
    (hne : s.levels ≠ []) : Holds I' o srv' (s.push ws) := by
  cases hl : s.levels with
  | nil => exact absurd hl hne
  | cons l ls =>
    have hp : (s.push ws).levels = (l++ws)::ls := by simp [Session.push, hl]
    refine ⟨fun hc => absurd (h.1 hc) hne, fun n => ?_⟩
    rw [hp, hdb]
    cases n with
    | zero =>
      rw [Session.view, Session.pending, hl] at hv
      simpa [Store.replay_append] using hv
    | succ n =>
      have := h.2 (n+1)
      rw [hl] at this
      exact hI _ this

theorem holds_release (o : Bool) (h : Holds I o srv s) (srv' : Server Key Row G σ)
    (hdb : srv'.db = srv.db) : Holds I o srv' s.release := by
  unfold Session.release
  split
  · next l l' ls hl =>
    refine ⟨fun hc => absurd (h.1 hc) (by simp [hl]), fun n => ?_⟩
    rw [hdb]
    cases n with
    | zero =>
      have := h.2 0
      simpa [hl] using this
    | succ n =>
      have := h.2 (n+2)
      rw [hl] at this
      exact this
  · exact holds_congr I srv s o srv' s hdb rfl h

end Levels

section Run
variable (be : Backend ε C G) (me : σ) (calls : C → Prop) (outs : O → Prop) (J : G → Prop)
variable (hJ : ∀ c g, calls c → J g → J (be.react c g))
include hJ

theorem exec_meets (fail : Bool) (a : Action Key Row L ε C O β) (K : Post Key Row β) (o : Bool)
    (I : Store Key Row → Prop) (h : a.Meets calls outs K o I) (srv : Server Key Row G σ)
    (s : Session Key Row C O) (hs : Holds I o srv s) (hg : J srv.ext) :
    ∃ o' I', K (a.exec be me fail srv s).1 o' I' ∧
      Holds I' o' (a.exec be me fail srv s).2.1 (a.exec be me fail srv s).2.2 ∧
      J (a.exec be me fail srv s).2.1.ext ∧
      ∀ x ∈ (a.exec be me fail srv s).2.2.out, x ∈ s.out ∨ outs x := by
  have hout : ∀ x ∈ s.out, x ∈ s.out ∨ outs x := fun x hx => Or.inl hx
  have hall := hs.2
  cases a with
  | stmt name hd f =>
    obtain ⟨ho, he, I', hI, hf⟩ := h
    cases hd with
    | pool =>
      have hl := hs.1 (ho rfl)
      rw [Action.exec]
      split
      · exact ⟨o, I, he _, holds_congr I srv s o _ _ rfl rfl hs, hg, hout⟩
      · split
        · exact ⟨o, I, he _, holds_congr I srv s o _ _ rfl rfl hs, hg, hout⟩
        · next b ws hok =>
          obtain ⟨hw, hk⟩ := hf _ _ b ws (holds_db I srv s o hs) hok
          refine ⟨o, I', hk, ?_, hg, hout⟩
          rw [ho rfl]
          exact holds_closed I' _ _ _ rfl hl hw
    | tx d =>
      rw [Action.exec]
      split
      · exact ⟨o, I, he _, holds_congr I srv s o _ _ rfl rfl hs, hg, hout⟩
      · next hne =>
        split
        · exact ⟨o, I, he _, holds_congr I srv s o _ _ rfl rfl hs, hg, hout⟩
        · split
          · exact ⟨o, I, he _, holds_congr I srv s o _ _ rfl rfl hs, hg, hout⟩
          · next b ws hok =>
            obtain ⟨hw, hk⟩ := hf _ _ b ws (holds_view I srv s o hs) hok
            refine ⟨o, I', hk, holds_push I srv s I' hI ws o hs hw _ rfl
              (fun hc => hne (Or.inr hc)), hg, ?_⟩
            intro x hx
            unfold Session.push at hx
            split at hx <;> exact Or.inl hx
  | begin hd =>
    cases hd with
    | pool =>
      rw [Action.exec]
      split
      · exact ⟨o, I, h.1, holds_congr I srv s o _ _ rfl rfl hs, hg, hout⟩
      · refine ⟨true, I, h.2, ⟨by simp, fun n => ?_⟩, hg, hout⟩
        have := holds_db I srv s o hs
        cases n <;> simpa [Server.tock] using this
    | tx d =>
      rw [Action.exec]
      split
      · exact ⟨o, I, h.1, holds_congr I srv s o _ _ rfl rfl hs, hg, hout⟩
      · next hne =>
        refine ⟨o, I, h.2, ⟨fun hc => absurd (hs.1 hc) (fun he => hne (Or.inr (Or.inr he))),
          fun n => ?_⟩, hg, hout⟩
        cases n with
        | zero => simpa [Server.tock] using hall 0
        | succ n => exact hall n
  | commit hd =>
    by_cases hne : hd = .tx 1
    · subst hne
      rw [Action.exec]
      split
      · exact ⟨false, I, h _, holds_closed I _ _ _ rfl rfl (holds_db I srv s o hs), hg, hout⟩
      · exact ⟨false, I, h _, holds_closed I _ _ _ rfl rfl (hall 0), hg, hout⟩
    · have hk := meets_release calls outs K hd hne o I h
      rw [exec_release be me fail srv s hd hne]
      split
      · exact ⟨o, I, hk _, holds_congr I srv s o _ _ rfl rfl hs, hg, hout⟩
      · refine ⟨o, I, hk _, holds_release I srv s o hs _ rfl, hg, ?_⟩
        intro x hx
        unfold Session.release at hx
        split at hx <;> exact Or.inl hx
  | rollback hd =>
    induction hd using Handle.level_cases with
    | pool => exact ⟨o, I, h, holds_congr I srv s o _ _ rfl rfl hs, hg, hout⟩
    | outer => exact ⟨false, I, h, holds_closed I _ _ _ rfl rfl (holds_db I srv s o hs), hg, hout⟩
    | inner d hne =>
      have hk := meets_rollback_inner calls outs K d hne o I h
      rw [exec_rollback_inner be me fail srv s d hne]
      exact ⟨o, I, hk, holds_drop I srv s _ o hs.1 _ rfl hall _ rfl, hg, hout⟩
  | call c =>
    rw [Action.exec]
    split
    · exact ⟨o, I, h.2 _, hs, hg, hout⟩
    · exact ⟨o, I, h.2 _, hs, hJ c _ h.1 hg, hout⟩
  | emit x =>
    refine ⟨o, I, h.2, hs, hg, fun y hy => ?_⟩
    rcases List.mem_append.mp hy with hy | hy
    · exact Or.inl hy
    · cases List.mem_singleton.mp hy
      exact Or.inr h.1

/-- A run ends in the postcondition, whichever of its steps fail. -/
theorem run_meets (fails : StepName L → Bool) (p : Prog Key Row L ε C O α) (Q : Post Key Row α)
    (o : Bool) (I : Store Key Row → Prop) (h : p.Meets calls outs Q o I)
    (srv : Server Key Row G σ) (s : Session Key Row C O) (hs : Holds I o srv s) (hg : J srv.ext) :
    ∃ o' I', Q (p.run be me fails srv s).1 o' I' ∧
      Holds I' o' (p.run be me fails srv s).2.1 (p.run be me fails srv s).2.2 ∧
      J (p.run be me fails srv s).2.1.ext ∧
      ∀ x ∈ (p.run be me fails srv s).2.2.out, x ∈ s.out ∨ outs x := by
  induction p generalizing o I srv s with
  | ret a => exact ⟨o, I, h, hs, hg, fun x hx => Or.inl hx⟩
  | act a k ih =>
    obtain ⟨o₁, I₁, hk, hs₁, hg₁, hout₁⟩ :=
      exec_meets be me calls outs J hJ (fails a.name) a _ o I h srv s hs hg
    obtain ⟨o₂, I₂, hq, hs₂, hg₂, hout₂⟩ := ih _ o₁ I₁ hk _ _ hs₁ hg₁
    refine ⟨o₂, I₂, hq, hs₂, hg₂, fun x hx => ?_⟩
    rcases hout₂ x hx with hx | hx
    · exact hout₁ x hx
    · exact Or.inr hx

end Run

/-! ## Exact outcomes -/

section Outcome
variable (be : Backend ε C G) (me : σ) (fails : StepName L → Bool)

/-- The outcome of a run with the given failing steps satisfies the postcondition. -/
def Prog.Wp (p : Prog Key Row L ε C O α)
    (Q : α → Server Key Row G σ → Session Key Row C O → Prop) (srv : Server Key Row G σ)
    (s : Session Key Row C O) : Prop :=
  Q (p.run be me fails srv s).1 (p.run be me fails srv s).2.1 (p.run be me fails srv s).2.2

variable (Q : α → Server Key Row G σ → Session Key Row C O → Prop)
variable (srv : Server Key Row G σ) (s : Session Key Row C O)

theorem wp_bind (p : Prog Key Row L ε C O β) (f : β → Prog Key Row L ε C O α)
    (h : p.Wp be me fails (fun b srv s => (f b).Wp be me fails Q srv s) srv s) :
    (p.bind f).Wp be me fails Q srv s := by
  rw [Prog.Wp, Prog.run_bind]
  exact h

theorem wp_act (a : Action Key Row L ε C O β) (k : β → Prog Key Row L ε C O α)
    (h : (k (a.exec be me (fails a.name) srv s).1).Wp be me fails Q
      (a.exec be me (fails a.name) srv s).2.1 (a.exec be me (fails a.name) srv s).2.2) :
    (Prog.act a k).Wp be me fails Q srv s := h

/-- A statement on the pool fails by choice or by its own error, or it commits its images. -/
theorem wp_pool (name : L)
    (f : Tick → Store Key Row → Except ε (β × List (Write Key Row)))
    (k : Except ε β → Prog Key Row L ε C O α)
    (he : ∀ e, fails (.stmt name) = true ∨ f (s.tick srv .pool) srv.db = .error e →
      (k (.error e)).Wp be me fails Q srv.tock s)
    (hok : ∀ b ws, fails (.stmt name) = false → f (s.tick srv .pool) srv.db = .ok (b, ws) →
      (k (.ok b)).Wp be me fails Q (srv.apply ⟨me, srv.wal.length, ws⟩).tock s) :
    (Prog.act (.stmt name .pool f) k).Wp be me fails Q srv s := by
  apply wp_act
  rw [Action.exec, Action.name]
  split
  · next h => exact he _ (Or.inl h)
  · next h =>
    split
    · next e hf => exact he e (Or.inr hf)
    · next b ws hf => exact hok b ws (by simpa using h) hf

/-- A statement of a transaction fails and aborts it, or it keeps its images pending. -/
theorem wp_tx (name : L) (d : ℕ)
    (f : Tick → Store Key Row → Except ε (β × List (Write Key Row)))
    (k : Except ε β → Prog Key Row L ε C O α) (ha : s.aborted = false) (hl : s.levels ≠ [])
    (he : ∀ e, fails (.stmt name) = true ∨ f (s.tick srv (.tx d)) (s.view srv.db) = .error e →
      (k (.error e)).Wp be me fails Q srv.tock { s with aborted := true })
    (hok : ∀ b ws, fails (.stmt name) = false →
      f (s.tick srv (.tx d)) (s.view srv.db) = .ok (b, ws) →
      (k (.ok b)).Wp be me fails Q srv.tock (s.push ws)) :
    (Prog.act (.stmt name (.tx d) f) k).Wp be me fails Q srv s := by
  apply wp_act
  rw [Action.exec, Action.name, if_neg (by simp [ha, hl])]
  split
  · next h => exact he _ (Or.inl h)
  · next h =>
    split
    · next e hf => exact he e (Or.inr hf)
    · next b ws hf => exact hok b ws (by simpa using h) hf

theorem wp_begin (k : Option Handle → Prog Key Row L ε C O α) (hl : s.levels = [])
    (hn : fails .begin = true → (k none).Wp be me fails Q srv.tock s)
    (hb : fails .begin = false → (k (some (.tx 1))).Wp be me fails Q srv.tock { s with
      levels := [[]], aborted := false, start := srv.clock, since := srv.wal.length }) :
    (Prog.act (.begin .pool) k).Wp be me fails Q srv s := by
  apply wp_act
  rw [Action.exec, Action.name]
  split
  · next h => exact hn (by simpa [hl] using h)
  · next h => exact hb (by simpa [hl] using h)

/-- An aborted transaction cannot be committed. -/
theorem wp_commit (k : Bool → Prog Key Row L ε C O α)
    (hn : fails .commit = true ∨ s.aborted = true → (k false).Wp be me fails Q srv.tock s.close)
    (hc : fails .commit = false → s.aborted = false →
      (k true).Wp be me fails Q (srv.apply ⟨me, s.since, s.pending⟩).tock s.close) :
    (Prog.act (.commit (.tx 1)) k).Wp be me fails Q srv s := by
  apply wp_act
  rw [Action.exec, Action.name]
  split
  · next h => exact hn h
  · next h =>
    rw [not_or] at h
    exact hc (by simpa using h.1) (by simpa using h.2)

/-- A savepoint is set or the transaction aborts. -/
theorem wp_savepoint (d : ℕ) (k : Option Handle → Prog Key Row L ε C O α)
    (ha : s.aborted = false) (hl : s.levels ≠ [])
    (hn : fails .savepoint = true → (k none).Wp be me fails Q srv.tock { s with aborted := true })
    (hs : fails .savepoint = false → (k (some (.tx (d+1)))).Wp be me fails Q srv.tock
      { s with levels := []::s.levels }) :
    (Prog.act (.begin (.tx d)) k).Wp be me fails Q srv s := by
  apply wp_act
  rw [Action.exec, Action.name]
  split
  · next h => exact hn (by simpa [ha, hl] using h)
  · next h => exact hs (by simpa [ha, hl] using h)

theorem wp_release (d : ℕ) (k : Bool → Prog Key Row L ε C O α) (ha : s.aborted = false)
    (hn : fails .release = true → (k false).Wp be me fails Q srv.tock { s with aborted := true })
    (hr : fails .release = false → (k true).Wp be me fails Q srv.tock s.release) :
    (Prog.act (.commit (.tx (d+2))) k).Wp be me fails Q srv s := by
  apply wp_act
  rw [Action.exec]
  · simp only [Action.name]
    split
    · next h => exact hn (by simpa [ha] using h)
    · next h => exact hr (by simpa [ha] using h)
  · simp

theorem wp_call (c : C) (k : Bool → Prog Key Row L ε C O α)
    (hn : fails .call = true → (k false).Wp be me fails Q srv s)
    (hc : fails .call = false → (k true).Wp be me fails Q { srv with ext := be.react c srv.ext }
      { s with sent := s.sent++[c] }) :
    (Prog.act (.call c) k).Wp be me fails Q srv s := by
  apply wp_act
  rw [Action.exec, Action.name]
  split
  · next h => exact hn h
  · next h => exact hc (by simpa using h)

/-- An undisturbed transaction: the server is as it was, but for its clock, and
the images wait in the session, which has emitted nothing. -/
structure During (srv₀ srv : Server Key Row G σ) (s : Session Key Row C O)
    (ws : List (Write Key Row)) : Prop where
  db : srv.db = srv₀.db
  wal : srv.wal = srv₀.wal
  ext : srv.ext = srv₀.ext
  next : srv₀.next ≤ srv.next
  pending : s.pending = ws
  opened : s.levels ≠ []
  live : s.aborted = false
  out : s.out = []

omit [DecidableEq T] [∀ t, DecidableEq (Key t)] in
/-- A transaction begins on a server that has only answered queries. -/
theorem during_begin (srv₀ : Server Key Row G σ) (hdb : srv.db = srv₀.db)
    (hwal : srv.wal = srv₀.wal)
    (hext : srv.ext = srv₀.ext) (hnext : srv₀.next ≤ srv.next) (ho : s.out = []) (start since : ℕ) :
    During srv₀ srv.tock
      { s with levels := [[]], aborted := false, start := start, since := since } [] :=
  ⟨hdb, hwal, hext, Nat.le_succ_of_le hnext, by simp [Session.pending], by simp, rfl, ho⟩

section During
variable {srv₀ srv s} {ws : List (Write Key Row)} (h : During srv₀ srv s ws)
include h

theorem during_view : s.view srv.db = srv₀.db.replay ws := by
  rw [Session.view, h.db, h.pending]

omit [DecidableEq T] [∀ t, DecidableEq (Key t)] in
theorem during_push (ws' : List (Write Key Row)) : During srv₀ srv.tock (s.push ws') (ws++ws') := by
  have hp := s.pending_push ws' h.opened
  obtain ⟨ls, hpush, hne⟩ := s.push_shape ws' h.opened
  exact ⟨h.db, h.wal, h.ext, Nat.le_succ_of_le h.next, by rw [hp, h.pending],
    by rw [hpush]; exact hne, by rw [hpush]; exact h.live, by rw [hpush]; exact h.out⟩

omit [DecidableEq T] [∀ t, DecidableEq (Key t)] in
theorem during_savepoint : During srv₀ srv.tock { s with levels := []::s.levels } ws :=
  ⟨h.db, h.wal, h.ext, Nat.le_succ_of_le h.next,
    by simpa [Session.pending] using h.pending, by simp, h.live, h.out⟩

omit [DecidableEq T] [∀ t, DecidableEq (Key t)] in
theorem during_release : During srv₀ srv.tock s.release ws := by
  have hp := s.pending_release
  obtain ⟨ls, hr, hne⟩ := s.release_shape h.opened
  exact ⟨h.db, h.wal, h.ext, Nat.le_succ_of_le h.next, by rw [hp, h.pending],
    by rw [hr]; exact hne, by rw [hr]; exact h.live, by rw [hr]; exact h.out⟩

end During
end Outcome
end Relational
