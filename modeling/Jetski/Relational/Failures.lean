import Jetski.Relational.Alone

/-!
# Any step may fail

A program that runs alone while each of its steps may fail on its own, the
same step at one occurrence and not at another. A postcondition holds always
if it holds whichever steps fail.
-/

set_option autoImplicit false

namespace Relational

variable {T : Type} {Key Row : T → Type} {L ε C O G σ α β : Type}
variable [DecidableEq T] [∀ t, DecidableEq (Key t)]

section Always
variable (be : Backend ε C G) (me : σ)

/-- The outcome satisfies the postcondition for every choice of failing steps. -/
def Prog.Always (Q : α → Server Key Row G σ → Session Key Row C O → Prop) :
    Prog Key Row L ε C O α → Server Key Row G σ → Session Key Row C O → Prop
  | .ret a, srv, s => Q a srv s
  | .act a k, srv, s => ∀ fail : Bool, (k (a.exec be me fail srv s).1).Always Q
      (a.exec be me fail srv s).2.1 (a.exec be me fail srv s).2.2

variable (Q Q' : α → Server Key Row G σ → Session Key Row C O → Prop)

theorem always_mono (hq : ∀ a srv s, Q a srv s → Q' a srv s) (p : Prog Key Row L ε C O α)
    (srv : Server Key Row G σ) (s : Session Key Row C O) (h : p.Always be me Q srv s) :
    p.Always be me Q' srv s := by
  induction p generalizing srv s with
  | ret a => exact hq a srv s h
  | act a k ih => exact fun fail => ih _ _ _ (h fail)

theorem always_bind (p : Prog Key Row L ε C O β) (f : β → Prog Key Row L ε C O α)
    (srv : Server Key Row G σ) (s : Session Key Row C O)
    (h : p.Always be me (fun b srv s => (f b).Always be me Q srv s) srv s) :
    (p.bind f).Always be me Q srv s := by
  induction p generalizing srv s with
  | ret b => exact h
  | act a k ih => exact fun fail => ih _ _ _ (h fail)

/-- A choice by the names of the steps is one of the choices. -/
theorem always_run (fails : StepName L → Bool) (p : Prog Key Row L ε C O α)
    (srv : Server Key Row G σ) (s : Session Key Row C O) (h : p.Always be me Q srv s) :
    p.Wp be me fails Q srv s := by
  induction p generalizing srv s with
  | ret a => exact h
  | act a k ih => exact ih _ _ _ (h (fails a.name))

variable (srv : Server Key Row G σ) (s : Session Key Row C O)

/-! ## Rules for the steps -/

theorem always_pool (name : L)
    (f : Tick → Store Key Row → Except ε (β × List (Write Key Row)))
    (k : Except ε β → Prog Key Row L ε C O α)
    (he : ∀ e, (k (.error e)).Always be me Q srv.tock s)
    (hok : ∀ b ws, f (s.tick srv .pool) srv.db = .ok (b, ws) →
      (k (.ok b)).Always be me Q (srv.apply ⟨me, srv.wal.length, ws⟩).tock s) :
    (Prog.act (.stmt name .pool f) k).Always be me Q srv s := by
  intro fail
  rw [Action.exec]
  split
  · exact he _
  · split
    · next e hf => exact he e
    · next b ws hf => exact hok b ws hf

theorem always_tx (name : L) (d : ℕ)
    (f : Tick → Store Key Row → Except ε (β × List (Write Key Row)))
    (k : Except ε β → Prog Key Row L ε C O α)
    (he : ∀ e, (k (.error e)).Always be me Q srv.tock { s with aborted := true })
    (hok : ∀ b ws, f (s.tick srv (.tx d)) (s.view srv.db) = .ok (b, ws) →
      (k (.ok b)).Always be me Q srv.tock (s.push ws)) (ha : s.aborted = false)
    (hl : s.levels ≠ []) : (Prog.act (.stmt name (.tx d) f) k).Always be me Q srv s := by
  intro fail
  rw [Action.exec, if_neg (by simp [ha, hl])]
  split
  · exact he _
  · split
    · next e hf => exact he e
    · next b ws hf => exact hok b ws hf

theorem always_begin (k : Option Handle → Prog Key Row L ε C O α)
    (hn : (k none).Always be me Q srv.tock s)
    (hb : (k (some (.tx 1))).Always be me Q srv.tock { s with
      levels := [[]], aborted := false, start := srv.clock, since := srv.wal.length }) :
    (Prog.act (.begin .pool) k).Always be me Q srv s := by
  intro fail
  rw [Action.exec]
  split
  · exact hn
  · exact hb

theorem always_commit (k : Bool → Prog Key Row L ε C O α)
    (hn : (k false).Always be me Q srv.tock s.close)
    (hc : s.aborted = false →
      (k true).Always be me Q (srv.apply ⟨me, s.since, s.pending⟩).tock s.close) :
    (Prog.act (.commit (.tx 1)) k).Always be me Q srv s := by
  intro fail
  rw [Action.exec]
  split
  · exact hn
  · next h => exact hc (by simpa using (not_or.mp h).2)

theorem always_savepoint (d : ℕ) (k : Option Handle → Prog Key Row L ε C O α)
    (hn : (k none).Always be me Q srv.tock { s with aborted := true })
    (hs : (k (some (.tx (d+1)))).Always be me Q srv.tock { s with levels := []::s.levels }) :
    (Prog.act (.begin (.tx d)) k).Always be me Q srv s := by
  intro fail
  rw [Action.exec]
  split
  · exact hn
  · exact hs

theorem always_release (d : ℕ) (hd : d ≠ 1) (k : Bool → Prog Key Row L ε C O α)
    (hn : (k false).Always be me Q srv.tock { s with aborted := true })
    (hr : s.aborted = false → (k true).Always be me Q srv.tock s.release) :
    (Prog.act (.commit (.tx d)) k).Always be me Q srv s := by
  intro fail
  rw [exec_release be me fail srv s (.tx d) (by simpa using hd)]
  split
  · exact hn
  · next h => exact hr (by simpa using (not_or.mp h).2)

theorem always_rollback (d : ℕ) (hd : d ≠ 1) (k : Unit → Prog Key Row L ε C O α)
    (h : (k ()).Always be me Q srv.tock
      { s with levels := s.levels.drop (s.levels.length-(d-1)), aborted := false }) :
    (Prog.act (.rollback (.tx d)) k).Always be me Q srv s := by
  intro fail
  rw [exec_rollback_inner be me fail srv s d hd]
  exact h

end Always
end Relational
