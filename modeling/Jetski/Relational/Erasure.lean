import Jetski.Relational.Client

/-!
# Erasure

A store is restricted to the rows of a predicate. A program that only reads emits
the same in two states if each of its reads, in the order in which it makes them,
returns the same in both; so what it emits does not depend on the rows by which
they differ.
-/

set_option autoImplicit false

namespace Relational

variable {T : Type} {Key Row : T → Type} {L ε C O G σ α β : Type}

/-! ## Restricted stores -/

namespace Store
variable (s : Store Key Row) (K : (t : T) → Key t → Prop)

open Classical in
/-- The rows of the predicate, in the same scan order. -/
noncomputable def restrict : Store Key Row where
  row t k := if K t k then s.row t k else none
  heap t := (s.heap t).filter (fun k => K t k)
  nodup t := (s.nodup t).filter _
  complete t k v h := by
    split at h
    · next hk => exact List.mem_filter.mpr ⟨s.complete t k v h, by simpa using hk⟩
    · cases h

theorem restrict_row (t : T) (k : Key t) (h : K t k) : (s.restrict K).row t k = s.row t k :=
  if_pos h

theorem restrict_none (t : T) (k : Key t) (h : ¬ K t k) : (s.restrict K).row t k = none :=
  if_neg h

theorem restrict_some (t : T) (k : Key t) (v : Row t) :
    (s.restrict K).row t k = some v ↔ K t k ∧ s.row t k = some v := by
  by_cases h : K t k
  · rw [restrict_row s K t k h]
    exact (and_iff_right h).symm
  · rw [restrict_none s K t k h]
    exact iff_of_false (fun hv => by cases hv) (fun hv => h hv.1)

/-- A query that skips the other rows scans the same rows. -/
theorem restrict_scan (t : T) (f f' : Key t × Row t → Option α)
    (hskip : ∀ k v, s.row t k = some v → ¬ K t k → f (k, v) = none)
    (hsame : ∀ k v, s.row t k = some v → K t k → f' (k, v) = f (k, v)) :
    ((s.restrict K).scan t).filterMap f' = (s.scan t).filterMap f := by
  rw [scan, scan, List.filterMap_filterMap, List.filterMap_filterMap, restrict,
    List.filterMap_filter]
  refine List.filterMap_congr fun k _ => ?_
  by_cases h : K t k
  · simp only [h, decide_true, if_true]
    cases hv : s.row t k with
    | none => rfl
    | some v => exact hsame k v hv h
  · simp only [h, decide_false, Bool.false_eq_true, if_false]
    cases hv : s.row t k with
    | none => rfl
    | some v => exact (hskip k v hv h).symm

theorem restrict_filter (t : T) (p p' : Key t × Row t → Bool)
    (hskip : ∀ k v, s.row t k = some v → ¬ K t k → p (k, v) = false)
    (hsame : ∀ k v, s.row t k = some v → K t k → p' (k, v) = p (k, v)) :
    ((s.restrict K).scan t).filter p' = (s.scan t).filter p := by
  rw [← List.filterMap_eq_filter, ← List.filterMap_eq_filter]
  refine s.restrict_scan K t _ _ (fun k v hv hk => ?_) fun k v hv hk => ?_
  · simp [Option.guard, hskip k v hv hk]
  · simp [Option.guard, hsame k v hv hk]

end Store

/-! ## Programs that only read -/

section Agreement
variable (db db' : Store Key Row)

/-- The action reads the same in both states and writes nothing, or it emits. -/
def Action.Agrees : {β : Type} → Action Key Row L ε C O β → (β → Prop) → Prop
  | _, .stmt _ .pool f, K => (∀ e, K (.error e)) ∧ ∀ t, f t db' = f t db ∧
    ∀ b ws, f t db = .ok (b, ws) → ws = [] ∧ K (.ok b)
  | _, .stmt _ (.tx _) _, _ => False
  | _, .begin _, _ => False
  | _, .commit _, _ => False
  | _, .rollback _, _ => False
  | _, .call _, _ => False
  | _, .emit _, K => K ()

def Prog.Agrees : Prog Key Row L ε C O α → (α → Prop) → Prop
  | .ret a, Q => Q a
  | .act a k, Q => a.Agrees db db' (fun b => (k b).Agrees Q)

theorem action_agrees_mono (K K' : β → Prop) (hK : ∀ b, K b → K' b)
    (a : Action Key Row L ε C O β) (h : a.Agrees db db' K) : a.Agrees db db' K' := by
  cases a with
  | stmt name hd f =>
    cases hd with
    | pool =>
      refine ⟨fun e => hK _ (h.1 e), fun t => ⟨(h.2 t).1, fun b ws hf => ?_⟩⟩
      obtain ⟨hws, hk⟩ := (h.2 t).2 b ws hf
      exact ⟨hws, hK _ hk⟩
    | tx d => exact h
  | begin hd => exact h
  | commit hd => exact h
  | rollback hd => exact h
  | call c => exact h
  | emit o => exact hK _ h

theorem agrees_bind (Q : β → Prop) (p : Prog Key Row L ε C O α) (f : α → Prog Key Row L ε C O β)
    (h : p.Agrees db db' (fun a => (f a).Agrees db db' Q)) : (p.bind f).Agrees db db' Q := by
  induction p with
  | ret a => exact h
  | act a k ih => exact action_agrees_mono db db' _ _ (fun b hb => ih b hb) a h

variable [DecidableEq T] [∀ t, DecidableEq (Key t)]

/-- A step in one of the states is the same step in the other. -/
theorem exec_agrees (be : Backend ε C G) (me : σ) (fail : Bool) (K : β → Prop)
    (a : Action Key Row L ε C O β) (h : a.Agrees db db' K) (srv : Server Key Row G σ)
    (hdb : srv.db = db) (s : Session Key Row C O) : ∃ b srv₁ s₁, K b ∧ srv₁.db = db ∧
      a.exec be me fail srv s = (b, srv₁, s₁) ∧
      a.exec be me fail { srv with db := db' } s = (b, { srv₁ with db := db' }, s₁) := by
  cases a with
  | stmt name hd f =>
    cases hd with
    | tx d => exact h.elim
    | pool =>
      cases fail with
      | true => exact ⟨_, srv.tock, s, h.1 be.refused, hdb, rfl, rfl⟩
      | false =>
        obtain ⟨hsame, hok⟩ := h.2 (s.tick srv .pool)
        cases hf : f (s.tick srv .pool) db with
        | error e =>
          refine ⟨.error e, srv.tock, s, h.1 e, hdb, ?_, ?_⟩
          · simp only [Action.exec, Session.visible, hdb, hf, Bool.false_eq_true, if_false]
          · have hf' : f (s.tick { srv with db := db' } .pool) db' = .error e := hsame.trans hf
            simp only [Action.exec, Session.visible, hf', Bool.false_eq_true, if_false]
            rfl
        | ok r =>
          obtain ⟨b, ws⟩ := r
          obtain ⟨rfl, hk⟩ := hok b ws hf
          refine ⟨.ok b, srv.tock, s, hk, hdb, ?_, ?_⟩
          · simp only [Action.exec, Session.visible, hdb, hf, Bool.false_eq_true, if_false]
            subst hdb
            rfl
          · have hf' : f (s.tick { srv with db := db' } .pool) db' = .ok (b, []) := hsame.trans hf
            simp only [Action.exec, Session.visible, hf', Bool.false_eq_true, if_false]
            rfl
  | begin hd => exact h.elim
  | commit hd => exact h.elim
  | rollback hd => exact h.elim
  | call c => exact h.elim
  | emit o => exact ⟨(), srv, _, h, hdb, rfl, rfl⟩

/-- The runs of the program in the two states, whatever fails, emit the same. -/
theorem agrees_run (be : Backend ε C G) (me : σ) (fails : StepName L → Bool) (Q : α → Prop)
    (p : Prog Key Row L ε C O α) (h : p.Agrees db db' Q) (srv : Server Key Row G σ)
    (hdb : srv.db = db) (s : Session Key Row C O) :
    (p.run be me fails { srv with db := db' } s).2.2 = (p.run be me fails srv s).2.2 := by
  induction p generalizing srv s with
  | ret a => rfl
  | act a k ih =>
    obtain ⟨b, srv₁, s₁, hk, hdb₁, he, he'⟩ :=
      exec_agrees db db' be me (fails a.name) _ a h srv hdb s
    simp only [Prog.run, he, he']
    exact ih b hk srv₁ hdb₁ s₁

end Agreement
end Relational
