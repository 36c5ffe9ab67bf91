import Mathlib.Data.Fintype.Basic
import Mathlib.Logic.Relation
import Jetski.Relational.Client

/-!
# Interleaved clients

Any number of clients share one server and take turns, one action at a time.
A program is safe for a client when every one of its actions keeps a guarantee,
whatever the others did since its last action within a rely. Safe programs run
together keep all guarantees along every schedule, so an invariant is proved
once for each program and never for an interleaving.
-/

set_option autoImplicit false

namespace Relational

variable {T : Type} {Key Row : T → Type} {L ε C O G σ α β : Type}

/-- The server and the sessions of all clients. -/
structure Config (Key Row : T → Type) (C O G σ : Type) where
  srv : Server Key Row G σ
  ses : σ → Session Key Row C O

structure World (Key Row : T → Type) (L ε C O G σ : Type) where
  cfg : Config Key Row C O G σ
  prog : σ → Prog Key Row L ε C O Unit

variable [DecidableEq T] [∀ t, DecidableEq (Key t)]

def Action.writes : {β : Type} → Action Key Row L ε C O β → Server Key Row G σ →
    Session Key Row C O → List (Write Key Row)
  | _, .stmt _ h f, srv, s =>
    match f (s.tick srv h) (s.visible srv h) with
    | .ok (_, ws) => ws
    | .error _ => []
  | _, _, _, _ => []

/-- No row the action writes carries an uncommitted image of another client:
its row lock would make the statement wait. -/
def Config.Unlocked (x : Config Key Row C O G σ) (i : σ) (a : Action Key Row L ε C O β) : Prop :=
  ∀ j, j ≠ i → ∀ w ∈ a.writes x.srv (x.ses i), ∀ w' ∈ (x.ses j).pending,
    ¬ Store.Touches w w'.table w'.key

instance (w : Write Key Row) (t : T) (k : Key t) : Decidable (Store.Touches w t k) :=
  inferInstanceAs (Decidable (_ = _))

instance [Fintype σ] [DecidableEq σ] (x : Config Key Row C O G σ) (i : σ)
    (a : Action Key Row L ε C O β) : Decidable (x.Unlocked i a) :=
  inferInstanceAs (Decidable (∀ j, j ≠ i → _))

variable [DecidableEq σ]

def Config.exec (be : Backend ε C G) (x : Config Key Row C O G σ) (i : σ) (fail : Bool)
    (a : Action Key Row L ε C O β) : β × Config Key Row C O G σ :=
  let r := a.exec be i fail x.srv (x.ses i)
  (r.1, ⟨r.2.1, Function.update x.ses i r.2.2⟩)

/-- When a client may take an action, with the given choice of its failure. -/
abbrev Admit (Key Row : T → Type) (L ε C O G σ : Type) :=
  Config Key Row C O G σ → σ → Bool → (β : Type) → Action Key Row L ε C O β → Prop

inductive Step (be : Backend ε C G) (permit : Admit Key Row L ε C O G σ)
    (w : World Key Row L ε C O G σ) : World Key Row L ε C O G σ → Prop
  | act {β : Type} (i : σ) (fail : Bool) (a : Action Key Row L ε C O β)
      (k : β → Prog Key Row L ε C O Unit) :
      w.prog i = .act a k → permit w.cfg i fail β a →
      Step be permit w ⟨(w.cfg.exec be i fail a).2,
        Function.update w.prog i (k (w.cfg.exec be i fail a).1)⟩

def Run (be : Backend ε C G) (permit : Admit Key Row L ε C O G σ) :
    World Key Row L ε C O G σ → World Key Row L ε C O G σ → Prop :=
  Relation.ReflTransGen (Step be permit)

/-- Plays a schedule of clients, with a check of every step. -/
def play (be : Backend ε C G)
    (check : Config Key Row C O G σ → σ → Bool → (β : Type) → Action Key Row L ε C O β → Bool) :
    List (σ × Bool) → World Key Row L ε C O G σ → Option (World Key Row L ε C O G σ)
  | [], w => some w
  | (i, fail)::rest, w =>
    match w.prog i with
    | .ret _ => none
    | .act a k =>
      if check w.cfg i fail _ a then
        play be check rest ⟨(w.cfg.exec be i fail a).2,
          Function.update w.prog i (k (w.cfg.exec be i fail a).1)⟩
      else none

theorem play_run (be : Backend ε C G) (permit : Admit Key Row L ε C O G σ)
    (check : Config Key Row C O G σ → σ → Bool → (β : Type) → Action Key Row L ε C O β → Bool)
    (hcheck : ∀ x i fail β a, check x i fail β a = true → permit x i fail β a)
    (schedule : List (σ × Bool)) (w w' : World Key Row L ε C O G σ)
    (h : play be check schedule w = some w') : Run be permit w w' := by
  induction schedule generalizing w with
  | nil =>
    cases h
    exact .refl
  | cons step rest ih =>
    obtain ⟨i, fail⟩ := step
    rw [play] at h
    split at h
    · cases h
    · next a k hp =>
      split at h
      · next hc => exact .head (.act i fail a k hp (hcheck _ _ _ _ _ hc)) (ih _ h)
      · cases h

/-- A client that takes all of its steps while nobody else takes one. -/
theorem alone_run (be : Backend ε C G) (permit : Admit Key Row L ε C O G σ) (i : σ)
    (fails : StepName L → Bool)
    (hpermit : ∀ x fail β (a : Action Key Row L ε C O β), permit x i fail β a)
    (p : Prog Key Row L ε C O Unit) (w : World Key Row L ε C O G σ) (hw : w.prog i = p) :
    Run be permit w ⟨⟨(p.run be i fails w.cfg.srv (w.cfg.ses i)).2.1,
      Function.update w.cfg.ses i (p.run be i fails w.cfg.srv (w.cfg.ses i)).2.2⟩,
        Function.update w.prog i (.ret ())⟩ := by
  induction p generalizing w with
  | ret a =>
    have hsame : Function.update w.prog i (.ret ()) = w.prog := by
      rw [← hw, Function.update_eq_self]
    simp only [Prog.run, Function.update_eq_self, hsame]
    exact .refl
  | act a k ih =>
    refine .head (.act i (fails a.name) a k hw (hpermit _ _ _ a)) ?_
    have hrest := ih _ ⟨(w.cfg.exec be i (fails a.name) a).2,
      Function.update w.prog i (k (w.cfg.exec be i (fails a.name) a).1)⟩
      (Function.update_self _ _ _)
    simp only [Config.exec, Function.update_self, Function.update_idem] at hrest ⊢
    exact hrest

section Safe
variable (be : Backend ε C G) (permit : Admit Key Row L ε C O G σ)
variable (R Gr : Config Key Row C O G σ → Config Key Row C O G σ → Prop) (i : σ)

/-- Every action of the program keeps the guarantee, and its end satisfies the
postcondition, under interference of the others within the rely. -/
def Safe (Q : α → Config Key Row C O G σ → Prop) :
    Prog Key Row L ε C O α → Config Key Row C O G σ → Prop
  | .ret a, x => ∀ y, R x y → Q a y
  | .act a k, x => ∀ y, R x y → ∀ fail, permit y i fail _ a →
      Gr y (y.exec be i fail a).2 ∧ Safe Q (k (y.exec be i fail a).1) (y.exec be i fail a).2

theorem safe_rely (htrans : ∀ x y z, R x y → R y z → R x z)
    (Q : α → Config Key Row C O G σ → Prop) (p : Prog Key Row L ε C O α)
    (x y : Config Key Row C O G σ) (hxy : R x y) (h : Safe be permit R Gr i Q p x) :
    Safe be permit R Gr i Q p y := by
  cases p with
  | ret a => exact fun z hz => h z (htrans x y z hxy hz)
  | act a k => exact fun z hz => h z (htrans x y z hxy hz)

theorem safe_bind (Q : α → Config Key Row C O G σ → Prop)
    (Q' : β → Config Key Row C O G σ → Prop) (p : Prog Key Row L ε C O α)
    (f : α → Prog Key Row L ε C O β) (hrefl : ∀ x, R x x)
    (hf : ∀ a x, Q a x → Safe be permit R Gr i Q' (f a) x) (x : Config Key Row C O G σ)
    (h : Safe be permit R Gr i Q p x) : Safe be permit R Gr i Q' (p.bind f) x := by
  induction p generalizing x with
  | ret a => exact hf a x (h x (hrefl x))
  | act a k ih =>
    intro y hy fail hadm
    obtain ⟨hg, hk⟩ := h y hy fail hadm
    exact ⟨hg, ih _ _ hk⟩

theorem safe_mono (Q Q' : α → Config Key Row C O G σ → Prop) (hq : ∀ a x, Q a x → Q' a x)
    (p : Prog Key Row L ε C O α) (x : Config Key Row C O G σ)
    (h : Safe be permit R Gr i Q p x) : Safe be permit R Gr i Q' p x := by
  induction p generalizing x with
  | ret a => exact fun y hy => hq a y (h y hy)
  | act a k ih =>
    intro y hy fail hadm
    obtain ⟨hg, hk⟩ := h y hy fail hadm
    exact ⟨hg, ih _ _ hk⟩

end Safe

/-- Relies and guarantees of a family of clients that fit together. -/
structure Compatible (R Gr : σ → Config Key Row C O G σ → Config Key Row C O G σ → Prop) :
    Prop where
  refl : ∀ i x, R i x x
  trans : ∀ i x y z, R i x y → R i y z → R i x z
  covers : ∀ i j x y, i ≠ j → Gr i x y → R j x y

section Sound
variable (be : Backend ε C G) (permit : Admit Key Row L ε C O G σ)
variable (R Gr : σ → Config Key Row C O G σ → Config Key Row C O G σ → Prop)
variable (Q : σ → Config Key Row C O G σ → Prop)

def AllSafe (w : World Key Row L ε C O G σ) : Prop :=
  ∀ i, Safe be permit (R i) (Gr i) i (fun _ => Q i) (w.prog i) w.cfg

theorem step_safe (hc : Compatible R Gr) (w w' : World Key Row L ε C O G σ)
    (hs : Step be permit w w') (h : AllSafe be permit R Gr Q w) :
    AllSafe be permit R Gr Q w' ∧ ∃ i, Gr i w.cfg w'.cfg := by
  obtain ⟨i, fail, a, k, hp, hadm⟩ := hs
  have hi := h i
  rw [hp] at hi
  obtain ⟨hg, hk⟩ := hi w.cfg (hc.refl i w.cfg) fail hadm
  refine ⟨fun j => ?_, i, hg⟩
  by_cases hj : j = i
  · subst hj
    simpa using hk
  · simp only [Function.update_of_ne hj]
    exact safe_rely be permit (R j) (Gr j) j (hc.trans j) (fun _ => Q j) (w.prog j) _ _
      (hc.covers i j _ _ (Ne.symm hj) hg) (h j)

/-- Safe programs stay safe along every schedule, and whatever each guarantee
preserves is preserved by the whole run. -/
theorem run_safe (hc : Compatible R Gr) (I : Config Key Row C O G σ → Prop)
    (hI : ∀ i x y, Gr i x y → I x → I y) (w w' : World Key Row L ε C O G σ)
    (hr : Run be permit w w') (h : AllSafe be permit R Gr Q w) (hw : I w.cfg) :
    AllSafe be permit R Gr Q w' ∧ I w'.cfg := by
  induction hr with
  | refl => exact ⟨h, hw⟩
  | tail _ hs ih =>
    obtain ⟨hsafe, i, hg⟩ := step_safe be permit R Gr Q hc _ _ hs ih.1
    exact ⟨hsafe, hI i _ _ hg ih.2⟩

end Sound
end Relational
