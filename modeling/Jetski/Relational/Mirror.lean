import Jetski.Relational.Discipline
import Jetski.Relational.Informed
import Jetski.Relational.Recall

/-!
# Mirrors of the committed rows

The external service is to show the committed rows. Clients change rows first
and send what they see afterwards, or they send it from a transaction that they
commit later, so the service is behind in between. If nothing that its sender
recalls was stale at a call, and no other sender had still to commit, then until
the next call some client owes one, or the service shows what this sender sees.
So if the last call was such a call and no client is under way, the service shows
the committed rows.
-/

set_option autoImplicit false

namespace Relational

variable {T : Type} {Key Row : T → Type} {L ε C O G σ ι α β : Type}

/-! ## Clients that have not begun -/

section Unbegun
variable [DecidableEq T] [∀ t, DecidableEq (Key t)] [DecidableEq σ]
variable (be : Backend ε C G) (permit : Admit Key Row L ε C O G σ)

end Unbegun

/-! ## Senders -/

/-- The client has sent a call from a transaction that is still open. -/
def Config.Sending (x : Config Key Row C O G σ) (i : σ) : Prop :=
  (x.ses i).levels ≠ [] ∧ (x.ses i).sent ≠ []

/-- The client has committed and still owes a call. -/
structure Debt (owes : σ → Prop) (x : Config Key Row C O G σ) (log : List (Commit Key Row σ))
    (i : σ) : Prop where
  owes : owes i
  committed : ∃ c ∈ log, c.client = i
  unsent : (x.ses i).sent = []

/-- When the service shows rows, and the images that it need not learn of: rows
that it shows, with whatever other images over them, are shown after these as well. -/
structure Mirror (Key Row : T → Type) (G : Type) [DecidableEq T] [∀ t, DecidableEq (Key t)] where
  shows : G → Store Key Row → Prop
  inert : List (Write Key Row) → Store Key Row → Prop
  keeps : ∀ g db ws pending, inert ws db →
    (∀ w ∈ ws, ∀ w' ∈ pending, ¬ Store.Touches w w'.table w'.key) →
    shows g (db.replay pending) → shows g ((db.replay ws).replay pending)

section Mirrors
variable [DecidableEq T] [∀ t, DecidableEq (Key t)] (m : Mirror Key Row G)

/-- A client that owes a call when it has committed sends one before it ends. Other
clients commit what they have sent, or what the service need not learn of. -/
def Mirror.duty (owes : Prop) : Duty Key Row where
  fallible := False
  pool _ _ := owes
  commit sent _ ws db := sent = true ∨ owes ∨ m.inert ws db
  done committed sent := owes → committed = true → sent = true

variable (owes : σ → Prop)

/-- How far the service is behind. -/
inductive Follows (x : Config Key Row C O G σ) (log : List (Commit Key Row σ)) : Prop
  | owed (i : σ) : Debt owes x log i → Follows x log
  | sending (i : σ) : x.Sending i → m.shows x.srv.ext ((x.ses i).view x.srv.db) → Follows x log
  | level : (∀ i, ¬ x.Sending i) → m.shows x.srv.ext x.srv.db → Follows x log

variable (be : Backend ε C G) (srv₀ : Server Key Row G σ) (start : ℕ)

section Step
variable {m owes} {be srv₀ start}
variable {x y : Config Key Row C O G σ} {i : σ} {fail : Bool} {log cs : List (Commit Key Row σ)}
variable {a : Action Key Row L ε C O β}

end Step

/-! ## Runs -/

variable [DecidableEq σ] (permit : Admit Key Row L ε C O G σ) (pt : Parts Key L ι)

/-- The parts that are stale after an action of a client. -/
def Parts.mark (stale : σ → ι → Bool) (i : σ) (learnt : ι → Bool) (ws : List (Write Key Row)) :
    σ → ι → Bool :=
  fun j p => if j = i then stale j p && !learnt p else stale j p || pt.touched p ws

section Marks
variable (stale : σ → ι → Bool) (i j : σ) (learnt : ι → Bool) (ws : List (Write Key Row))

omit [DecidableEq T] [∀ t, DecidableEq (Key t)]

theorem mark_nothing : pt.mark stale i (fun _ => false) ([] : List (Write Key Row)) = stale := by
  funext j p
  simp [Parts.mark, Parts.touched]

end Marks

/-- Nothing that the client recalls is stale, and no other client has sent a call from
a transaction that is still open. -/
structure Config.Timely (x : Config Key Row C O G σ) (stale : σ → ι → Bool) (i : σ) : Prop where
  fresh : ∀ p, stale i p = false
  alone : ∀ j, j ≠ i → ¬ x.Sending j

/-- A run with the parts that are stale for each client, and whether the last call of
it was timely. -/
inductive Noted (w₀ : World Key Row L ε C O G σ) :
    World Key Row L ε C O G σ → (σ → ι → Bool) → Prop → Prop
  | start : Noted w₀ w₀ (fun _ _ => false) True
  | act {w : World Key Row L ε C O G σ} {stale : σ → ι → Bool} {timely : Prop} {β : Type} (i : σ)
      (fail : Bool) (a : Action Key Row L ε C O β) (k : β → Prog Key Row L ε C O Unit) :
      Noted w₀ w stale timely → w.prog i = .act a k → permit w.cfg i fail β a → a.called = none →
      Noted w₀ (w.next be i fail a k) (pt.mark stale i (a.learns pt (w.cfg.exec be i fail a).1)
        (a.made fail w.cfg.srv (w.cfg.ses i))) timely
  | call {w : World Key Row L ε C O G σ} {stale : σ → ι → Bool} {timely : Prop} (i : σ)
      (fail : Bool) (c : C) (k : Bool → Prog Key Row L ε C O Unit) :
      Noted w₀ w stale timely → w.prog i = .act (.call c) k → permit w.cfg i fail Bool (.call c) →
      Noted w₀ (w.next be i fail (.call c) k) stale (w.cfg.Timely stale i)

section Play
variable [Fintype σ] [Fintype ι]

instance (x : Config Key Row C O G σ) (i : σ) : Decidable (x.Sending i) :=
  inferInstanceAs (Decidable (_ ∧ _))

instance (x : Config Key Row C O G σ) (stale : σ → ι → Bool) (i : σ) :
    Decidable (x.Timely stale i) :=
  decidable_of_iff ((∀ p, stale i p = false) ∧ ∀ j, j ≠ i → ¬ x.Sending j)
    ⟨fun h => ⟨h.1, h.2⟩, fun h => ⟨h.fresh, h.alone⟩⟩

/-- Plays a schedule like `play` and keeps the notes. -/
def playNoted
    (check : Config Key Row C O G σ → σ → Bool → (β : Type) → Action Key Row L ε C O β → Bool) :
    List (σ × Bool) → World Key Row L ε C O G σ → (σ → ι → Bool) → Bool →
      Option (World Key Row L ε C O G σ × Bool)
  | [], w, _, timely => some (w, timely)
  | (i, fail)::rest, w, stale, timely =>
    match w.prog i with
    | .ret _ => none
    | .act a k =>
      if check w.cfg i fail _ a then
        playNoted check rest (w.next be i fail a k)
          (pt.mark stale i (a.learns pt (w.cfg.exec be i fail a).1)
            (a.made fail w.cfg.srv (w.cfg.ses i)))
          (if a.called.isSome then decide (w.cfg.Timely stale i) else timely)
      else none

end Play

variable {be permit pt} {w₀ w : World Key Row L ε C O G σ} {stale : σ → ι → Bool} {timely : Prop}

theorem playNoted_noted [Fintype σ] [Fintype ι]
    (check : Config Key Row C O G σ → σ → Bool → (β : Type) → Action Key Row L ε C O β → Bool)
    (hcheck : ∀ x i fail β a, check x i fail β a = true → permit x i fail β a)
    (schedule : List (σ × Bool)) (b : Bool) (hb : b = true → timely)
    (h : Noted be permit pt w₀ w stale timely) (w' : World Key Row L ε C O G σ) (b' : Bool)
    (hplay : playNoted be pt check schedule w stale b = some (w', b')) :
    ∃ stale' timely', Noted be permit pt w₀ w' stale' timely' ∧ (b' = true → timely') := by
  induction schedule generalizing w stale timely b with
  | nil =>
    cases hplay
    exact ⟨stale, timely, h, hb⟩
  | cons step rest ih =>
    obtain ⟨i, fail⟩ := step
    rw [playNoted] at hplay
    split at hplay
    · cases hplay
    · next β a k hp =>
      split at hplay
      · next hc =>
        have hadm := hcheck _ _ _ _ _ hc
        cases a with
        | call c =>
          have hstale : pt.mark stale i (fun _ => false) ([] : List (Write Key Row)) = stale :=
            mark_nothing pt stale i
          refine ih _ (fun hd => ?_) (.call i fail c k h hp hadm) (hstale ▸ hplay)
          exact of_decide_eq_true hd
        | stmt | begin | commit | rollback | emit =>
          exact ih _ hb (.act i fail _ k h hp hadm rfl) hplay
      · cases hplay

variable (pt) (P : (t : T) → Key t → Row t → Prop) (justified : Memory Key Row ι → C → Prop)

variable {pt P justified}

end Mirrors
end Relational
