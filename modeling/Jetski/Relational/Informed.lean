import Jetski.Relational.Alone

/-!
# Informed clients

A client calls the external service because of what its statements have seen.
What it has seen may be out of date when the call is made, but the labels of
rows never change, so whatever was known of them is still true. An invariant of
all configurations is proved once for every kind of action: statements satisfy
a rule of their client, calls are justified by rows that are remembered.
-/

set_option autoImplicit false

namespace Relational

variable {T : Type} {Key Row : T → Type} {L ε C O G σ α β Λ : Type}

/-! ## Programs -/

/-- What is demanded of every statement. -/
abbrev StatementRule (Key Row : T → Type) (L ε : Type) :=
  (β : Type) → L → Handle → (Tick → Store Key Row → Except ε (β × List (Write Key Row))) → Prop

section Programs
variable (rule : StatementRule Key Row L ε) (justified : List (Store Key Row) → C → Prop)

/-- The action satisfies the demands on its kind, given the rows seen so far. -/
def Action.Fits (seen : List (Store Key Row)) : {β : Type} → Action Key Row L ε C O β → Prop
  | _, .stmt (β := β) name h f => rule β name h f
  | _, .call c => justified seen c
  | _, _ => True

def Action.called : {β : Type} → Action Key Row L ε C O β → Option C
  | _, .call c => some c
  | _, _ => none

theorem fits_called (seen : List (Store Key Row)) (a : Action Key Row L ε C O β) (c : C)
    (h : a.Fits rule justified seen) (hc : a.called = some c) : justified seen c := by
  cases a with
  | call c' =>
    cases hc
    exact h
  | stmt | begin | commit | rollback | emit => cases hc

/-- What the client may have seen after the action, for each of its results. -/
def Action.Informs : {β : Type} → Action Key Row L ε C O β →
    (β → List (Store Key Row) → Prop) → List (Store Key Row) → Prop
  | _, .stmt _ _ f, K, seen => (∀ e, K (.error e) seen) ∧
    ∀ t db b ws, f t db = .ok (b, ws) → K (.ok b) (db::seen)
  | _, .begin _, K, seen => ∀ tx, K tx seen
  | _, .commit _, K, seen => ∀ ok, K ok seen
  | _, .rollback _, K, seen => K () seen
  | _, .call _, K, seen => ∀ ok, K ok seen
  | _, .emit _, K, seen => K () seen

def Prog.Informed : Prog Key Row L ε C O α → (α → List (Store Key Row) → Prop) →
    List (Store Key Row) → Prop
  | .ret a, Q, seen => Q a seen
  | .act a k, Q, seen => a.Fits rule justified seen ∧
    a.Informs (fun b seen => (k b).Informed Q seen) seen

theorem informs_mono (K K' : β → List (Store Key Row) → Prop) (hK : ∀ b seen, K b seen → K' b seen)
    (a : Action Key Row L ε C O β) (seen : List (Store Key Row)) (h : a.Informs K seen) :
    a.Informs K' seen := by
  cases a with
  | stmt name hd f => exact ⟨fun e => hK _ _ (h.1 e), fun t db b ws hf => hK _ _ (h.2 t db b ws hf)⟩
  | begin hd => exact fun tx => hK _ _ (h tx)
  | commit hd => exact fun ok => hK _ _ (h ok)
  | rollback hd => exact hK _ _ h
  | call c => exact fun ok => hK _ _ (h ok)
  | emit o => exact hK _ _ h

theorem informed_mono (Q Q' : α → List (Store Key Row) → Prop)
    (hQ : ∀ a seen, Q a seen → Q' a seen) (p : Prog Key Row L ε C O α)
    (seen : List (Store Key Row)) (h : p.Informed rule justified Q seen) :
    p.Informed rule justified Q' seen := by
  induction p generalizing seen with
  | ret a => exact hQ a seen h
  | act a k ih => exact ⟨h.1, informs_mono _ _ (fun b seen hb => ih b seen hb) a seen h.2⟩

theorem informed_bind (Q : β → List (Store Key Row) → Prop) (p : Prog Key Row L ε C O α)
    (f : α → Prog Key Row L ε C O β) (seen : List (Store Key Row))
    (h : p.Informed rule justified (fun a seen => (f a).Informed rule justified Q seen) seen) :
    (p.bind f).Informed rule justified Q seen := by
  induction p generalizing seen with
  | ret a => exact h
  | act a k ih => exact ⟨h.1, informs_mono _ _ (fun b seen hb => ih b seen hb) a seen h.2⟩

end Programs

/-! ## What is remembered -/

section Remembered
variable (lb : Labelling Key Row Λ)

/-- The labels of the rows are known, and the rows agree with what is known. -/
structure Remembered (x : Config Key Row C O G σ) (db : Store Key Row) : Prop where
  known : ∀ t k v, db.row t k = some v → Known lb x t k (lb.label t v)
  agrees : ∀ t k v, db.row t k = some v → lb.agrees (Known lb x) t k v

theorem remembered_keeps (x y : Config Key Row C O G σ) (hk : Keeps lb x y) (db : Store Key Row)
    (h : Remembered lb x db) : Remembered lb y db where
  known t k v hv := hk.2 t k _ (h.known t k v hv)
  agrees t k v hv := lb.mono _ _ t k v hk.2 (h.agrees t k v hv)

variable [DecidableEq T] [∀ t, DecidableEq (Key t)]

theorem remembered_visible (x : Config Key Row C O G σ) (hx : Labelled lb x) (i : σ) (hd : Handle) :
    Remembered lb x ((x.ses i).visible x.srv hd) where
  known t k v hv := hx.known t k v (visible_occurs x i hd t k v hv)
  agrees t k v hv := hx.agrees t k v (visible_occurs x i hd t k v hv)

end Remembered

/-! ## Commits -/

section Exec
variable [DecidableEq T] [∀ t, DecidableEq (Key t)]
variable (be : Backend ε C G) (me : σ) (fail : Bool)

/-- What an action commits: nothing, the images of the open transaction, or those
of a statement on the pool. -/
inductive Commits (a : Action Key Row L ε C O β) (srv : Server Key Row G σ)
    (s : Session Key Row C O) (srv' : Server Key Row G σ) : Prop
  | nothing : srv'.db = srv.db → srv'.wal = srv.wal → Commits a srv s srv'
  | images (since : ℕ) (ws : List (Write Key Row)) : ws = s.pending ∨ ws = a.writes srv s →
    srv'.db = srv.db.replay ws → srv'.wal = srv.wal++[⟨me, since, ws⟩] → Commits a srv s srv'

theorem apply_commits (a : Action Key Row L ε C O β) (srv : Server Key Row G σ)
    (s : Session Key Row C O) (since : ℕ) (ws : List (Write Key Row))
    (h : ws = s.pending ∨ ws = a.writes srv s) :
    Commits me a srv s (srv.apply ⟨me, since, ws⟩).tock := by
  by_cases hw : ws = []
  · subst hw
    exact .nothing rfl rfl
  · exact .images since ws h rfl (if_neg (by simpa using hw))

theorem exec_commits (a : Action Key Row L ε C O β) (srv : Server Key Row G σ)
    (s : Session Key Row C O) : Commits me a srv s (a.exec be me fail srv s).2.1 := by
  cases a with
  | stmt name h f =>
    cases h with
    | pool =>
      rw [Action.exec]
      split
      · exact .nothing rfl rfl
      · split
        · exact .nothing rfl rfl
        · next b ws hf =>
          refine apply_commits me _ srv s _ ws (Or.inr ?_)
          rw [Action.writes, hf]
    | tx d =>
      rw [Action.exec]
      split
      · exact .nothing rfl rfl
      · split
        · exact .nothing rfl rfl
        · split <;> exact .nothing rfl rfl
  | begin h =>
    cases h with
    | pool | tx d =>
      rw [Action.exec]
      split <;> exact .nothing rfl rfl
  | commit h =>
    by_cases hne : h = .tx 1
    · subst hne
      rw [Action.exec]
      split
      · exact .nothing rfl rfl
      · exact apply_commits me _ srv s _ _ (Or.inl rfl)
    · rw [exec_release be me fail srv s h hne]
      split <;> exact .nothing rfl rfl
  | rollback h =>
    induction h using Handle.level_cases with
    | pool | outer => exact .nothing rfl rfl
    | inner d hd =>
      rw [exec_rollback_inner be me fail srv s d hd]
      exact .nothing rfl rfl
  | call c =>
    rw [Action.exec]
    split <;> exact .nothing rfl rfl
  | emit o => exact .nothing rfl rfl

/-- A statement on the pool leaves the open transaction alone. -/
theorem exec_pool_session (name : L)
    (f : Tick → Store Key Row → Except ε (β × List (Write Key Row))) (srv : Server Key Row G σ)
    (s : Session Key Row C O) :
    ((Action.stmt name .pool f : Action Key Row L ε C O _).exec be me fail srv s).2.2 = s := by
  rw [Action.exec]
  split
  · rfl
  · split <;> rfl

/-- Only calls change the external service. -/
theorem exec_ext (a : Action Key Row L ε C O β) (srv : Server Key Row G σ)
    (s : Session Key Row C O) : (a.exec be me fail srv s).2.1.ext = srv.ext ∨
      ∃ c, a.called = some c ∧ (a.exec be me fail srv s).2.1.ext = be.react c srv.ext := by
  cases a with
  | stmt name h f =>
    left
    cases h with
    | pool =>
      rw [Action.exec]
      split
      · rfl
      · split <;> rfl
    | tx d =>
      rw [Action.exec]
      split
      · rfl
      · split
        · rfl
        · split <;> rfl
  | begin h =>
    left
    cases h with
    | pool | tx d =>
      rw [Action.exec]
      split <;> rfl
  | commit h =>
    left
    by_cases hne : h = .tx 1
    · subst hne
      rw [Action.exec]
      split <;> rfl
    · rw [exec_release be me fail srv s h hne]
      split <;> rfl
  | rollback h =>
    left
    induction h using Handle.level_cases with
    | pool | outer => rfl
    | inner d hd =>
      rw [exec_rollback_inner be me fail srv s d hd]
      rfl
  | call c =>
    rw [Action.exec]
    split
    · exact Or.inl rfl
    · exact Or.inr ⟨c, rfl, rfl⟩
  | emit o => exact Or.inl rfl

end Exec

/-! ## Runs -/

section Runs
variable [DecidableEq T] [∀ t, DecidableEq (Key t)] [DecidableEq σ]
variable (lb : Labelling Key Row Λ) (be : Backend ε C G) (permit : Admit Key Row L ε C O G σ)
variable (rule : σ → StatementRule Key Row L ε) (justified : List (Store Key Row) → C → Prop)
variable (Q : σ → Config Key Row C O G σ → Prop)

/-- After an action the client remembers what it has seen. -/
theorem exec_informs (x : Config Key Row C O G σ) (hx : Labelled lb x) (i : σ) (fail : Bool)
    (a : Action Key Row L ε C O β) (K : β → List (Store Key Row) → Prop)
    (seen : List (Store Key Row)) (h : a.Informs K seen)
    (hseen : ∀ db ∈ seen, Remembered lb x db) :
    ∃ seen', (∀ db ∈ seen', Remembered lb x db) ∧ K (x.exec be i fail a).1 seen' := by
  cases a with
  | stmt name hd f =>
    cases hr : (x.exec be i fail (.stmt name hd f)).1 with
    | error e => exact ⟨seen, hseen, h.1 e⟩
    | ok b =>
      obtain ⟨ws, hf⟩ := exec_stmt_ok be i fail name hd f x.srv (x.ses i) b hr
      refine ⟨_, ?_, h.2 _ _ b ws hf⟩
      intro db hdb
      rcases List.mem_cons.mp hdb with rfl | hdb
      · exact remembered_visible lb x hx i hd
      · exact hseen db hdb
  | begin hd => exact ⟨seen, hseen, h _⟩
  | commit hd => exact ⟨seen, hseen, h _⟩
  | rollback hd => exact ⟨seen, hseen, h⟩
  | call c => exact ⟨seen, hseen, h _⟩
  | emit o => exact ⟨seen, hseen, h⟩

/-- Clients that keep the labels of rows, each with what it still has to do. -/
structure AllInformed (w : World Key Row L ε C O G σ) : Prop where
  safe : AllSafe be permit (fun _ => Lawful lb) (fun _ => Lawful lb) Q w
  labelled : Labelled lb w.cfg
  informed : ∀ i, ∃ seen, (∀ db ∈ seen, Remembered lb w.cfg db) ∧
    (w.prog i).Informed (rule i) justified (fun _ _ => True) seen

/-- An invariant that every action keeps holds along every run of informed clients. -/
theorem run_informed (I : Config Key Row C O G σ → Prop)
    (hI : ∀ x i fail (β : Type) (a : Action Key Row L ε C O β) seen, permit x i fail β a →
      a.Fits (rule i) justified seen → (∀ db ∈ seen, Remembered lb x db) → Labelled lb x →
      Keeps lb x (x.exec be i fail a).2 → I x → I (x.exec be i fail a).2)
    (w w' : World Key Row L ε C O G σ) (hr : Run be permit w w')
    (h : AllInformed lb be permit rule justified Q w) (hw : I w.cfg) :
    AllInformed lb be permit rule justified Q w' ∧ Keeps lb w.cfg w'.cfg ∧ I w'.cfg := by
  induction hr with
  | refl => exact ⟨h, keeps_refl lb w.cfg, hw⟩
  | @tail y z _ hs ih =>
    obtain ⟨hy, hkeep, hi⟩ := ih
    obtain ⟨hsafe, j, hlaw⟩ := step_safe be permit _ _ Q (lawful_compatible lb) y z hs hy.safe
    obtain ⟨hlabelled, hstep⟩ := hlaw hy.labelled
    obtain ⟨i, fail, a, k, hp, hadm⟩ := hs
    obtain ⟨seen, hseen, hinf⟩ := hy.informed i
    rw [hp] at hinf
    refine ⟨⟨hsafe, hlabelled, fun j => ?_⟩, keeps_trans lb _ _ _ hkeep hstep,
      hI _ i fail _ a seen hadm hinf.1 hseen hy.labelled hstep hi⟩
    by_cases hj : j = i
    · subst hj
      obtain ⟨seen', hseen', hk⟩ := exec_informs lb be y.cfg hy.labelled j fail a _
        seen hinf.2 hseen
      refine ⟨seen', fun db hdb => remembered_keeps lb _ _ hstep db (hseen' db hdb), ?_⟩
      simpa using hk
    · obtain ⟨seen', hseen', hrest⟩ := hy.informed j
      refine ⟨seen', fun db hdb => remembered_keeps lb _ _ hstep db (hseen' db hdb), ?_⟩
      simpa [hj] using hrest

end Runs

end Relational
