import Jetski.Relational.Alone

/-!
# Drafts

The row images of an open transaction are a draft: nobody else sees them before
the commit. A shape says what is known of a draft and of the committed rows under
it, whatever the commits of others add to these rows. Programs are led from phase
to phase, and every commit of a program is one that is due.
-/

set_option autoImplicit false

namespace Relational

variable {T : Type} {Key Row : T → Type} {L ε C O G σ α β : Type}

/-! ## Phases -/

section Phases
variable (Grows : Store Key Row → Store Key Row → Prop)

/-- A property of the start of a transaction, the committed rows and the draft. -/
structure Shape where
  holds : ℕ → Store Key Row → List (Write Key Row) → Prop
  stable : ∀ start db db' ws, Grows db db' → holds start db ws → holds start db' ws

/-- What is known of a client between two of its actions. -/
inductive Phase where
  | closed
  | opened (S : Shape Grows)
  | aborted
  | undone

variable {Grows}

def Phase.At (ph : Phase Grows) (db : Store Key Row) (s : Session Key Row C O) : Prop :=
  match ph with
  | .closed => s.levels = []
  | .opened S => s.levels ≠ [] ∧ s.aborted = false ∧ S.holds s.start db s.pending
  | .aborted => s.levels ≠ [] ∧ s.aborted = true
  | .undone => True

theorem at_grows (ph : Phase Grows) (db db' : Store Key Row) (s : Session Key Row C O)
    (h : Grows db db') (hs : ph.At db s) : ph.At db' s := by
  cases ph with
  | opened S => exact ⟨hs.1, hs.2.1, S.stable _ _ _ _ h hs.2.2⟩
  | closed | aborted | undone => exact hs

end Phases

/-! ## Relies and guarantees -/

variable [DecidableEq T] [∀ t, DecidableEq (Key t)]

section Drafts
variable (be : Backend ε C G) (permit : Admit Key Row L ε C O G σ)
variable (Grows : Store Key Row → Store Key Row → Prop)
variable (due : Config Key Row C O G σ → σ → List (Write Key Row) → Prop)

/-- Commits that are due let the rows grow. -/
structure Growth : Prop where
  refl : ∀ db, Grows db db
  trans : ∀ db db' db'', Grows db db' → Grows db' db'' → Grows db db''
  due : ∀ x i ws, due x i ws → Grows x.srv.db (x.srv.db.replay ws)

/-- The others leave the session alone and let the rows grow. -/
def Undrafted (i : σ) (x y : Config Key Row C O G σ) : Prop :=
  y.ses i = x.ses i ∧ Grows x.srv.db y.srv.db

/-- A client leaves other sessions alone and commits only what is due. -/
def Settles (i : σ) (x y : Config Key Row C O G σ) : Prop :=
  (∀ j, j ≠ i → y.ses j = x.ses j) ∧
    (y.srv.db = x.srv.db ∨ ∃ ws, due x i ws ∧ y.srv.db = x.srv.db.replay ws)

variable {Grows due}

theorem settles_compatible (hg : Growth Grows due) :
    Compatible (fun i => Undrafted Grows i) (fun i => Settles due i) where
  refl _ _ := ⟨rfl, hg.refl _⟩
  trans _ _ _ _ h h' := ⟨h'.1.trans h.1, hg.trans _ _ _ h.2 h'.2⟩
  covers i j x y hij h := by
    constructor
    · exact h.1 j (Ne.symm hij)
    · rcases h.2 with he | ⟨ws, hd, he⟩
      · rw [he]
        exact hg.refl _
      · rw [he]
        exact hg.due x i ws hd

variable [DecidableEq σ] (due) (i : σ)

/-- From its phase the program ends in a phase of the postcondition, and commits
only what is due. -/
def Drafts (Q : α → Phase Grows → Prop) (p : Prog Key Row L ε C O α) (ph : Phase Grows) : Prop :=
  ∀ x : Config Key Row C O G σ, ph.At x.srv.db (x.ses i) →
    Safe be permit (Undrafted Grows i) (Settles due i) i
      (fun a y => ∃ ph', Q a ph' ∧ ph'.At y.srv.db (y.ses i)) p x

/-! ## Rules -/

section Rules
variable {be permit due i} {Q : α → Phase Grows → Prop} {ph : Phase Grows}

theorem drafts_ret (a : α) (h : Q a ph) : Drafts be permit due i Q (.ret a) ph := by
  intro x hx y hy
  refine ⟨ph, h, ?_⟩
  rw [hy.1]
  exact at_grows ph _ _ _ hy.2 hx

theorem drafts_mono (Q' : α → Phase Grows → Prop) (hq : ∀ a ph, Q a ph → Q' a ph)
    (p : Prog Key Row L ε C O α) (h : Drafts be permit due i Q p ph) :
    Drafts be permit due i Q' p ph := by
  intro x hx
  refine safe_mono be permit _ _ i _ _ (fun a y hy => ?_) p x (h x hx)
  obtain ⟨ph', hq', hat⟩ := hy
  exact ⟨ph', hq _ _ hq', hat⟩

theorem drafts_bind (hg : Growth Grows due) (Q' : β → Phase Grows → Prop)
    (p : Prog Key Row L ε C O α) (f : α → Prog Key Row L ε C O β)
    (h : Drafts be permit due i (fun a ph' => Drafts be permit due i Q' (f a) ph') p ph) :
    Drafts be permit due i Q' (p.bind f) ph := by
  intro x hx
  refine safe_bind be permit _ _ i _ _ p f (fun y => ⟨rfl, hg.refl _⟩) (fun a y hy => ?_) x (h x hx)
  obtain ⟨ph', hf, hat⟩ := hy
  exact hf y hat

/-- The rule for one action: whatever it finds, it settles and leads to a phase from
which its continuation goes on. -/
theorem drafts_act (a : Action Key Row L ε C O β) (k : β → Prog Key Row L ε C O α)
    (h : ∀ (x : Config Key Row C O G σ) fail, ph.At x.srv.db (x.ses i) → permit x i fail β a →
      ((x.exec be i fail a).2.srv.db = x.srv.db ∨ ∃ ws, due x i ws ∧
        (x.exec be i fail a).2.srv.db = x.srv.db.replay ws) ∧
      ∃ ph', ph'.At (x.exec be i fail a).2.srv.db (a.exec be i fail x.srv (x.ses i)).2.2 ∧
        Drafts be permit due i Q (k (x.exec be i fail a).1) ph') :
    Drafts be permit due i Q (.act a k) ph := by
  intro x hx y hy fail hadm
  have hat : ph.At y.srv.db (y.ses i) := by
    rw [hy.1]
    exact at_grows ph _ _ _ hy.2 hx
  obtain ⟨hdb, ph', hat', hk⟩ := h y fail hat hadm
  have hself : (y.exec be i fail a).2.ses i = (a.exec be i fail y.srv (y.ses i)).2.2 :=
    Function.update_self _ _ _
  constructor
  · exact ⟨fun j hj => Function.update_of_ne hj _ _, hdb⟩
  · refine hk _ ?_
    rw [hself]
    exact hat'

theorem drafts_lift (a : Action Key Row L ε C O β) (Q : β → Phase Grows → Prop)
    (h : ∀ (x : Config Key Row C O G σ) fail, ph.At x.srv.db (x.ses i) → permit x i fail β a →
      ((x.exec be i fail a).2.srv.db = x.srv.db ∨ ∃ ws, due x i ws ∧
        (x.exec be i fail a).2.srv.db = x.srv.db.replay ws) ∧
      ∃ ph', ph'.At (x.exec be i fail a).2.srv.db (a.exec be i fail x.srv (x.ses i)).2.2 ∧
        Q (x.exec be i fail a).1 ph') : Drafts be permit due i Q a.lift ph := by
  refine drafts_act a _ fun x fail hx hadm => ?_
  obtain ⟨hdb, ph', hat, hq⟩ := h x fail hx hadm
  exact ⟨hdb, ph', hat, drafts_ret _ hq⟩

/-- A statement on the pool commits at once. -/
theorem drafts_pool (name : L) (f : Tick → Store Key Row → Except ε (β × List (Write Key Row)))
    (Q : Except ε β → Phase Grows → Prop) (hq : ∀ r, Q r .closed)
    (hf : ∀ (x : Config Key Row C O G σ) t b ws, f t x.srv.db = .ok (b, ws) →
      ws = [] ∨ due x i ws) :
    Drafts be permit due i Q (Action.stmt name .pool f).lift .closed := by
  refine drafts_lift _ Q fun x fail hx _ => ?_
  refine ⟨?_, .closed, ?_, hq _⟩
  · simp only [Config.exec, Action.exec]
    split
    · exact Or.inl rfl
    · split
      · exact Or.inl rfl
      · next b ws hok =>
        rcases hf x _ b ws hok with rfl | hdue
        · exact Or.inl rfl
        · exact Or.inr ⟨ws, hdue, rfl⟩
  · rw [Action.exec]
    split
    · exact hx
    · split <;> exact hx

/-- A statement in a transaction adds its images to the draft. -/
theorem drafts_stmt (name : L) (d : ℕ)
    (f : Tick → Store Key Row → Except ε (β × List (Write Key Row)))
    (Q : Except ε β → Phase Grows → Prop) (S : Shape Grows) (S' : β → Shape Grows)
    (he : ∀ e, Q (.error e) .aborted) (hok : ∀ b, Q (.ok b) (.opened (S' b)))
    (hf : ∀ t db b ws ws', S.holds t.start db ws → f t (db.replay ws) = .ok (b, ws') →
      (S' b).holds t.start db (ws++ws')) :
    Drafts be permit due i Q (Action.stmt name (.tx d) f).lift (.opened S) := by
  refine drafts_lift _ Q fun x fail hx _ => ?_
  obtain ⟨hopen, hlive, hS⟩ := hx
  have hready : ¬ ((x.ses i).aborted = true ∨ (x.ses i).levels = []) := by
    rintro (h | h)
    · rw [hlive] at h
      cases h
    · exact hopen h
  simp only [Config.exec, Action.exec, if_neg hready]
  by_cases hfail : fail = true
  · rw [if_pos hfail]
    exact ⟨Or.inl rfl, .aborted, ⟨hopen, rfl⟩, he _⟩
  · rw [if_neg hfail]
    split
    · exact ⟨Or.inl rfl, .aborted, ⟨hopen, rfl⟩, he _⟩
    · next b ws' heq =>
      refine ⟨Or.inl rfl, .opened (S' b), ?_, hok b⟩
      obtain ⟨ls, hpush, hne⟩ := (x.ses i).push_shape ws' hopen
      have hpending := (x.ses i).pending_push ws' hopen
      rw [hpush] at hpending ⊢
      refine ⟨hne, hlive, ?_⟩
      rw [hpending]
      exact hf ((x.ses i).tick x.srv (.tx d)) x.srv.db b _ ws' hS heq

theorem drafts_begin (Q : Option Handle → Phase Grows → Prop) (S : Shape Grows)
    (hn : Q none .closed) (hs : Q (some (.tx 1)) (.opened S))
    (hS : ∀ start db, S.holds start db []) :
    Drafts be permit due i Q
      (Action.begin .pool : Action Key Row L ε C O (Option Handle)).lift .closed := by
  refine drafts_lift _ Q fun x fail hx _ => ?_
  simp only [Config.exec, Action.exec]
  split
  · exact ⟨Or.inl rfl, .closed, hx, hn⟩
  · exact ⟨Or.inl rfl, .opened S, ⟨by simp, rfl, hS _ _⟩, hs⟩

theorem drafts_savepoint (d : ℕ) (Q : Option Handle → Phase Grows → Prop) (S : Shape Grows)
    (hn : Q none .aborted) (hs : Q (some (.tx (d+1))) (.opened S)) :
    Drafts be permit due i Q
      (Action.begin (.tx d) : Action Key Row L ε C O (Option Handle)).lift (.opened S) := by
  refine drafts_lift _ Q fun x fail hx _ => ?_
  obtain ⟨hopen, hlive, hS⟩ := hx
  simp only [Config.exec, Action.exec]
  split
  · exact ⟨Or.inl rfl, .aborted, ⟨hopen, rfl⟩, hn⟩
  · refine ⟨Or.inl rfl, .opened S, ⟨by simp, hlive, ?_⟩, hs⟩
    have hpending : ({ x.ses i with levels := []::(x.ses i).levels } :
        Session Key Row C O).pending = (x.ses i).pending := by simp [Session.pending]
    rw [hpending]
    exact hS

/-- The commit of a transaction makes its draft visible, so the draft must be due. -/
theorem drafts_commit (Q : Bool → Phase Grows → Prop) (S : Shape Grows) (hq : ∀ ok, Q ok .closed)
    (hdue : ∀ x : Config Key Row C O G σ, S.holds (x.ses i).start x.srv.db (x.ses i).pending →
      (x.ses i).aborted = false → permit x i false Bool (.commit (.tx 1)) →
        due x i (x.ses i).pending) :
    Drafts be permit due i Q
      (Action.commit (.tx 1) : Action Key Row L ε C O Bool).lift (.opened S) := by
  refine drafts_lift _ Q fun x fail hx hadm => ?_
  simp only [Config.exec, Action.exec]
  split
  · exact ⟨Or.inl rfl, .closed, rfl, hq _⟩
  · next hc =>
    have hfail : fail = false := by simpa using fun hf => hc (Or.inl hf)
    rw [hfail] at hadm
    exact ⟨Or.inr ⟨_, hdue x hx.2.2 hx.2.1 hadm, rfl⟩, .closed, rfl, hq _⟩

theorem drafts_release (d : ℕ) (hd : d ≠ 1) (Q : Bool → Phase Grows → Prop) (S : Shape Grows)
    (hn : Q false .aborted) (hs : Q true (.opened S)) :
    Drafts be permit due i Q
      (Action.commit (.tx d) : Action Key Row L ε C O Bool).lift (.opened S) := by
  refine drafts_lift _ Q fun x fail hx _ => ?_
  obtain ⟨hopen, hlive, hS⟩ := hx
  have hne : Handle.tx d ≠ .tx 1 := fun h => hd (Handle.tx.inj h)
  simp only [Config.exec, exec_release be i fail x.srv (x.ses i) (.tx d) hne]
  split
  · exact ⟨Or.inl rfl, .aborted, ⟨hopen, rfl⟩, hn⟩
  · refine ⟨Or.inl rfl, .opened S, ?_, hs⟩
    have hpending := (x.ses i).pending_release
    obtain ⟨ls, hrelease, hls⟩ := (x.ses i).release_shape hopen
    rw [hrelease] at hpending ⊢
    refine ⟨hls, hlive, ?_⟩
    rw [hpending]
    exact hS

/-- A transaction that has failed cannot commit. -/
theorem drafts_aborted (Q : Bool → Phase Grows → Prop) (hq : Q false .closed) :
    Drafts be permit due i Q
      (Action.commit (.tx 1) : Action Key Row L ε C O Bool).lift .aborted := by
  refine drafts_lift _ Q fun x fail hx _ => ?_
  simp only [Config.exec, Action.exec,
    if_pos (Or.inr hx.2 : fail = true ∨ (x.ses i).aborted = true)]
  exact ⟨Or.inl rfl, .closed, rfl, hq⟩

theorem drafts_rollback (d : ℕ) (Q : Unit → Phase Grows → Prop)
    (hq : Q () (if d = 1 then .closed else .undone)) :
    Drafts be permit due i Q
      (Action.rollback (.tx d) : Action Key Row L ε C O Unit).lift ph := by
  refine drafts_lift _ Q fun x fail hx _ => ?_
  by_cases hd : d = 1
  · subst hd
    exact ⟨Or.inl rfl, .closed, rfl, hq⟩
  · rw [if_neg hd] at hq
    simp only [Config.exec, exec_rollback_inner be i fail x.srv (x.ses i) d hd]
    exact ⟨Or.inl rfl, .undone, trivial, hq⟩

theorem drafts_call (c : C) (Q : Bool → Phase Grows → Prop) (hq : ∀ ok, Q ok ph) :
    Drafts be permit due i Q (Action.call c : Action Key Row L ε C O Bool).lift ph := by
  refine drafts_lift _ Q fun x fail hx _ => ?_
  simp only [Config.exec, Action.exec]
  split
  · exact ⟨Or.inl rfl, ph, hx, hq _⟩
  · exact ⟨Or.inl rfl, ph, by cases ph <;> exact hx, hq _⟩

theorem drafts_emit (o : O) (Q : Unit → Phase Grows → Prop) (hq : Q () ph) :
    Drafts be permit due i Q (Action.emit o : Action Key Row L ε C O Unit).lift ph :=
  drafts_lift _ Q fun _ _ hx _ => ⟨Or.inl rfl, ph, by cases ph <;> exact hx, hq⟩

/-- Programs whose images may be committed at any time, in whatever transactions. -/
theorem drafts_footprint (P : Write Key Row → Prop)
    (hdue : ∀ (x : Config Key Row C O G σ) ws, (∀ w ∈ ws, P w) → due x i ws)
    (p : Prog Key Row L ε C O α) (hp : p.Footprint P) :
    Drafts be permit due i (fun _ _ => True) p (.closed : Phase Grows) := by
  have hsafe : ∀ x : Config Key Row C O G σ, (∀ w ∈ (x.ses i).pending, P w) →
      Safe be permit (Undrafted Grows i) (Settles due i) i (fun _ _ => True) p x := by
    induction p with
    | ret a => exact fun _ _ _ _ => trivial
    | act a k ih =>
      intro x hx y hy fail _
      have hpending : ∀ w ∈ (y.ses i).pending, P w := by
        rw [hy.1]
        exact hx
      have hwrites := writes_footprint P a hp.1 y.srv (y.ses i)
      have hboth : ∀ w, w ∈ (y.ses i).pending ∨ w ∈ a.writes y.srv (y.ses i) → P w :=
        fun w hw => hw.elim (hpending w) (hwrites w)
      constructor
      · obtain ⟨ws, he, hws⟩ := exec_replay be i fail a y.srv (y.ses i)
        exact ⟨fun j hj => Function.update_of_ne hj _ _,
          Or.inr ⟨ws, hdue y ws fun w hw => hboth w (hws w hw), he⟩⟩
      · refine ih _ (hp.2 _) _ fun w hw => ?_
        simp only [Config.exec, Function.update_self] at hw
        exact hboth w (exec_pending be i fail a y.srv (y.ses i) w hw)
  intro x hx
  have hnil : (x.ses i).pending = [] := by
    rw [Session.pending, show (x.ses i).levels = [] from hx]
    rfl
  refine safe_mono be permit _ _ i _ _ (fun _ _ _ => ⟨.undone, trivial, trivial⟩) p x
    (hsafe x fun w hw => ?_)
  rw [hnil] at hw
  cases hw

end Rules

/-! ## Runs -/

/-- What commits that are due preserve holds along every run. -/
theorem run_drafts (hg : Growth Grows due) (I : Config Key Row C O G σ → Prop)
    (hI : ∀ i x y, Settles due i x y → I x → I y) (w w' : World Key Row L ε C O G σ)
    (hidle : ∀ i, (w.cfg.ses i).levels = [])
    (h : ∀ i, Drafts be permit due i (fun _ _ => True) (w.prog i) (.closed : Phase Grows))
    (hr : Run be permit w w') (hw : I w.cfg) : I w'.cfg := by
  have hsafe := run_safe be permit _ _ (fun i y => ∃ ph : Phase Grows, True ∧
    ph.At y.srv.db (y.ses i)) (settles_compatible hg) I hI w w' hr
    (fun i => h i w.cfg (hidle i)) hw
  exact hsafe.2

end Drafts
end Relational
