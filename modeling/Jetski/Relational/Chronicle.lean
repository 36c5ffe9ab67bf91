import Jetski.Relational.Alone

/-!
# Chronicles

A run is told as a list of deeds, one for each action: the committed rows that
the action met, the images that it made visible and what it emitted. What one
client does is followed along its program for all rows that the others may leave
it between two of its actions; what is shown so holds of its deeds in every run.
-/

set_option autoImplicit false

namespace Relational

variable {T : Type} {Key Row : T → Type} {L ε C O G σ α β : Type}

structure Deed (Key Row : T → Type) (O : Type) where
  met : Store Key Row
  made : List (Write Key Row)
  said : List O

def Deed.Quiet (d : Deed Key Row O) : Prop := d.made = [] ∧ d.said = []

def Spared (h : List (Deed Key Row O)) : Prop := ∀ d ∈ h, d.made = []

def Hushed (h : List (Deed Key Row O)) : Prop := ∀ d ∈ h, d.Quiet

theorem hushed_append (h h' : List (Deed Key Row O)) (hh : Hushed h) (hh' : Hushed h') :
    Hushed (h++h') :=
  List.forall_mem_append.mpr ⟨hh, hh'⟩

theorem hushed_single (d : Deed Key Row O) (hd : d.Quiet) : Hushed [d] := by
  simpa [Hushed] using hd

theorem spared_append (h h' : List (Deed Key Row O)) (hh : Spared h) (hh' : Spared h') :
    Spared (h++h') :=
  List.forall_mem_append.mpr ⟨hh, hh'⟩

def commits (h : List (Deed Key Row O)) : List (Deed Key Row O) :=
  h.filter (fun d => !d.made.isEmpty)

theorem commits_append (h h' : List (Deed Key Row O)) :
    commits (h++h') = commits h++commits h' :=
  List.filter_append h h'

theorem commits_spared (h : List (Deed Key Row O)) (hs : Spared h) : commits h = [] :=
  List.filter_eq_nil_iff.mpr fun d hd => by simp [hs d hd]

theorem commits_cons (d : Deed Key Row O) (h : List (Deed Key Row O)) (hd : d.made ≠ []) :
    commits (d::h) = d::commits h :=
  List.filter_cons_of_pos (by simpa using hd)

/-- Either nothing was committed or there is a last commit. -/
theorem last_commit (h : List (Deed Key Row O)) :
    Spared h ∨ ∃ before d after, h = before++d::after ∧ d.made ≠ [] ∧ Spared after := by
  induction h with
  | nil => exact Or.inl fun d hd => absurd hd List.not_mem_nil
  | cons d h ih =>
    rcases ih with hs | ⟨before, d', after, rfl, hrest⟩
    · by_cases hd : d.made = []
      · exact Or.inl (List.forall_mem_cons.mpr ⟨hd, hs⟩)
      · exact Or.inr ⟨[], d, h, rfl, hd, hs⟩
    · exact Or.inr ⟨d::before, d', after, rfl, hrest⟩

theorem push_out (s : Session Key Row C O) (ws : List (Write Key Row)) :
    (s.push ws).out = s.out := by
  unfold Session.push
  split <;> rfl

theorem release_out (s : Session Key Row C O) : s.release.out = s.out := by
  unfold Session.release
  split <;> rfl

section Clients
variable [DecidableEq σ] (i j : σ) (t : List (σ × Deed Key Row O)) (d : Deed Key Row O)

def deedsOf : List (Deed Key Row O) := (t.filter (fun e => e.1 = i)).map (fun e => e.2)

theorem deedsOf_self : deedsOf i (t++[(i, d)]) = deedsOf i t++[d] := by
  simp [deedsOf]

/-- A deed of the client stands after its earlier ones. -/
theorem deedsOf_split (before after : List (Deed Key Row O))
    (h : deedsOf i t = before++d::after) :
    ∃ pre post, t = pre++(i, d)::post ∧ deedsOf i pre = before := by
  obtain ⟨us, vs, hf, hus, hvs⟩ := List.map_eq_append_iff.mp h
  obtain ⟨e, ws, rfl, he, -⟩ := List.map_eq_cons_iff.mp hvs
  obtain ⟨pre, rest, rfl, hpre, hrest⟩ := List.filter_eq_append_iff.mp hf
  obtain ⟨skipped, post, rfl, hskipped, hi, -⟩ := List.filter_eq_cons_iff.mp hrest
  have hnone : skipped.filter (fun e => e.1 = i) = [] := List.filter_eq_nil_iff.mpr hskipped
  refine ⟨pre++skipped, post, ?_, ?_⟩
  · rw [List.append_assoc, ← he, ← of_decide_eq_true hi]
  · rw [deedsOf, List.filter_append, hpre, hnone, List.append_nil, hus]

theorem mem_deedsOf (h : d ∈ deedsOf i t) : (i, d) ∈ t := by
  obtain ⟨before, after, hsplit⟩ := List.append_of_mem h
  obtain ⟨pre, post, rfl, -⟩ := deedsOf_split i t d before after hsplit
  exact List.mem_append_right _ List.mem_cons_self

theorem deedsOf_other (hj : j ≠ i) : deedsOf j (t++[(i, d)]) = deedsOf j t := by
  simp [deedsOf, Ne.symm hj]

end Clients

section Deeds
variable [DecidableEq T] [∀ t, DecidableEq (Key t)]

/-- The images that an action makes visible. -/
def Action.made (fail : Bool) : {β : Type} → Action Key Row L ε C O β → Server Key Row G σ →
    Session Key Row C O → List (Write Key Row)
  | _, .stmt _ .pool f, srv, s =>
    if fail then [] else
    match f (s.tick srv .pool) (s.visible srv .pool) with
    | .error _ => []
    | .ok (_, ws) => ws
  | _, .stmt _ (.tx _) _, _, _ => []
  | _, .begin _, _, _ => []
  | _, .commit h, _, s => if h ≠ .tx 1 ∨ fail ∨ s.aborted then [] else s.pending
  | _, .rollback _, _, _ => []
  | _, .call _, _, _ => []
  | _, .emit _, _, _ => []

def Action.said : {β : Type} → Action Key Row L ε C O β → List O
  | _, .emit o => [o]
  | _, _ => []

def Action.deed (fail : Bool) (a : Action Key Row L ε C O β) (srv : Server Key Row G σ)
    (s : Session Key Row C O) : Deed Key Row O :=
  ⟨srv.db, a.made fail srv s, a.said⟩

/-- The rows and the outputs after an action are those before it with its deed. -/
theorem exec_deed (be : Backend ε C G) (me : σ) (fail : Bool) (a : Action Key Row L ε C O β)
    (srv : Server Key Row G σ) (s : Session Key Row C O) :
    (a.exec be me fail srv s).2.1.db = srv.db.replay (a.deed fail srv s).made ∧
      (a.exec be me fail srv s).2.2.out = s.out++(a.deed fail srv s).said := by
  simp only [Action.deed]
  cases a with
  | stmt name hd f =>
    cases hd with
    | pool =>
      simp only [Action.exec, Action.made, Action.said, List.append_nil]
      cases fail with
      | true => exact ⟨rfl, rfl⟩
      | false =>
        cases f (s.tick srv .pool) (s.visible srv .pool) with
        | error e => exact ⟨rfl, rfl⟩
        | ok r => exact ⟨rfl, rfl⟩
    | tx d =>
      simp only [Action.exec, Action.made, Action.said, List.append_nil]
      split
      · exact ⟨rfl, rfl⟩
      · split
        · exact ⟨rfl, rfl⟩
        · split
          · exact ⟨rfl, rfl⟩
          · exact ⟨rfl, push_out s _⟩
  | begin hd =>
    cases hd with
    | pool | tx d =>
      simp only [Action.exec, Action.made, Action.said, List.append_nil]
      split <;> exact ⟨rfl, rfl⟩
  | commit hd =>
    by_cases hne : hd = .tx 1
    · subst hne
      simp only [Action.exec, Action.made, Action.said, List.append_nil, ne_eq, not_true, false_or]
      split <;> exact ⟨rfl, rfl⟩
    · rw [exec_release be me fail srv s hd hne]
      simp only [Action.made, ne_eq, hne, not_false_eq_true, true_or, if_true, Action.said,
        List.append_nil]
      split
      · exact ⟨rfl, rfl⟩
      · exact ⟨rfl, release_out s⟩
  | rollback hd =>
    induction hd using Handle.level_cases with
    | pool | outer => exact ⟨rfl, (List.append_nil _).symm⟩
    | inner d hne =>
      rw [exec_rollback_inner be me fail srv s d hne]
      exact ⟨rfl, (List.append_nil _).symm⟩
  | call c =>
    simp only [Action.exec, Action.made, Action.said, List.append_nil]
    split <;> exact ⟨rfl, rfl⟩
  | emit o => exact ⟨rfl, rfl⟩

/-! ## What one client does -/

section Conduct
variable (be : Backend ε C G) (me : σ)
variable (D : List (Deed Key Row O) → Deed Key Row O → Prop)

/-- Whatever rows an action meets, what it makes visible is allowed after the
deeds before it, and the deeds at the end satisfy the postcondition. -/
def Prog.Conduct (Q : α → List (Deed Key Row O) → Session Key Row C O → Prop) :
    Prog Key Row L ε C O α → List (Deed Key Row O) → Session Key Row C O → Prop
  | .ret a, h, s => Q a h s
  | .act a k, h, s => ∀ (srv : Server Key Row G σ) fail,
    ((a.deed fail srv s).made ≠ [] → D h (a.deed fail srv s)) ∧
      (k (a.exec be me fail srv s).1).Conduct Q (h++[a.deed fail srv s])
        (a.exec be me fail srv s).2.2

variable (Q Q' : α → List (Deed Key Row O) → Session Key Row C O → Prop)

theorem conduct_mono (hq : ∀ a h s, Q a h s → Q' a h s) (p : Prog Key Row L ε C O α)
    (h : List (Deed Key Row O)) (s : Session Key Row C O) (hp : p.Conduct be me D Q h s) :
    p.Conduct be me D Q' h s := by
  induction p generalizing h s with
  | ret a => exact hq a h s hp
  | act a k ih => exact fun srv fail => ⟨(hp srv fail).1, ih _ _ _ (hp srv fail).2⟩

theorem conduct_bind (p : Prog Key Row L ε C O β) (f : β → Prog Key Row L ε C O α)
    (h : List (Deed Key Row O)) (s : Session Key Row C O)
    (hp : p.Conduct be me D (fun b h s => (f b).Conduct be me D Q h s) h s) :
    (p.bind f).Conduct be me D Q h s := by
  induction p generalizing h s with
  | ret b => exact hp
  | act a k ih => exact fun srv fail => ⟨(hp srv fail).1, ih _ _ _ (hp srv fail).2⟩

/-- Earlier deeds of the same client do no harm. -/
theorem conduct_shift (D' : List (Deed Key Row O) → Deed Key Row O → Prop)
    (h₀ : List (Deed Key Row O)) (hD : ∀ h d, D h d → D' (h₀++h) d)
    (hq : ∀ a h s, Q a h s → Q' a (h₀++h) s) (p : Prog Key Row L ε C O α)
    (h : List (Deed Key Row O)) (s : Session Key Row C O) (hp : p.Conduct be me D Q h s) :
    p.Conduct be me D' Q' (h₀++h) s := by
  induction p generalizing h s with
  | ret a => exact hq a h s hp
  | act a k ih =>
    intro srv fail
    obtain ⟨hmade, hk⟩ := hp srv fail
    refine ⟨fun hne => hD _ _ (hmade hne), ?_⟩
    rw [List.append_assoc]
    exact ih _ _ _ hk

variable (h : List (Deed Key Row O)) (s : Session Key Row C O)

/-! ## Rules for the actions -/

/-- A statement on the pool fails with its own error or is refused. -/
theorem conduct_statement (name : L)
    (f : Tick → Store Key Row → Except ε (β × List (Write Key Row)))
    (k : Except ε β → Prog Key Row L ε C O α)
    (he : ∀ e db, (e = be.refused ∨ ∃ t, f t db = .error e) →
      (k (.error e)).Conduct be me D Q (h++[⟨db, [], []⟩]) s)
    (hok : ∀ t db b ws, f t db = .ok (b, ws) → (ws ≠ [] → D h ⟨db, ws, []⟩) ∧
      (k (.ok b)).Conduct be me D Q (h++[⟨db, ws, []⟩]) s) :
    (Prog.act (.stmt name .pool f) k).Conduct be me D Q h s := by
  intro srv fail
  simp only [Action.exec, Action.deed, Action.made, Action.said]
  cases fail with
  | true => exact ⟨fun hne => absurd rfl hne, he _ _ (Or.inl rfl)⟩
  | false =>
    cases hf : f (s.tick srv .pool) (s.visible srv .pool) with
    | error e => exact ⟨fun hne => absurd rfl hne, he e _ (Or.inr ⟨_, hf⟩)⟩
    | ok r => exact hok _ _ r.1 r.2 hf

theorem conduct_pool (name : L) (f : Tick → Store Key Row → Except ε (β × List (Write Key Row)))
    (k : Except ε β → Prog Key Row L ε C O α)
    (he : ∀ e db, (k (.error e)).Conduct be me D Q (h++[⟨db, [], []⟩]) s)
    (hok : ∀ t db b ws, f t db = .ok (b, ws) → (ws ≠ [] → D h ⟨db, ws, []⟩) ∧
      (k (.ok b)).Conduct be me D Q (h++[⟨db, ws, []⟩]) s) :
    (Prog.act (.stmt name .pool f) k).Conduct be me D Q h s :=
  conduct_statement be me D Q h s name f k (fun e db _ => he e db) hok

/-- A statement of a transaction keeps its images pending, or the transaction is aborted. -/
theorem conduct_tx (name : L) (d : ℕ)
    (f : Tick → Store Key Row → Except ε (β × List (Write Key Row)))
    (k : Except ε β → Prog Key Row L ε C O α)
    (hl : s.levels ≠ []) (he : ∀ e db s', s'.aborted = true → s'.out = s.out →
      (k (.error e)).Conduct be me D Q (h++[⟨db, [], []⟩]) s')
    (hok : ∀ t db b ws, f t (s.view db) = .ok (b, ws) →
      (k (.ok b)).Conduct be me D Q (h++[⟨db, [], []⟩]) (s.push ws)) :
    (Prog.act (.stmt name (.tx d) f) k).Conduct be me D Q h s := by
  intro srv fail
  simp only [Action.exec, Action.deed, Action.made, Action.said]
  refine ⟨fun hne => absurd rfl hne, ?_⟩
  split
  · next hab => exact he _ _ _ (hab.resolve_right hl) rfl
  · split
    · exact he _ _ _ rfl rfl
    · split
      · exact he _ _ _ rfl rfl
      · next b ws hf => exact hok _ _ b ws hf

theorem conduct_begin (k : Option Handle → Prog Key Row L ε C O α)
    (hn : ∀ db, (k none).Conduct be me D Q (h++[⟨db, [], []⟩]) s)
    (hb : ∀ db s', s'.levels = [[]] → s'.out = s.out →
      (k (some (.tx 1))).Conduct be me D Q (h++[⟨db, [], []⟩]) s') :
    (Prog.act (.begin .pool) k).Conduct be me D Q h s := by
  intro srv fail
  simp only [Action.exec, Action.deed, Action.made, Action.said]
  refine ⟨fun hne => absurd rfl hne, ?_⟩
  split
  · exact hn _
  · exact hb _ _ rfl rfl

theorem conduct_savepoint (d : ℕ) (k : Option Handle → Prog Key Row L ε C O α)
    (hn : ∀ db s', s'.out = s.out → (k none).Conduct be me D Q (h++[⟨db, [], []⟩]) s')
    (hs : ∀ db s', s'.levels = []::s.levels → s'.out = s.out →
      (k (some (.tx (d+1)))).Conduct be me D Q (h++[⟨db, [], []⟩]) s') :
    (Prog.act (.begin (.tx d)) k).Conduct be me D Q h s := by
  intro srv fail
  simp only [Action.exec, Action.deed, Action.made, Action.said]
  refine ⟨fun hne => absurd rfl hne, ?_⟩
  split
  · exact hn _ _ rfl
  · exact hs _ _ rfl rfl

/-- The commit makes the pending images visible, all of them or none. -/
theorem conduct_commit (k : Bool → Prog Key Row L ε C O α)
    (hn : ∀ db, (k false).Conduct be me D Q (h++[⟨db, [], []⟩]) s.close)
    (hc : ∀ db, s.aborted = false → (s.pending ≠ [] → D h ⟨db, s.pending, []⟩) ∧
      (k true).Conduct be me D Q (h++[⟨db, s.pending, []⟩]) s.close) :
    (Prog.act (.commit (.tx 1)) k).Conduct be me D Q h s := by
  intro srv fail
  simp only [Action.exec, Action.deed, Action.made, Action.said, ne_eq, not_true, false_or]
  split
  · exact ⟨fun hne => absurd rfl hne, hn _⟩
  · next hlive => exact hc _ (by simpa using (not_or.mp hlive).2)

theorem conduct_release (d : ℕ) (hd : d ≠ 1) (k : Bool → Prog Key Row L ε C O α)
    (hn : ∀ db s', s'.out = s.out → (k false).Conduct be me D Q (h++[⟨db, [], []⟩]) s')
    (hr : ∀ db, (k true).Conduct be me D Q (h++[⟨db, [], []⟩]) s.release) :
    (Prog.act (.commit (.tx d)) k).Conduct be me D Q h s := by
  intro srv fail
  have hne : Handle.tx d ≠ .tx 1 := by simpa using hd
  simp only [Action.deed, Action.made, hne, ne_eq, not_false_eq_true, true_or, if_true, Action.said]
  rw [exec_release be me fail srv s (.tx d) hne]
  refine ⟨fun hmade => absurd trivial hmade, ?_⟩
  split
  · exact hn _ _ rfl
  · exact hr _

theorem conduct_rollback (hd : Handle) (k : Unit → Prog Key Row L ε C O α)
    (hk : ∀ db s', s'.out = s.out → (k ()).Conduct be me D Q (h++[⟨db, [], []⟩]) s') :
    (Prog.act (.rollback hd) k).Conduct be me D Q h s := by
  intro srv fail
  simp only [Action.deed, Action.made, Action.said]
  refine ⟨fun hne => absurd rfl hne, hk _ _ ?_⟩
  exact (exec_deed be me fail (.rollback hd : Action Key Row L ε C O Unit) srv s).2.trans
    (List.append_nil _)

theorem conduct_call (c : C) (k : Bool → Prog Key Row L ε C O α)
    (hk : ∀ ok db s', s'.levels = s.levels → s'.out = s.out →
      (k ok).Conduct be me D Q (h++[⟨db, [], []⟩]) s') :
    (Prog.act (.call c) k).Conduct be me D Q h s := by
  intro srv fail
  simp only [Action.exec, Action.deed, Action.made, Action.said]
  refine ⟨fun hne => absurd rfl hne, ?_⟩
  split <;> exact hk _ _ _ rfl rfl

theorem conduct_emit (o : O) (k : Unit → Prog Key Row L ε C O α)
    (hk : ∀ db, (k ()).Conduct be me D Q (h++[⟨db, [], [o]⟩]) { s with out := s.out++[o] }) :
    (Prog.act (.emit o) k).Conduct be me D Q h s :=
  fun srv _ => ⟨fun hne => absurd rfl hne, hk srv.db⟩

/-- Every image that a program makes visible lies in its footprint. -/
theorem conduct_footprint (P : Write Key Row → Prop)
    (hD : ∀ h d, (∀ w ∈ d.made, P w) → d.made ≠ [] → D h d) (p : Prog Key Row L ε C O α)
    (hp : p.Footprint P) (h : List (Deed Key Row O)) (s : Session Key Row C O)
    (hs : ∀ w ∈ s.pending, P w) (hh : ∀ d ∈ h, ∀ w ∈ d.made, P w) :
    p.Conduct be me D (fun _ h _ => ∀ d ∈ h, ∀ w ∈ d.made, P w) h s := by
  induction p generalizing h s with
  | ret a => exact hh
  | act a k ih =>
    intro srv fail
    have hwrites := writes_footprint P a hp.1 srv s
    have hmade : ∀ w ∈ (a.deed fail srv s).made, P w := by
      intro w hw
      cases a with
      | stmt name hd f =>
        cases hd with
        | pool =>
          simp only [Action.deed, Action.made] at hw
          split at hw
          · cases hw
          · split at hw
            · cases hw
            · next hf => exact hwrites w (by simpa [Action.writes, hf] using hw)
        | tx d => cases hw
      | commit hd =>
        simp only [Action.deed, Action.made] at hw
        split at hw
        · cases hw
        · exact hs w hw
      | begin | rollback | call | emit => cases hw
    refine ⟨hD h _ hmade, ih _ (hp.2 _) _ _ (fun w hw => ?_) ?_⟩
    · exact (exec_pending be me fail a srv s w hw).elim (hs w) (hwrites w)
    · exact List.forall_mem_append.mpr ⟨hh, by simpa using hmade⟩

end Conduct

/-! ## All clients -/

/-- The rows after the deeds of a chronicle. -/
def rowsAfter (db : Store Key Row) (t : List (σ × Deed Key Row O)) : Store Key Row :=
  db.replay (t.flatMap (fun e => e.2.made))

theorem rowsAfter_append (db : Store Key Row) (t t' : List (σ × Deed Key Row O)) :
    rowsAfter db (t++t') = rowsAfter (rowsAfter db t) t' := by
  rw [rowsAfter, List.flatMap_append, Store.replay_append]
  rfl

variable [DecidableEq σ]

variable (be : Backend ε C G) (permit : Admit Key Row L ε C O G σ)

/-- The world after an action of a client. -/
def World.next (w : World Key Row L ε C O G σ) (i : σ) (fail : Bool) (a : Action Key Row L ε C O β)
    (k : β → Prog Key Row L ε C O Unit) : World Key Row L ε C O G σ :=
  ⟨(w.cfg.exec be i fail a).2, Function.update w.prog i (k (w.cfg.exec be i fail a).1)⟩

/-- A run from the world and the deeds of its steps. -/
inductive Told (w₀ : World Key Row L ε C O G σ) :
    World Key Row L ε C O G σ → List (σ × Deed Key Row O) → Prop
  | nil : Told w₀ w₀ []
  | snoc {w : World Key Row L ε C O G σ} {t : List (σ × Deed Key Row O)} {β : Type} (i : σ)
      (fail : Bool) (a : Action Key Row L ε C O β) (k : β → Prog Key Row L ε C O Unit) :
      Told w₀ w t → w.prog i = .act a k → permit w.cfg i fail β a →
      Told w₀ (w.next be i fail a k) (t++[(i, a.deed fail w.cfg.srv (w.cfg.ses i))])

variable {w₀ w : World Key Row L ε C O G σ} {t : List (σ × Deed Key Row O)}

/-- Every run can be told. -/
theorem run_told (h : Run be permit w₀ w) : ∃ t, Told be permit w₀ w t := by
  induction h with
  | refl => exact ⟨[], .nil⟩
  | tail _ hs ih =>
    obtain ⟨t, ht⟩ := ih
    obtain ⟨i, fail, a, k, hp, hadm⟩ := hs
    exact ⟨_, .snoc i fail a k ht hp hadm⟩

theorem told_run (h : Told be permit w₀ w t) : Run be permit w₀ w := by
  induction h with
  | nil => exact .refl
  | snoc i fail a k _ hp hadm ih => exact ih.tail (.act i fail a k hp hadm)

theorem told_rows (h : Told be permit w₀ w t) :
    w.cfg.srv.db = rowsAfter w₀.cfg.srv.db t := by
  induction h with
  | nil => rfl
  | @snoc w t β i fail a k _ _ _ ih =>
    rw [rowsAfter_append, ← ih]
    simpa [rowsAfter, World.next, Config.exec] using
      (exec_deed be i fail a w.cfg.srv (w.cfg.ses i)).1

/-- Every entry was an action of its client in the world that the entries before it tell. -/
theorem told_entry (h : Told be permit w₀ w t) (pre post : List (σ × Deed Key Row O))
    (e : σ × Deed Key Row O) (ht : t = pre++e::post) :
    ∃ (w₁ : World Key Row L ε C O G σ) (fail : Bool) (β : Type) (a : Action Key Row L ε C O β)
      (k : β → Prog Key Row L ε C O Unit), Told be permit w₀ w₁ pre ∧ w₁.prog e.1 = .act a k ∧
      permit w₁.cfg e.1 fail β a ∧ e.2 = a.deed fail w₁.cfg.srv (w₁.cfg.ses e.1) ∧
      Run be permit (w₁.next be e.1 fail a k) w := by
  induction h generalizing post with
  | nil => simp at ht
  | @snoc w t β i fail a k hw hp hadm ih =>
    rcases List.eq_nil_or_concat post with rfl | ⟨post', y, rfl⟩
    · obtain ⟨rfl, hlast⟩ := List.append_inj' ht rfl
      cases hlast
      exact ⟨w, fail, β, a, k, hw, hp, hadm, rfl, .refl⟩
    · rw [List.concat_eq_append, ← List.cons_append, ← List.append_assoc] at ht
      obtain ⟨w₁, fail', β', a', k', h₁, hp', hadm', he, hrun⟩ :=
        ih post' (List.append_inj' ht rfl).1
      exact ⟨w₁, fail', β', a', k', h₁, hp', hadm', he, hrun.tail (.act i fail a k hp hadm)⟩

/-- Every deed was done in the run. -/
theorem told_deed (h : Told be permit w₀ w t) (i : σ) (d : Deed Key Row O)
    (hd : d ∈ deedsOf i t) : ∃ w₁ w₂, Run be permit w₀ w₁ ∧ Step be permit w₁ w₂ ∧
      Run be permit w₂ w ∧ w₁.cfg.srv.db = d.met ∧ w₂.cfg.srv.db = d.met.replay d.made := by
  obtain ⟨e, he, rfl⟩ := List.mem_map.mp hd
  obtain ⟨pre, post, rfl⟩ := List.append_of_mem (List.mem_filter.mp he).1
  obtain ⟨w₁, fail, β, a, k, h₁, hp, hadm, he, hrun⟩ := told_entry be permit h pre post e rfl
  refine ⟨w₁, _, told_run be permit h₁, .act e.1 fail a k hp hadm, hrun, by rw [he]; rfl, ?_⟩
  rw [he]
  exact (exec_deed be e.1 fail a w₁.cfg.srv (w₁.cfg.ses e.1)).1

/-- What is allowed of a client at first is allowed of it for ever. -/
theorem told_conducts (h : Told be permit w₀ w t) (j : σ)
    (D : List (Deed Key Row O) → Deed Key Row O → Prop)
    (Q : List (Deed Key Row O) → Session Key Row C O → Prop)
    (hp : (w₀.prog j).Conduct be j D (fun _ => Q) [] (w₀.cfg.ses j)) :
    (w.prog j).Conduct be j D (fun _ => Q) (deedsOf j t) (w.cfg.ses j) := by
  induction h with
  | nil => exact hp
  | @snoc w t β i fail a k _ hi _ ih =>
    by_cases hj : j = i
    · subst hj
      rw [hi] at ih
      rw [deedsOf_self]
      simpa [World.next, Config.exec] using (ih w.cfg.srv fail).2
    · rw [deedsOf_other i j t _ hj]
      simpa [World.next, Config.exec, hj] using ih

variable (D : σ → List (Deed Key Row O) → Deed Key Row O → Prop)
variable (Q : σ → List (Deed Key Row O) → Session Key Row C O → Prop)

theorem told_conduct (h : Told be permit w₀ w t)
    (hp : ∀ i, (w₀.prog i).Conduct be i (D i) (fun _ => Q i) [] (w₀.cfg.ses i)) (j : σ) :
    (w.prog j).Conduct be j (D j) (fun _ => Q j) (deedsOf j t) (w.cfg.ses j) :=
  told_conducts be permit h j (D j) (Q j) (hp j)

/-- Every commit was allowed to its client after the deeds it had done before. -/
theorem told_allowed (h : Told be permit w₀ w t)
    (hp : ∀ i, (w₀.prog i).Conduct be i (D i) (fun _ => Q i) [] (w₀.cfg.ses i))
    (pre post : List (σ × Deed Key Row O)) (e : σ × Deed Key Row O) (ht : t = pre++e::post)
    (hmade : e.2.made ≠ []) : D e.1 (deedsOf e.1 pre) e.2 := by
  obtain ⟨w₁, fail, β, a, k, h₁, hact, -, he, -⟩ := told_entry be permit h pre post e ht
  have hc := told_conduct be permit D Q h₁ hp e.1
  rw [hact] at hc
  rw [he] at hmade ⊢
  exact (hc w₁.cfg.srv fail).1 hmade

/-- An invariant of the rows and of what was told before them. At each deed it holds of
the rows that are met now and of those that the client has met earlier. -/
theorem told_always (hp : ∀ i, (w₀.prog i).Conduct be i (D i) (fun _ => Q i) [] (w₀.cfg.ses i))
    (I : List (σ × Deed Key Row O) → Store Key Row → Prop) (hnil : I [] w₀.cfg.srv.db)
    (hsnoc : ∀ t w₁ i d, Told be permit w₀ w₁ t → d.met = w₁.cfg.srv.db →
      (d.made ≠ [] → D i (deedsOf i t) d) → I t d.met →
      (∀ d₀ ∈ deedsOf i t, ∃ pre post w₂, t = pre++post ∧ Told be permit w₀ w₂ pre ∧
        d₀.met = w₂.cfg.srv.db ∧ I pre d₀.met) →
      I (t++[(i, d)]) (d.met.replay d.made)) (h : Told be permit w₀ w t) :
    ∀ pre post, t = pre++post → I pre (rowsAfter w₀.cfg.srv.db pre) := by
  induction h with
  | nil =>
    intro pre post ht
    obtain ⟨rfl, -⟩ := List.append_eq_nil_iff.mp ht.symm
    exact hnil
  | @snoc w t β i fail a k hw hact hadm ih =>
    intro pre post ht
    rcases List.eq_nil_or_concat post with rfl | ⟨post, e, rfl⟩
    · rw [List.append_nil] at ht
      subst ht
      have hrows : rowsAfter w₀.cfg.srv.db (t++[(i, a.deed fail w.cfg.srv (w.cfg.ses i))]) =
          w.cfg.srv.db.replay (a.made fail w.cfg.srv (w.cfg.ses i)) := by
        rw [rowsAfter_append, ← told_rows be permit hw]
        simp [rowsAfter, Action.deed]
      rw [hrows]
      refine hsnoc t w i (a.deed fail w.cfg.srv (w.cfg.ses i)) hw rfl (fun hmade => ?_) ?_
        fun d₀ hd₀ => ?_
      · exact told_allowed be permit D Q (.snoc i fail a k hw hact hadm) hp t [] (i, _) rfl hmade
      · have hnow := ih t [] (List.append_nil t).symm
        rwa [← told_rows be permit hw] at hnow
      · obtain ⟨pre, post, rfl⟩ := List.append_of_mem (mem_deedsOf i t d₀ hd₀)
        obtain ⟨w₂, _, _, _, _, h₂, -, -, hd₂, -⟩ :=
          told_entry be permit hw pre post (i, d₀) rfl
        have hmet : d₀.met = rowsAfter w₀.cfg.srv.db pre := by
          rw [← told_rows be permit h₂]
          exact congrArg Deed.met hd₂
        exact ⟨pre, (i, d₀)::post, w₂, rfl, h₂, congrArg Deed.met hd₂, hmet ▸ ih pre _ rfl⟩
    · rw [List.concat_eq_append, ← List.append_assoc] at ht
      exact ih pre post (List.append_inj' ht rfl).1

/-- The commits of a client in all are those before its last one, and that. -/
theorem told_commits (h : Told be permit w₀ w t)
    (hp : ∀ i, (w₀.prog i).Conduct be i (D i) (fun _ => Q i) [] (w₀.cfg.ses i)) (i : σ)
    (P : List (Deed Key Row O) → Prop) (hnone : P [])
    (hlast : ∀ before d, d.made ≠ [] → D i before d → P (commits before++[d])) :
    P (commits (deedsOf i t)) := by
  rcases last_commit (deedsOf i t) with hs | ⟨before, d, after, heq, hd, hafter⟩
  · rw [commits_spared _ hs]
    exact hnone
  · obtain ⟨pre, post, ht, hpre⟩ := deedsOf_split i t d before after heq
    rw [heq, commits_append, commits_cons d after hd, commits_spared after hafter]
    refine hlast before d hd ?_
    rw [← hpre]
    exact told_allowed be permit D Q h hp pre post (i, d) ht hd

/-- A client that has ended has kept its postcondition. -/
theorem told_ended (h : Told be permit w₀ w t)
    (hp : ∀ i, (w₀.prog i).Conduct be i (D i) (fun _ => Q i) [] (w₀.cfg.ses i)) (i : σ)
    (hi : w.prog i = .ret ()) : Q i (deedsOf i t) (w.cfg.ses i) := by
  have hc := told_conduct be permit D Q h hp i
  rw [hi] at hc
  exact hc

end Deeds
end Relational
