import Jetski.Deletion
import Jetski.GatewaySync

/-!
# Concurrent deletions of a project

A deletion request looks for its project three times: when it checks access,
when it reads the summary and when it deletes. Only the check reports a project
that has gone as not found. The commit of the deletion names its client, so it
is known from then on whose request has deleted the project.
-/

set_option autoImplicit false

namespace Jetski.ConcurrentDeletion

open Relational Schema Jetski.Types Database Handlers Ownership Reachability GatewaySync

section Runs
variable {σ : Type} (p : UUID) (srv₀ : Srv σ)

/-- Nobody has deleted the project, or the client has, with the only commit since. -/
def DeletedBy (x : Conf σ) : Option σ → Prop
  | none => x.srv.db = srv₀.db ∧ x.srv.wal = srv₀.wal
  | some j => x.srv.db.row .project p = none ∧ ∃ c, c.client = j ∧ x.srv.wal = srv₀.wal++[c]

theorem deletedBy_unique (x : Conf σ) (i j : σ) (hi : DeletedBy p srv₀ x (some i))
    (hj : DeletedBy p srv₀ x (some j)) : i = j := by
  obtain ⟨-, c, rfl, hc⟩ := hi
  obtain ⟨-, c', rfl, hc'⟩ := hj
  have hsame : c = c' := by simpa using hc.symm.trans hc'
  rw [hsame]

/-- Only the rows, the commits and what the client has emitted matter. -/
theorem deletedBy_congr (x y : Conf σ) (d : Option σ) (hdb : y.srv.db = x.srv.db)
    (hwal : y.srv.wal = x.srv.wal) (h : DeletedBy p srv₀ x d) : DeletedBy p srv₀ y d := by
  cases d with
  | none => exact ⟨hdb.trans h.1, hwal.trans h.2⟩
  | some j => exact ⟨hdb ▸ h.1, hwal ▸ h.2⟩

variable (i : σ)

def Others (x y : Conf σ) : Prop :=
  y.ses i = x.ses i ∧ ∀ d, DeletedBy p srv₀ x d →
    DeletedBy p srv₀ y d ∨ (d = none ∧ ∃ j, j ≠ i ∧ DeletedBy p srv₀ y (some j))

def Own (x y : Conf σ) : Prop :=
  (∀ j, j ≠ i → y.ses j = x.ses j) ∧ ∀ d, DeletedBy p srv₀ x d →
    DeletedBy p srv₀ y d ∨ (d = none ∧ DeletedBy p srv₀ y (some i))

theorem deletions_compatible :
    Compatible (fun i : σ => Others p srv₀ i) (fun i => Own p srv₀ i) where
  refl i x := ⟨rfl, fun d hd => Or.inl hd⟩
  trans i x y z hxy hyz := by
    refine ⟨hyz.1.trans hxy.1, fun d hd => ?_⟩
    rcases hxy.2 d hd with hd | ⟨rfl, j, hj, hd⟩
    · exact hyz.2 d hd
    · rcases hyz.2 _ hd with hd | ⟨hnone, -⟩
      · exact Or.inr ⟨rfl, j, hj, hd⟩
      · cases hnone
  covers i j x y hij h := by
    refine ⟨h.1 j (Ne.symm hij), fun d hd => ?_⟩
    rcases h.2 d hd with hy | ⟨rfl, hy⟩
    · exact Or.inl hy
    · exact Or.inr ⟨rfl, i, hij, hy⟩

/-- What the client has emitted, and whose deletion it may have been. -/
structure At (out : List Output) (whose : Option σ → Prop) (x : Conf σ) : Prop where
  out : (x.ses i).out = out
  deleted : ∃ d, DeletedBy p srv₀ x d ∧ whose d

def Open (whose : Option σ → Prop) : Prop := whose none → ∀ j, j ≠ i → whose (some j)

theorem at_others (out : List Output) (whose : Option σ → Prop) (hw : Open i whose) (x y : Conf σ)
    (h : At p srv₀ i out whose x) (hxy : Others p srv₀ i x y) : At p srv₀ i out whose y := by
  obtain ⟨d, hd, hwhose⟩ := h.deleted
  refine ⟨hxy.1 ▸ h.out, ?_⟩
  rcases hxy.2 d hd with hd | ⟨rfl, j, hj, hd⟩
  · exact ⟨d, hd, hwhose⟩
  · exact ⟨some j, hd, hw hwhose j hj⟩

def notMine (d : Option σ) : Prop := d ≠ some i

def mine (d : Option σ) : Prop := d = some i

def another (d : Option σ) : Prop := ∃ j, j ≠ i ∧ d = some j

theorem open_notMine : Open i (notMine i) := fun _ _ hj h => hj (Option.some.inj h)

theorem open_mine : Open i (mine i) := fun h => nomatch h

theorem open_another : Open i (another i) := fun ⟨_, _, h⟩ => nomatch h

/-- The request has been answered: after its own deletion with 204, and after
that of another one with 404. -/
def Settled (x : Conf σ) : Prop :=
  (∃ body, At p srv₀ i [.response 204 body] (mine i) x) ∨
    ∃ body, At p srv₀ i [.response 404 body] (another i) x

variable [DecidableEq σ]

def looks (name : StepName Stmt) : Prop :=
  name = .stmt .getProjectSummary ∨ name = .stmt .deleteProject

/-- Every step succeeds, and a request reads the summary and deletes while the project exists. -/
def unsurprised : Admit Key Row Stmt DbError KubeCall Output Cluster σ :=
  fun x i fail _ a => succeeding x i fail _ a ∧
    (looks a.name → (x.srv.db.row .project p).isSome)

abbrev Ends {α : Type} (Q : α → Conf σ → Prop) (prog : Api α) (x : Conf σ) : Prop :=
  Safe backend (unsurprised p) (Others p srv₀ i) (Own p srv₀ i) i Q prog x

/-! ## Steps that leave the rows alone -/

section Steps
variable (out : List Output) (whose : Option σ → Prop) (hw : Open i whose)
include hw

theorem ends_silent {α β : Type} (Q : α → Conf σ → Prop)
    (a : Action Key Row Stmt DbError KubeCall Output β) (k : β → Api α) (out' : List Output)
    (ha : ∀ y : Conf σ, (y.ses i).out = out →
      (y.exec backend i false a).2.srv.db = y.srv.db ∧
      (y.exec backend i false a).2.srv.wal = y.srv.wal ∧
      ((y.exec backend i false a).2.ses i).out = out')
    (hk : ∀ y, unsurprised p y i false _ a → (y.exec backend i false a).2.srv.db = y.srv.db →
      At p srv₀ i out' whose (y.exec backend i false a).2 →
        Ends p srv₀ i Q (k (y.exec backend i false a).1) (y.exec backend i false a).2)
    (x : Conf σ) (h : At p srv₀ i out whose x) : Ends p srv₀ i Q (.act a k) x := by
  intro y hy fail hadm
  obtain rfl : fail = false := hadm.1.2
  have hat := at_others p srv₀ i out whose hw x y h hy
  obtain ⟨hdb, hwal, hout⟩ := ha y hat.out
  obtain ⟨d, hd, hwhose⟩ := hat.deleted
  refine ⟨⟨fun j hj => ?_, fun d hd => Or.inl ?_⟩, hk y hadm hdb ⟨hout, d, ?_, hwhose⟩⟩
  · simp only [Config.exec, Function.update_of_ne hj]
  · exact deletedBy_congr p srv₀ y _ d hdb hwal hd
  · exact deletedBy_congr p srv₀ y _ d hdb hwal hd

theorem ends_select {α β : Type} (Q : α → Conf σ → Prop) (name : Stmt)
    (rows : Db → Except DbError β) (k : Except DbError β → Api α)
    (hk : ∀ z, At p srv₀ i out whose z →
      (name = .getProjectSummary → (z.srv.db.row .project p).isSome) →
        Ends p srv₀ i Q (k (rows z.srv.db)) z)
    (x : Conf σ) (h : At p srv₀ i out whose x) :
    Ends p srv₀ i Q (.act (.stmt name .pool (Queries.select rows)) k) x := by
  have hexec : ∀ y : Conf σ, ((y.exec backend i false
      (.stmt name .pool (Queries.select rows))).1 = rows y.srv.db) ∧
      (y.exec backend i false (.stmt name .pool (Queries.select rows))).2.srv.db = y.srv.db ∧
      (y.exec backend i false (.stmt name .pool (Queries.select rows))).2.srv.wal = y.srv.wal ∧
      (y.exec backend i false (.stmt name .pool (Queries.select rows))).2.ses = y.ses := by
    intro y
    cases hr : rows y.srv.db with
    | error e =>
      simp [Config.exec, Action.exec, Session.visible, Queries.select, hr, Except.map, Server.tock]
    | ok b =>
      simp [Config.exec, Action.exec, Session.visible, Queries.select, hr, Except.map, Server.tock,
        Server.apply]
  refine ends_silent p srv₀ i out whose hw Q _ k out (fun y hout => ?_)
    (fun y hadm hdb hat => ?_) x h
  · obtain ⟨-, hdb, hwal, hses⟩ := hexec y
    exact ⟨hdb, hwal, hses ▸ hout⟩
  · rw [(hexec y).1, ← hdb]
    refine hk _ hat fun hname => ?_
    rw [hdb]
    exact hadm.2 (Or.inl (congrArg StepName.stmt hname))

theorem ends_respond (Q : Conf σ → Prop) (status : ℕ) (body : Body)
    (hq : ∀ z, At p srv₀ i (out++[.response status body]) whose z → Q z) (x : Conf σ)
    (h : At p srv₀ i out whose x) :
    Ends p srv₀ i (fun _ => Q) (respond status body) x := by
  refine ends_silent p srv₀ i out whose hw (fun _ => Q) (.emit (.response status body)) .ret
    (out++[.response status body]) (fun y hout => ⟨rfl, rfl, ?_⟩) (fun y _ _ hat => ?_) x h
  · simp [Config.exec, Action.exec, hout]
  · exact fun z hz => hq z (at_others p srv₀ i _ whose hw _ z hat hz)

theorem ends_applyGateway (env : Env) (org : Organization) (x : Conf σ)
    (h : At p srv₀ i out whose x) :
    Ends p srv₀ i (fun _ => At p srv₀ i out whose) (applyGateway env .pool org) x := by
  have hret : ∀ (r : Except DbError Unit) z, At p srv₀ i out whose z →
      Ends p srv₀ i (fun _ => At p srv₀ i out whose) (.ret r) z :=
    fun r z hat z' hz => at_others p srv₀ i out whose hw z z' hat hz
  refine ends_select p srv₀ i out whose hw _ _ _ _ (fun z hat _ => ?_) x h
  cases hpss : Queries.projectSummaries env z.srv.db org.id with
  | nil | cons ps pss =>
    refine ends_silent p srv₀ i out whose hw _ _ _ out (fun y hout => ?_)
      (fun y _ _ hat => ?_) z hat
    · simp [Config.exec, Action.exec, hout]
    · exact hret _ _ hat

end Steps

/-! ## The request -/

/-- The rows of a project whose deletion is accepted. -/
structure Deletable (db : Db) (v : ProjectRow) : Prop where
  project : db.row .project p = some v
  organization : ∃ o, db.row .organization v.organizationID = some o
  accepted : ∃ ws, deleteRow foreignKeys tables .project p db = .ok ws ∧
    (db.replay ws).row .project p = none

omit [DecidableEq σ] in
theorem exists_unchanged (x : Conf σ) (h : At p srv₀ i [] (notMine i) x)
    (hp : (x.srv.db.row .project p).isSome) : x.srv.db = srv₀.db ∧ x.srv.wal = srv₀.wal := by
  obtain ⟨d, hdel, -⟩ := h.deleted
  cases d with
  | none => exact hdel
  | some j =>
    rw [hdel.1] at hp
    cases hp

variable (v : ProjectRow) (hd : Deletable p srv₀.db v)
include hd

theorem ends_deleteProject (x : Conf σ) (h : At p srv₀ i [] (notMine i) x) :
    Ends p srv₀ i (fun r z => r = .ok () ∧ At p srv₀ i [] (mine i) z) (deleteProject .pool p)
      x := by
  obtain ⟨ws, hws, hgone⟩ := hd.accepted
  intro y hy fail hadm
  obtain rfl : fail = false := hadm.1.2
  have hat := at_others p srv₀ i [] _ (open_notMine i) x y h hy
  obtain ⟨hdb, hwal⟩ := exists_unchanged p srv₀ i y hat (hadm.2 (Or.inr rfl))
  have hquery : ∀ t, Queries.deleteProject p t y.srv.db = .ok (1, ws) := by
    intro t
    rw [hdb]
    simp only [Queries.deleteProject, hd.project, hws]
  have hne : ws ≠ [] := by
    rintro rfl
    exact absurd (hgone.symm.trans hd.project) (by simp)
  have hexec : (y.exec backend i false (.stmt Stmt.deleteProject .pool (Queries.deleteProject p))) =
      (.ok 1, ⟨(y.srv.apply ⟨i, y.srv.wal.length, ws⟩).tock, y.ses⟩) := by
    simp [Config.exec, Action.exec, Session.visible, hquery]
  have hmine : DeletedBy p srv₀ (⟨(y.srv.apply ⟨i, y.srv.wal.length, ws⟩).tock, y.ses⟩ : Conf σ)
      (some i) := by
    refine ⟨?_, ⟨i, y.srv.wal.length, ws⟩, rfl, ?_⟩
    · simpa [Server.apply, Server.tock, hdb] using hgone
    · simp [Server.apply, Server.tock, hne, hwal]
  rw [hexec]
  refine ⟨⟨fun _ _ => rfl, fun d hdel => ?_⟩, fun z hz => ⟨rfl, ?_⟩⟩
  · cases d with
    | none => exact Or.inr ⟨rfl, hmine⟩
    | some j =>
      have hrow := hdel.1
      rw [hdb, hd.project] at hrow
      cases hrow
  · have hdone : At p srv₀ i [] (mine i)
        (⟨(y.srv.apply ⟨i, y.srv.wal.length, ws⟩).tock, y.ses⟩ : Conf σ) :=
      ⟨hat.out, some i, hmine, rfl⟩
    exact at_others p srv₀ i [] _ (open_mine i) _ z hdone hz

theorem ends_deletion (env : Env) (org : Organization) (f : Except DbError Unit → Api Unit)
    (hf : f (.ok ()) = (applyGateway env .pool org).bind (fun _ => respond 204 .empty)) (x : Conf σ)
    (h : At p srv₀ i [] (notMine i) x) :
    Ends p srv₀ i (fun _ => Settled p srv₀ i) ((deleteProject .pool p).bind f) x := by
  have hrefl := (deletions_compatible p srv₀).refl i
  refine safe_bind _ _ _ _ i _ _ _ _ hrefl (fun r z hr => ?_) x
    (ends_deleteProject p srv₀ i v hd x h)
  obtain ⟨rfl, hat⟩ := hr
  rw [hf]
  refine safe_bind _ _ _ _ i _ _ _ _ hrefl (fun _ z' hat' => ?_) z
    (ends_applyGateway p srv₀ i [] _ (open_mine i) env org z hat)
  exact ends_respond p srv₀ i [] _ (open_mine i) _ 204 .empty (fun _ hz => Or.inl ⟨_, hz⟩) z' hat'

theorem ends_summary (f : Except DbError ProjectSummary → Api Unit)
    (hf : ∀ project z, At p srv₀ i [] (notMine i) z →
      Ends p srv₀ i (fun _ => Settled p srv₀ i) (f (.ok project)) z) (x : Conf σ)
    (h : At p srv₀ i [] (notMine i) x) : Ends p srv₀ i (fun _ => Settled p srv₀ i)
      ((Database.getProjectSummary .pool p).bind f) x := by
  refine ends_select p srv₀ i [] _ (open_notMine i) _ _ _ _ (fun z hat hp => ?_) x h
  obtain ⟨hdb, -⟩ := exists_unchanged p srv₀ i z hat (hp rfl)
  obtain ⟨o, ho⟩ := hd.organization
  rw [hdb, hd.project]
  simp only [Option.bind_some, Queries.summary, Queries.organization, ho, Option.map_some,
    Option.toList_some, Queries.collectExactlyOneRow]
  exact hf _ z hat

theorem ends_deleteProjectHandler (env : Env) (user : UserAccount) (hp : p ≠ 0)
    (hm : Queries.isMember srv₀.db user.id v.organizationID = true) (x : Conf σ)
    (h : At p srv₀ i [] (notMine i) x) : Ends p srv₀ i (fun _ => Settled p srv₀ i)
      (deleteProjectHandler env user (.value p)) x := by
  refine ends_select p srv₀ i [] _ (open_notMine i) _ _ _ _ (fun z hat _ => ?_) x h
  obtain ⟨d, hdel, hwhose⟩ := hat.deleted
  cases d with
  | none =>
    rw [hdel.1, hd.project]
    simp only [hm]
    change Ends p srv₀ i _ (if p = 0 then _ else _) z
    rw [if_neg hp]
    refine ends_summary p srv₀ i v hd _ (fun project z' hat' => ?_) z hat
    exact ends_deletion p srv₀ i v hd env project.organization _ rfl z' hat'
  | some j =>
    rw [hdel.1]
    have hother : At p srv₀ i [] (another i) z :=
      ⟨hat.out, some j, hdel, j, fun hj => hwhose (hj ▸ rfl), rfl⟩
    exact ends_respond p srv₀ i [] _ (open_another i) _ 404 _ (fun _ hz => Or.inr ⟨_, hz⟩) z hother

omit [DecidableEq σ] hd in
theorem reachable_deletable (env : Env) (hr : Reachable env srv₀.db)
    (hv : srv₀.db.row .project p = some v)
    (hacc : ∃ ws, deleteRow foreignKeys tables .project p srv₀.db = .ok ws) :
    Deletable p srv₀.db v := by
  have hc := reachable_consistent env srv₀.db hr
  obtain ⟨ws, hws⟩ := hacc
  have hgone := (Deletion.deleteRow_deletes srv₀.db p hc.toPointers ws hws .project p).1 rfl
  have horg := hc.sound.parent projectOrganization (by simp [schema, foreignKeys]) p v _ hv rfl
  exact ⟨hv, horg, ws, hws, hgone⟩

end Runs

/-! ## Late steps -/

section Late
variable (σ : Type) (p : UUID)

/-- Whenever the program reads the summary or deletes without the project there,
it goes on to report an internal error. -/
def Alarmed : Api Unit → Prop
  | .ret _ => True
  | .act a k => (looks a.name → ∀ (me : σ) srv s, srv.db.row .project p = none →
      k (a.exec backend me false srv s).1 = internalServerError) ∧ ∀ b, Alarmed (k b)

theorem alarmed_quiet {β : Type} (a : Action Key Row Stmt DbError KubeCall Output β)
    (k : β → Api Unit) (ha : ¬ looks a.name) (hk : ∀ b, Alarmed σ p (k b)) :
    Alarmed σ p (.act a k) := ⟨fun h => absurd h ha, hk⟩

theorem alarmed_respond (status : ℕ) (body : Body) : Alarmed σ p (respond status body) :=
  alarmed_quiet σ p _ _ (by simp [looks, Action.name]) fun _ => trivial

theorem alarmed_deletion (env : Env) (org : Organization) (f : Except DbError Unit → Api Unit)
    (hf : f (.ok ()) = (applyGateway env .pool org).bind (fun _ => respond 204 .empty))
    (he : ∀ e, f (.error e) = internalServerError) :
    Alarmed σ p ((deleteProject .pool p).bind f) := by
  refine ⟨fun _ me srv s hnone => ?_, fun r => ?_⟩
  · have hquery : ∀ t, Queries.deleteProject p t srv.db = .ok (0, []) := by
      simp [Queries.deleteProject, hnone]
    simp only [Action.exec, Session.visible, hquery]
    exact he .notFound
  · cases r with
    | error e =>
      refine Eq.mpr (congrArg (Alarmed σ p) (he e)) (alarmed_respond σ p 500 _)
    | ok n =>
      by_cases hn : n = 0
      · subst hn
        exact Eq.mpr (congrArg (Alarmed σ p) (he .notFound)) (alarmed_respond σ p 500 _)
      · simp only [Prog.bind_ret, if_neg hn, Prog.pure_eq, hf]
        refine alarmed_quiet σ p _ _ (by simp [looks, Action.name]) fun r => ?_
        cases r with
        | error e => exact alarmed_respond σ p 204 .empty
        | ok pss =>
          refine alarmed_quiet σ p _ _ (by simp [looks, Action.name]) fun ok => ?_
          cases ok <;> exact alarmed_respond σ p 204 .empty

theorem alarmed_deleteProjectHandler (env : Env) (user : UserAccount) :
    Alarmed σ p (deleteProjectHandler env user (.value p)) := by
  refine alarmed_quiet σ p _ _ (by simp [looks, Action.name]) fun r => ?_
  cases r with
  | error e => exact alarmed_quiet σ p _ _ (by simp [looks, Action.name]) fun _ => trivial
  | ok found =>
    cases found with
    | false => exact alarmed_quiet σ p _ _ (by simp [looks, Action.name]) fun _ => trivial
    | true =>
      change Alarmed σ p (if p = 0 then _ else _)
      by_cases hp : p = 0
      · rw [if_pos hp]
        trivial
      · rw [if_neg hp]
        refine ⟨fun _ me srv s hnone => ?_, fun r => ?_⟩
        · simp only [Action.exec, Session.visible, Queries.getProjectSummary, Queries.select, hnone]
          rfl
        · cases r with
          | error e => cases e <;> exact alarmed_respond σ p _ _
          | ok project => exact alarmed_deletion σ p env project.organization _ rfl fun _ => rfl

end Late

/-! ## Answers -/

section Answers
variable {σ : Type} [DecidableEq σ] (env : Env) (user : σ → UserAccount) (p : UUID) (srv : Srv σ)

def deleting : ApiWorld σ :=
  ⟨⟨srv, fun _ => {}⟩, fun i => deleteProjectHandler env (user i) (.value p)⟩

def Answered (w : ApiWorld σ) (i : σ) (status : ℕ) : Prop :=
  ∃ body, (w.cfg.ses i).out = [.response status body]

/-- The request is about to report an internal error, or has done so. -/
def Doomed (w : ApiWorld σ) (i : σ) : Prop :=
  w.prog i = internalServerError ∨ ∃ body, .response 500 body ∈ (w.cfg.ses i).out

omit [DecidableEq σ] in
theorem settled_answered (w : ApiWorld σ) (i : σ) (h : Settled p srv i w.cfg) :
    (Answered w i 204 ∧ DeletedBy p srv w.cfg (some i)) ∨
      (Answered w i 404 ∧ ∃ j, j ≠ i ∧ DeletedBy p srv w.cfg (some j)) := by
  rcases h with ⟨body, h⟩ | ⟨body, h⟩
  · obtain ⟨d, hd, rfl⟩ := h.deleted
    exact Or.inl ⟨⟨body, h.out⟩, hd⟩
  · obtain ⟨d, hd, j, hj, rfl⟩ := h.deleted
    exact Or.inr ⟨⟨body, h.out⟩, j, hj, hd⟩

omit [DecidableEq σ] in
theorem answered_once (w : ApiWorld σ) (i : σ) (status status' : ℕ) (h : Answered w i status)
    (h' : Answered w i status') : status = status' := by
  obtain ⟨body, h⟩ := h
  obtain ⟨body', h'⟩ := h'
  cases h.symm.trans h'
  rfl

theorem run_settled (v : ProjectRow) (hd : Deletable p srv.db v) (hp : p ≠ 0)
    (hm : ∀ i, Queries.isMember srv.db (user i).id v.organizationID = true) (w : ApiWorld σ)
    (hr : Run backend (unsurprised p) (deleting env user p srv) w) (i : σ)
    (hdone : w.prog i = .ret ()) : Settled p srv i w.cfg := by
  have hstart : AllSafe backend (unsurprised p) (fun i => Others p srv i) (fun i => Own p srv i)
      (fun i => Settled p srv i) (deleting env user p srv) := by
    intro i
    refine ends_deleteProjectHandler p srv i v hd env (user i) hp (hm i) _
      ⟨rfl, none, ⟨rfl, rfl⟩, ?_⟩
    exact fun h => nomatch h
  have hsafe := (run_safe backend (unsurprised p) _ _ _ (deletions_compatible p srv)
    (fun _ => True) (fun _ _ _ _ _ => trivial) _ w hr hstart trivial).1 i
  rw [hdone] at hsafe
  exact hsafe w.cfg ((deletions_compatible p srv).refl i w.cfg)

theorem step_doomed (w w' : ApiWorld σ) (h : Step backend succeeding w w') (i : σ)
    (hd : Doomed w i) : Doomed w' i := by
  obtain ⟨j, fail, a, k, hprog, hadm⟩ := h
  obtain rfl : fail = false := hadm.2
  by_cases hj : i = j
  · subst hj
    rcases hd with hd | ⟨body, hd⟩
    · cases hprog.symm.trans hd
      refine Or.inr ⟨.text "Internal Server Error", ?_⟩
      simp [Config.exec, Action.exec]
    · refine Or.inr ⟨body, ?_⟩
      simp only [Config.exec, Function.update_self]
      exact (exec_out backend i false a w.cfg.srv (w.cfg.ses i)).subset hd
  · rw [Doomed]
    simp only [Config.exec, Function.update_of_ne hj]
    exact hd

/-- Every step was taken while the project existed, or a request reports an internal error. -/
theorem run_alarmed (w₀ w : ApiWorld σ) (hr : Run backend succeeding w₀ w)
    (h₀ : ∀ i, Alarmed σ p (w₀.prog i)) :
    (Run backend (unsurprised p) w₀ w ∨ ∃ i, Doomed w i) ∧ ∀ i, Alarmed σ p (w.prog i) := by
  induction hr with
  | refl => exact ⟨Or.inl .refl, h₀⟩
  | @tail y z _ hs ih =>
    obtain ⟨hrun, halarmed⟩ := ih
    have hstep := hs
    obtain ⟨i, fail, a, k, hprog, hadm⟩ := hs
    have hi := halarmed i
    rw [hprog] at hi
    refine ⟨?_, fun j => ?_⟩
    · rcases hrun with hrun | ⟨j, hj⟩
      · by_cases hlate : looks a.name ∧ y.cfg.srv.db.row .project p = none
        · obtain rfl : fail = false := hadm.2
          refine Or.inr ⟨i, Or.inl ?_⟩
          simp only [Function.update_self]
          exact hi.1 hlate.1 i y.cfg.srv (y.cfg.ses i) hlate.2
        · refine Or.inl (hrun.tail (.act i fail a k hprog ⟨hadm, fun hlook => ?_⟩))
          exact Option.isSome_iff_ne_none.mpr fun hnone => hlate ⟨hlook, hnone⟩
      · exact Or.inr ⟨j, step_doomed y _ hstep j hj⟩
    · by_cases hj : j = i
      · subst hj
        simp only [Function.update_self]
        exact hi.2 _
      · simp only [Function.update_of_ne hj]
        exact halarmed j

/-- One request has deleted the project and all others have not found it. -/
def OneDeletes (w : ApiWorld σ) : Prop := ∃ i, Answered w i 204 ∧ ∀ j, j ≠ i → Answered w j 404

/-- As long as every request reads the summary and deletes while the project exists,
finished requests are answered 204 or 404, and only one of them 204. Once all
requests are done, one was answered 204 and the others 404 just in this case. -/
theorem deletions_answered [Nonempty σ] (v : ProjectRow) (hreach : Reachable env srv.db)
    (hv : srv.db.row .project p = some v) (hp : p ≠ 0)
    (hacc : ∃ ws, deleteRow foreignKeys tables .project p srv.db = .ok ws)
    (hm : ∀ i, Queries.isMember srv.db (user i).id v.organizationID = true) :
    (∀ w, Run backend (unsurprised p) (deleting env user p srv) w →
      (∀ i, w.prog i = .ret () → Answered w i 204 ∨ Answered w i 404) ∧
      (∀ i j, w.prog i = .ret () → w.prog j = .ret () → Answered w i 204 → Answered w j 204 →
        i = j)) ∧
    (∀ w, Run backend succeeding (deleting env user p srv) w → (∀ i, w.prog i = .ret ()) →
      (OneDeletes w ↔ Run backend (unsurprised p) (deleting env user p srv) w)) := by
  have hd := reachable_deletable p srv v env hreach hv hacc
  have hanswer : ∀ w, Run backend (unsurprised p) (deleting env user p srv) w → ∀ i,
      w.prog i = .ret () → (Answered w i 204 ∧ DeletedBy p srv w.cfg (some i)) ∨
        (Answered w i 404 ∧ ∃ j, j ≠ i ∧ DeletedBy p srv w.cfg (some j)) := fun w hr i hdone =>
    settled_answered p srv w i (run_settled env user p srv v hd hp hm w hr i hdone)
  have hwinner : ∀ w, Run backend (unsurprised p) (deleting env user p srv) w → ∀ i,
      w.prog i = .ret () → Answered w i 204 → DeletedBy p srv w.cfg (some i) := by
    intro w hr i hdone h204
    rcases hanswer w hr i hdone with h | h
    · exact h.2
    · cases answered_once w i 204 404 h204 h.1
  constructor
  · intro w hr
    refine ⟨fun i hdone => (hanswer w hr i hdone).imp And.left And.left, ?_⟩
    intro i j hi hj h204 h204'
    exact deletedBy_unique p srv w.cfg i j (hwinner w hr i hi h204) (hwinner w hr j hj h204')
  · intro w hr hdone
    constructor
    · rintro ⟨i, hi, hothers⟩
      rcases (run_alarmed p _ w hr fun i => alarmed_deleteProjectHandler σ p env (user i)).1 with
        hrun | ⟨j, hj⟩
      · exact hrun
      · exfalso
        rcases hj with hj | ⟨body, hj⟩
        · cases (hdone j).symm.trans hj
        · by_cases hji : j = i
          · obtain ⟨body', hout⟩ := hji ▸ hi
            rw [hout] at hj
            cases List.mem_singleton.mp hj
          · obtain ⟨body', hout⟩ := hothers j hji
            rw [hout] at hj
            cases List.mem_singleton.mp hj
    · intro hrun
      obtain ⟨i₀⟩ := ‹Nonempty σ›
      have hsome : ∃ i, DeletedBy p srv w.cfg (some i) := by
        rcases hanswer w hrun i₀ (hdone i₀) with ⟨-, h⟩ | ⟨-, j, -, h⟩
        · exact ⟨i₀, h⟩
        · exact ⟨j, h⟩
      obtain ⟨i, hi⟩ := hsome
      refine ⟨i, ?_, fun j hj => ?_⟩
      · rcases hanswer w hrun i (hdone i) with ⟨h, -⟩ | ⟨-, j, hj, h⟩
        · exact h
        · exact absurd (deletedBy_unique p srv w.cfg j i h hi) hj
      · rcases hanswer w hrun j (hdone j) with ⟨-, h⟩ | ⟨h, -⟩
        · exact absurd (deletedBy_unique p srv w.cfg j i h hi) hj
        · exact h

end Answers

/-! ## Two deletions of one project -/

def demoProject : Option (ApiWorld Bool) :=
  played (List.replicate 4 (true, false)) (start fun _ => demoClient)

abbrev demoDeleting (srv : Srv Bool) : ApiWorld Bool :=
  deleting Env.demo (fun _ => .demo) 4 srv

instance (name : StepName Stmt) : Decidable (looks name) := inferInstanceAs (Decidable (_ ∨ _))

instance (p : UUID) (x : Conf Bool) (i fail : Bool) (β : Type)
    (a : Action Key Row Stmt DbError KubeCall Output β) : Decidable (unsurprised p x i fail β a) :=
  inferInstanceAs (Decidable (_ ∧ (_ → _)))

/-- The first request is done before the second one begins, or deletes before the
second one has read the summary, or before it deletes. -/
inductive DemoOrder where
  | serial
  | beforeSummary
  | beforeDeletion

def DemoOrder.schedule : DemoOrder → List (Bool × Bool)
  | .serial => List.replicate 6 (true, false)++List.replicate 2 (false, false)
  | .beforeSummary => [(true, false), (false, false)]++List.replicate 5 (true, false)++
      List.replicate 2 (false, false)
  | .beforeDeletion => [(true, false), (false, false), (true, false), (false, false)]++
      List.replicate 4 (true, false)++List.replicate 2 (false, false)

def demoEnd (order : DemoOrder) : Option (ApiWorld Bool × ApiWorld Bool) := do
  let w ← demoProject
  let w' ← playedBy succeeding order.schedule (demoDeleting w.cfg.srv)
  return (w, w')

def demoReady (w : ApiWorld Bool) : Bool :=
  (w.cfg.srv.db.row .project 4).any (fun v =>
    Queries.isMember w.cfg.srv.db UserAccount.demo.id v.organizationID) &&
  (deleteRow foreignKeys tables .project 4 w.cfg.srv.db).isOk

theorem demoReady_deletable (w : ApiWorld Bool) (h : demoReady w = true) : ∃ v,
    w.cfg.srv.db.row .project 4 = some v ∧
    Queries.isMember w.cfg.srv.db UserAccount.demo.id v.organizationID = true ∧
    ∃ ws, deleteRow foreignKeys tables .project 4 w.cfg.srv.db = .ok ws := by
  rw [demoReady, Bool.and_eq_true, Option.any_eq_true] at h
  obtain ⟨⟨v, hv, hm⟩, hok⟩ := h
  refine ⟨v, hv, hm, ?_⟩
  cases hd : deleteRow foreignKeys tables .project 4 w.cfg.srv.db with
  | error e =>
    rw [hd] at hok
    cases hok
  | ok ws => exact ⟨ws, rfl⟩

theorem demoEnd_runs (order : DemoOrder) (w w' : ApiWorld Bool)
    (h : demoEnd order = some (w, w')) : Reachable Env.demo w.cfg.srv.db ∧
      Run backend succeeding (demoDeleting w.cfg.srv) w' := by
  simp only [demoEnd, Option.bind_eq_bind, Option.bind_eq_some_iff, Option.pure_def,
    Option.some.injEq, Prod.mk.injEq] at h
  obtain ⟨x, hx, y, hy, rfl, rfl⟩ := h
  exact ⟨⟨Bool, inferInstance, x, ⟨_, start_initial _, fun _ => demoClient_built,
    played_run _ _ _ hx⟩, rfl⟩, playedBy_run succeeding _ _ _ hy⟩

def demoStatuses (w : ApiWorld Bool) (i : Bool) : Bool × List (Option ℕ) :=
  (finished (w.prog i), (w.cfg.ses i).out.map Settings.Output.status)

/-- One request after the other. -/
theorem deletions_answered_demo : ∃ w w', demoEnd .serial = some (w, w') ∧
    (OneDeletes w' ↔ Run backend (unsurprised 4) (demoDeleting w.cfg.srv) w') := by
  have hcheck : (demoEnd .serial).any (fun x => demoReady x.1 &&
      decide (∀ i, (demoStatuses x.2 i).1 = true)) = true := by
    decide
  obtain ⟨⟨w, w'⟩, h, hall⟩ := (Option.any_eq_true _ _).mp hcheck
  obtain ⟨hready, hdone⟩ := (Bool.and_eq_true _ _).mp hall
  obtain ⟨v, hv, hm, hacc⟩ := demoReady_deletable w hready
  obtain ⟨hreach, hr⟩ := demoEnd_runs .serial w w' h
  refine ⟨w, w', h, ?_⟩
  exact (deletions_answered Env.demo (fun _ => .demo) 4 w.cfg.srv v hreach hv
    (by decide) hacc (fun _ => hm)).2 w' hr
    fun i => finished_ret _ (of_decide_eq_true hdone i)

/-- Both requests of members are done, no step of theirs has failed, and the
second one is not answered 404. -/
def Surprised (order : DemoOrder) : Prop := ∃ w w', demoEnd order = some (w, w') ∧
  Reachable Env.demo w.cfg.srv.db ∧ demoReady w = true ∧
  Run backend succeeding (demoDeleting w.cfg.srv) w' ∧ (∀ i, w'.prog i = .ret ()) ∧ ¬ OneDeletes w'

theorem demoEnd_surprised (order : DemoOrder) (h : (demoEnd order).any (fun x => demoReady x.1 &&
    decide (demoStatuses x.2 true = (true, [some 204]) ∧
      demoStatuses x.2 false = (true, [some 500]))) = true) : Surprised order := by
  obtain ⟨⟨w, w'⟩, hend, hall⟩ := (Option.any_eq_true _ _).mp h
  obtain ⟨hready, hstatus⟩ := (Bool.and_eq_true _ _).mp hall
  obtain ⟨htrue, hfalse⟩ := of_decide_eq_true hstatus
  obtain ⟨hreach, hr⟩ := demoEnd_runs order w w' hend
  have hstatus : ∀ i status, Answered w' i status →
      (demoStatuses w' i).2 = [some status] := by
    rintro i status ⟨body, hout⟩
    rw [demoStatuses, hout]
    rfl
  refine ⟨w, w', hend, hreach, hready, hr, fun i => ?_, ?_⟩
  · cases i with
    | true => exact finished_ret _ (congrArg Prod.fst htrue)
    | false => exact finished_ret _ (congrArg Prod.fst hfalse)
  · rintro ⟨i, hi, hothers⟩
    cases i with
    | true =>
      have h404 := hstatus false 404 (hothers false (by decide))
      rw [hfalse] at h404
      cases h404
    | false =>
      have h204 := hstatus false 204 hi
      rw [hfalse] at h204
      cases h204

/-- The second request is answered 500 if the project goes after its access check. -/
theorem deletion_internal_error :
    Surprised .beforeSummary ∧ Surprised .beforeDeletion :=
  ⟨demoEnd_surprised .beforeSummary (by decide), demoEnd_surprised .beforeDeletion (by decide)⟩

end Jetski.ConcurrentDeletion
