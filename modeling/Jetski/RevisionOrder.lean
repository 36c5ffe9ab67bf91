import Mathlib.Data.Fintype.Prod
import Jetski.BuildNumbers
import Jetski.Relational.Drafts

/-!
# The order of revisions

The draft of a request that stores a revision is empty or creates a project, then
has a revision, and then points the project to it. A commit that finds only older
revisions of the project makes its revision the newest one; otherwise it points
the project to a revision that has the number of an earlier one.
-/

set_option autoImplicit false

namespace Jetski.RevisionOrder

open Relational Schema Jetski.Types Database Handlers Routes Reachability Ownership BuildNumbers
open ApiRuns (demoServe demoFounding demoOpening demoCreation)

/-! ## Drafts -/

def Grows (db db' : Db) : Prop :=
  ∀ p, (db.row .project p).isSome → (db'.row .project p).isSome

def Opening (p : UUID) (ws : List Image) : Prop :=
  ws = [] ∨ ∃ v : ProjectRow, v.latestDeploymentRevisionID = none ∧ ws = [⟨.project, p, some v⟩]

def Stored (p d : UUID) (start : ℕ) (db : Db) (ws : List Image) : Prop :=
  ∃ before, ∃ r : DeploymentRevisionRow, Opening p before ∧
    ((db.replay before).row .project p).isSome ∧ r.projectID = p ∧ r.createdAt = start ∧
    ws = before++[⟨.deploymentRevision, d, some r⟩]

/-- Over any rows the images store one revision and point its project to it. -/
structure Releases (p d : UUID) (r : DeploymentRevisionRow) (ws : List Image) : Prop where
  project : r.projectID = p
  stored : (⟨.deploymentRevision, d, some r⟩ : Image) ∈ ws
  revision : ∀ db : Db, (db.replay ws).row .deploymentRevision d = some r
  pointer : ∀ db : Db, ∃ v, (db.replay ws).row .project p = some v ∧
    v.latestDeploymentRevisionID = some d
  revisions : ∀ (db : Db) k, k ≠ d →
    (db.replay ws).row .deploymentRevision k = db.row .deploymentRevision k
  projects : ∀ (db : Db) q, q ≠ p → (db.replay ws).row .project q = db.row .project q

def Elsewhere (ws : List Image) : Prop :=
  ∀ w ∈ ws, w.table ≠ .project ∧ w.table ≠ .deploymentRevision

theorem elsewhere_single (t : Table) (k : Key t) (v : Option (Row t))
    (h : t ≠ .project ∧ t ≠ .deploymentRevision) : Elsewhere [⟨t, k, v⟩] := by
  intro w hw
  cases List.mem_singleton.mp hw
  exact h

theorem elsewhere_project (ws : List Image) (h : Elsewhere ws) (db : Db) (p : UUID) :
    (db.replay ws).row .project p = db.row .project p := by
  refine db.replay_untouched ws .project p fun w hw htouch => ?_
  exact (h w hw).1 (congrArg Sigma.fst htouch)

theorem elsewhere_revision (ws : List Image) (h : Elsewhere ws) (db : Db) (d : UUID) :
    (db.replay ws).row .deploymentRevision d = db.row .deploymentRevision d := by
  refine db.replay_untouched ws .deploymentRevision d fun w hw htouch => ?_
  exact (h w hw).2 (congrArg Sigma.fst htouch)

section Images
variable {p d : UUID} {r : DeploymentRevisionRow} {ws : List Image}

theorem opening_revision (h : Opening p ws) (db : Db) (k : UUID) :
    (db.replay ws).row .deploymentRevision k = db.row .deploymentRevision k := by
  rcases h with rfl | ⟨v, -, rfl⟩
  · rfl
  · exact db.set_table .project .deploymentRevision p k _ (by decide)

theorem opening_project (h : Opening p ws) (db : Db) (q : UUID) (hq : q ≠ p) :
    (db.replay ws).row .project q = db.row .project q := by
  rcases h with rfl | ⟨v, -, rfl⟩
  · rfl
  · exact db.set_key .project p q _ hq

theorem opening_grows (h : Opening p ws) (db : Db) : Grows db (db.replay ws) := by
  intro q hq
  rcases h with rfl | ⟨v, -, rfl⟩
  · exact hq
  · exact db.replay_kept _ .project q hq (by simp)

theorem stored_grows (start : ℕ) (db db' : Db) (hg : Grows db db')
    (h : Stored p d start db ws) : Stored p d start db' ws := by
  obtain ⟨before, r, hb, hp, hr, hs, he⟩ := h
  refine ⟨before, r, hb, ?_, hr, hs, he⟩
  rcases hb with rfl | ⟨v, -, rfl⟩
  · exact hg p hp
  · rw [Store.replay_cons, Store.replay_nil, Store.write, Store.set_same]
    rfl

/-- Pointing the project to the revision releases it. -/
theorem stored_releases (before : List Image) (hb : Opening p before) (hr : r.projectID = p)
    (v : ProjectRow) (hd : v.latestDeploymentRevisionID = some d) :
    Releases p d r (before++[⟨.deploymentRevision, d, some r⟩]++[⟨.project, p, some v⟩]) where
  project := hr
  stored := by simp
  revision db := by
    rw [Store.last_table _ _ _ _ _ _ _ (by decide)]
    exact Store.last_same _ _ _ _ _
  pointer db := ⟨v, Store.last_same _ _ _ _ _, hd⟩
  revisions db k hk := by
    rw [Store.last_table _ _ _ _ _ _ _ (by decide), Store.last_key _ _ _ _ _ _ hk]
    exact opening_revision hb db k
  projects db q hq := by
    rw [Store.last_key _ _ _ _ _ _ hq, Store.last_table _ _ _ _ _ _ _ (by decide)]
    exact opening_project hb db q hq

theorem releases_elsewhere (h : Releases p d r ws) (ws' : List Image) (hw : Elsewhere ws') :
    Releases p d r (ws++ws') where
  project := h.project
  stored := List.mem_append_left _ h.stored
  revision db := by
    rw [Store.replay_append, elsewhere_revision ws' hw]
    exact h.revision db
  pointer db := by
    rw [Store.replay_append, elsewhere_project ws' hw]
    exact h.pointer db
  revisions db k hk := by
    rw [Store.replay_append, elsewhere_revision ws' hw]
    exact h.revisions db k hk
  projects db q hq := by
    rw [Store.replay_append, elsewhere_project ws' hw]
    exact h.projects db q hq

/-- Other columns of the project may change afterwards. -/
theorem releases_project (h : Releases p d r ws) (v : ProjectRow)
    (hd : v.latestDeploymentRevisionID = some d) :
    Releases p d r (ws++[⟨.project, p, some v⟩]) where
  project := h.project
  stored := List.mem_append_left _ h.stored
  revision db := by
    rw [Store.last_table _ _ _ _ _ _ _ (by decide)]
    exact h.revision db
  pointer db := ⟨v, Store.last_same _ _ _ _ _, hd⟩
  revisions db k hk := by
    rw [Store.last_table _ _ _ _ _ _ _ (by decide)]
    exact h.revisions db k hk
  projects db q hq := by
    rw [Store.last_key _ _ _ _ _ _ hq]
    exact h.projects db q hq

theorem releases_grows (h : Releases p d r ws) (db : Db) : Grows db (db.replay ws) := by
  intro q hq
  by_cases hqp : q = p
  · subst hqp
    obtain ⟨v, hv, -⟩ := h.pointer db
    rw [hv]
    rfl
  · rw [h.projects db q hqp]
    exact hq

end Images

/-! ## What keeps the latest revision the newest one -/

/-- All revisions of the project were created before the time. -/
def Older (db : Db) (p : UUID) (time : Time) : Prop :=
  ∀ d r, db.row .deploymentRevision d = some r → r.projectID = p → r.createdAt < time

theorem newest_elsewhere (db : Db) (ws : List Image) (hw : Elsewhere ws) (h : Newest db) :
    Newest (db.replay ws) := by
  intro p v d r hv hd hr hp d' r' hr'
  rw [elsewhere_project ws hw] at hv
  rw [elsewhere_revision ws hw] at hr hr'
  exact h p v d r hv hd hr hp d' r' hr'

theorem newest_opening (db : Db) (p : UUID) (ws : List Image) (hw : Opening p ws) (h : Newest db) :
    Newest (db.replay ws) := by
  intro q v d r hv hd hr hq d' r' hr'
  rw [opening_revision hw] at hr hr'
  by_cases hqp : q = p
  · rcases hw with rfl | ⟨v', hnone, rfl⟩
    · exact h q v d r hv hd hr hq d' r' hr'
    · subst hqp
      rw [Store.replay_cons, Store.replay_nil, Store.write, Store.set_same] at hv
      cases hv
      rw [hnone] at hd
      cases hd
  · rw [opening_project hw db q hqp] at hv
    exact h q v d r hv hd hr hq d' r' hr'

theorem newest_releases (db : Db) (p d : UUID) (r : DeploymentRevisionRow) (ws : List Image)
    (hw : Releases p d r ws) (hold : Older db p r.createdAt) (h : Newest db) :
    Newest (db.replay ws) := by
  intro q v d₀ r₀ hv hd hr₀ hq d' r' hr' hp' hne
  by_cases hqp : q = p
  · subst hqp
    obtain ⟨v', hv', hd'⟩ := hw.pointer db
    rw [hv'] at hv
    cases hv
    rw [hd'] at hd
    cases hd
    rw [hw.revision db] at hr₀
    cases hr₀
    rw [hw.revisions db d' hne] at hr'
    exact hold d' r' hr' hp'
  · have hother : ∀ k v, (db.replay ws).row .deploymentRevision k = some v → v.projectID = q →
        db.row .deploymentRevision k = some v := by
      intro k v hv hproject
      by_cases hk : k = d
      · subst hk
        rw [hw.revision db] at hv
        cases hv
        exact absurd (hproject.symm.trans hw.project) hqp
      · rwa [hw.revisions db k hk] at hv
    rw [hw.projects db q hqp] at hv
    exact h q v d₀ r₀ hv hd (hother _ _ hr₀ hq) hq d' r' (hother _ _ hr' hp') hp' hne

/-! ## Statements -/

theorem createProject_opening (orgID createdBy : UUID) (name : String) (t : Tick) (db : Db)
    (p : Project) (ws : List Image)
    (h : Queries.createProject orgID createdBy name t db = .ok (p, ws)) : Opening p.id ws := by
  obtain ⟨rfl, rfl⟩ := insertRow_ok _ _ _ _ _ _ _ h
  exact Or.inr ⟨_, rfl, rfl⟩

theorem insertDeploymentRevision_stored (dr : Queries.NewRevision) (hnow : dr.createdAt = none)
    (t : Tick) (db : Db) (res : DeploymentRevision) (ws ws' : List Image)
    (hw : Opening dr.projectID ws)
    (h : Queries.insertDeploymentRevision dr t (db.replay ws) = .ok (res, ws')) :
    Stored res.projectID res.id t.start db (ws++ws') := by
  obtain ⟨hid, hproject, -⟩ := insertDeploymentRevision_ok dr t _ res ws' h
  obtain ⟨-, hrow⟩ := insertDeploymentRevision_row dr t _ res ws' h
  have hparent : ((db.replay ws).row .project dr.projectID).isSome := by
    simp only [Queries.insertDeploymentRevision] at h
    split at h
    · rw [Queries.insertRow] at h
      split at h
      · cases h
      · rw [Queries.putRow] at h
        split at h
        · cases h
        · next ws₀ hput =>
          obtain ⟨v, hv⟩ := put_parent schema revisionProject (by simp [schema, foreignKeys])
            (db.replay ws) t.fresh _ ws₀ hput dr.projectID rfl
          have hset := (db.replay ws).set_table .deploymentRevision .project t.fresh dr.projectID
            (some (rowOf dr (dr.createdAt.getD t.start))) (by decide)
          rw [← hset]
          exact Option.isSome_iff_exists.mpr ⟨v, hv⟩
    · cases h
  rw [hproject]
  refine ⟨ws, rowOf dr t.start, hw, hparent, rfl, rfl, ?_⟩
  rw [hrow, hnow, hid]
  rfl

/-- The pointer is moved, because the project of the draft is there. -/
theorem updateLatest_released (p d : UUID) (t : Tick) (db : Db) (b : Unit) (ws ws' : List Image)
    (hw : Stored p d t.start db ws)
    (h : Queries.updateLatestDeploymentRevision d p t (db.replay ws) = .ok (b, ws')) :
    ∃ r, Releases p d r (ws++ws') ∧ r.createdAt = t.start := by
  obtain ⟨before, r, hb, hparent, hr, hstart, rfl⟩ := hw
  obtain ⟨v, hv⟩ := Option.isSome_iff_exists.mp hparent
  have hrow : (db.replay (before++[⟨.deploymentRevision, d, some r⟩])).row .project p = some v := by
    rw [Store.last_table _ _ _ _ _ _ _ (by decide)]
    exact hv
  simp only [Queries.updateLatestDeploymentRevision, hrow] at h
  rw [(putRow_ok _ _ _ _ _ _ _ h).2]
  exact ⟨r, stored_releases before hb hr _ rfl, hstart⟩

theorem insertEvent_elsewhere (d : UUID) (type : DeploymentRevisionEventType)
    (timestamp : Option Time) (t : Tick) (db : Db) (e : UUID) (ws : List Image)
    (h : Queries.insertDeploymentRevisionEvent d type timestamp t db = .ok (e, ws)) :
    Elsewhere ws := by
  obtain ⟨-, v, -, rfl⟩ := insertDeploymentRevisionEvent_ok d type timestamp t db e ws h
  exact elsewhere_single _ _ _ (by decide)

theorem updateEvent_released (p d : UUID) (r : DeploymentRevisionRow) (e : UUID) (t : Tick)
    (db : Db) (b : Unit) (ws ws' : List Image) (hw : Releases p d r ws)
    (h : Queries.updateLatestDeploymentRevisionEvent e d t (db.replay ws) = .ok (b, ws')) :
    Releases p d r (ws++ws') := by
  obtain ⟨v, hv, hd⟩ := hw.pointer db
  simp only [Queries.updateLatestDeploymentRevisionEvent, hw.revision db, hw.project, hv] at h
  rw [(putRow_ok _ _ _ _ _ _ _ h).2]
  exact releases_project hw _ hd

theorem getUser_elsewhere (env : Env) (email : String) (t : Tick) (db : Db) (u : UserAccount)
    (ws : List Image) (h : Queries.getUserByEmailOrCreate env email t db = .ok (u, ws)) :
    Elsewhere ws := by
  rw [Queries.getUserByEmailOrCreate] at h
  split at h
  · split at h
    · rw [(insertRow_ok _ _ _ _ _ _ _ h).2]
      exact elsewhere_single _ _ _ (by decide)
    · rw [read_ok _ u ws h]
      intro w hw
      cases hw
  · cases h

/-! ## Commits in order -/

section Order
variable {σ : Type}

/-- The committed revisions of a project of which the transaction has stored a
revision were created before the transaction began. -/
def InOrder (x : Conf σ) (i : σ) : Prop :=
  ∀ d r, (⟨.deploymentRevision, d, some r⟩ : Image) ∈ (x.ses i).pending →
    Older x.srv.db r.projectID (x.ses i).start

variable [DecidableEq σ]

/-- The steps that the database lets through, with commits in order. -/
def ordered : Admit Key Row Stmt DbError KubeCall Output Cluster σ :=
  fun x i fail β a => postgres x i fail β a ∧
    (a.name = .commit → fail = false → (x.ses i).aborted = false → InOrder x i)

end Order

/-- What a commit may be: of other tables, without a revision, or one that makes its
revision the newest one of the project. -/
def due {σ : Type} (x : Conf σ) (_ : σ) (ws : List Image) : Prop :=
  Elsewhere ws ∨ (∃ p, Opening p ws) ∨
    ∃ p d r, Releases p d r ws ∧ Older x.srv.db p r.createdAt

theorem due_grows {σ : Type} (x : Conf σ) (i : σ) (ws : List Image) (h : due x i ws) :
    Grows x.srv.db (x.srv.db.replay ws) := by
  rcases h with hw | ⟨p, hw⟩ | ⟨p, d, r, hw, -⟩
  · intro q hq
    rwa [elsewhere_project ws hw]
  · exact opening_grows hw x.srv.db
  · exact releases_grows hw x.srv.db

theorem due_growth (σ : Type) : Growth Grows (due (σ := σ)) where
  refl _ _ h := h
  trans _ _ _ h h' p hp := h' p (h p hp)
  due := due_grows

theorem settles_newest {σ : Type} (i : σ) (x y : Conf σ) (h : Settles due i x y)
    (hx : Newest x.srv.db) : Newest y.srv.db := by
  rcases h.2 with he | ⟨ws, hdue, he⟩
  · rwa [he]
  · rw [he]
    rcases hdue with hw | ⟨p, hw⟩ | ⟨p, d, r, hw, hold⟩
    · exact newest_elsewhere _ ws hw hx
    · exact newest_opening _ p ws hw hx
    · exact newest_releases _ p d r ws hw hold hx

/-! ## Programs -/

theorem opening_stable (p : UUID) (_ : ℕ) (db db' : Db) (ws : List Image) (_ : Grows db db')
    (h : Opening p ws) : Opening p ws := h

theorem empty_stable (_ : ℕ) (db db' : Db) (ws : List Image) (_ : Grows db db') (h : ws = []) :
    ws = [] := h

def empty : Shape Grows := ⟨fun _ _ ws => ws = [], empty_stable⟩

def opening (p : UUID) : Shape Grows := ⟨fun _ _ ws => Opening p ws, opening_stable p⟩

theorem stored_stable (p d : UUID) (start : ℕ) (db db' : Db) (ws : List Image)
    (hg : Grows db db') (h : Stored p d start db ws) : Stored p d start db' ws :=
  stored_grows start db db' hg h

def stored (p d : UUID) : Shape Grows := ⟨Stored p d, stored_stable p d⟩

/-- The draft releases a revision that is created at the start of its transaction. -/
def Released (p d : UUID) (start : ℕ) (ws : List Image) : Prop :=
  ∃ r, Releases p d r ws ∧ r.createdAt = start

theorem released_stable (p d : UUID) (start : ℕ) (db db' : Db) (ws : List Image)
    (_ : Grows db db') (h : Released p d start ws) : Released p d start ws := h

def released (p d : UUID) : Shape Grows :=
  ⟨fun start _ ws => Released p d start ws, released_stable p d⟩

section Programs
variable {σ : Type} [DecidableEq σ] (i : σ)

abbrev Drafting {α : Type} (Q : α → Phase Grows → Prop) (p : Api α) (ph : Phase Grows) : Prop :=
  Drafts backend ordered due i Q p ph

variable {i} {ph : Phase Grows}

theorem drafting_bind {α β : Type} {Q : β → Phase Grows → Prop} {p : Api α} {f : α → Api β}
    (h : Drafting i (fun a ph' => Drafting i Q (f a) ph') p ph) : Drafting i Q (p.bind f) ph :=
  drafts_bind (due_growth σ) Q p f h

theorem drafting_select {β : Type} (Q : Except DbError β → Phase Grows → Prop) (name : Stmt)
    (rows : Db → Except DbError β) (hq : ∀ r, Q r .closed) :
    Drafting i Q (query name .pool (Queries.select rows)) .closed := by
  refine drafts_pool name _ Q hq fun x t b ws h => Or.inl ?_
  exact read_ok _ b ws h

theorem drafting_select_tx {β : Type} (Q : Except DbError β → Phase Grows → Prop) (name : Stmt)
    (d : ℕ) (rows : Db → Except DbError β) (S : Shape Grows) (he : ∀ e, Q (.error e) .aborted)
    (hok : ∀ b, Q (.ok b) (.opened S)) :
    Drafting i Q (query name (.tx d) (Queries.select rows)) (.opened S) := by
  refine drafts_stmt name d _ Q S (fun _ => S) he hok fun t db b ws ws' hS h => ?_
  rw [read_ok _ b ws' h, List.append_nil]
  exact hS

theorem drafting_respond (Q : Unit → Phase Grows → Prop) (status : ℕ) (body : Body)
    (hq : Q () ph) : Drafting i Q (respond status body) ph :=
  drafts_emit _ Q hq

theorem drafting_validate (Q : Bool → Phase Grows → Prop) (r : Except String Unit)
    (hq : ∀ b, Q b ph) : Drafting i Q (validate r) ph := by
  cases r with
  | error e => exact drafting_bind (drafting_respond _ _ _ (drafts_ret _ (hq false)))
  | ok => exact drafts_ret _ (hq true)

section Transactions
variable {α : Type} (Q : Except DbError α → Phase Grows → Prop)

abbrev Finishing (i : σ) (d : ℕ) (r : Except DbError α) (ph : Phase Grows) : Prop :=
  Drafting i Q (finish (.tx d) r) ph

theorem finishing_error (e : DbError) (hq : Q (.error e) .closed) :
    Finishing Q i 1 (.error e) ph :=
  drafting_bind (drafts_rollback 1 _ (drafts_ret _ hq))

theorem finishing_aborted (a : α) (hq : Q (.error .refused) .closed) :
    Finishing Q i 1 (.ok a) .aborted :=
  drafting_bind (drafts_aborted _ (drafts_ret _ hq))

/-- A draft is committed if the commits are in order. -/
theorem finishing_commit (a : α) (S : Shape Grows) (hq : ∀ r, Q r .closed)
    (hS : ∀ x : Conf σ, S.holds (x.ses i).start x.srv.db (x.ses i).pending → InOrder x i →
      due x i (x.ses i).pending) : Finishing Q i 1 (.ok a) (.opened S) := by
  refine drafting_bind (drafts_commit _ S (fun ok => ?_) fun x hx hlive hadm => ?_)
  · cases ok <;> exact drafts_ret _ (hq _)
  · exact hS x hx (hadm.2 rfl rfl hlive)

theorem drafting_runTx (f : Handle → Api (Except DbError α)) (S : Shape Grows)
    (hS : ∀ start db, S.holds start db []) (hq : Q (.error .refused) .closed)
    (hf : Drafting i (Finishing Q i 1) (f (.tx 1)) (.opened S)) :
    Drafting i Q (runTx .pool f) .closed := by
  refine drafting_bind (drafts_begin _ S (drafts_ret _ hq) ?_ hS)
  exact drafting_bind hf

/-- The statements that store a revision, in a transaction of their own. -/
theorem drafting_createDeploymentRevision (dr : Queries.NewRevision) (hnow : dr.createdAt = none)
    (Q : Except DbError DeploymentRevision → Phase Grows → Prop)
    (ha : ∀ e, Q (.error e) .aborted) (hu : ∀ e, Q (.error e) .undone)
    (hok : ∀ res, Q (.ok res) (.opened (released res.projectID res.id))) :
    Drafting i Q (createDeploymentRevision (.tx 1) dr) (.opened (opening dr.projectID)) := by
  have herror : ∀ e, Finishing Q i 2 (.error e) .aborted :=
    fun e => drafting_bind (drafts_rollback 2 _ (drafts_ret _ (hu e)))
  have hdone : ∀ res, Finishing Q i 2 (.ok res) (.opened (released res.projectID res.id)) :=
    fun res => drafting_bind (drafts_release 2 (by decide) _ _ (drafts_ret _ (ha _))
      (drafts_ret _ (hok res)))
  refine drafting_bind (drafts_savepoint 1 _ (opening dr.projectID) (drafts_ret _ (ha _)) ?_)
  refine drafting_bind (drafting_bind
    (drafts_stmt _ 1 _ _ _ (fun res => stored res.projectID res.id) ?_ ?_ ?_))
  · intro e
    exact drafts_ret _ (herror e)
  · intro res
    refine drafting_bind (drafts_stmt _ 1 _ _ _ (fun _ => released res.projectID res.id) ?_ ?_ ?_)
    · intro e
      exact drafts_ret _ (herror e)
    · intro b
      exact drafts_ret _ (hdone res)
    · intro t db b ws ws' hS h
      exact updateLatest_released res.projectID res.id t db b ws ws' hS h
  · intro t db res ws ws' hS h
    exact insertDeploymentRevision_stored dr hnow t db res ws ws' hS h

theorem drafting_addDeploymentRevisionEvent (p d : UUID) (type : DeploymentRevisionEventType)
    (timestamp : Option Time) (Q : Except DbError Unit → Phase Grows → Prop)
    (ha : ∀ e, Q (.error e) .aborted) (hok : Q (.ok ()) (.opened (released p d))) :
    Drafting i Q (addDeploymentRevisionEvent (.tx 1) d type timestamp)
      (.opened (released p d)) := by
  refine drafting_bind (drafts_stmt _ 1 _ _ _ (fun _ => released p d) ?_ ?_ ?_)
  · intro e
    exact drafts_ret _ (ha e)
  · intro e
    refine drafts_stmt _ 1 _ _ _ (fun _ => released p d) ha (fun _ => hok) ?_
    rintro t db b ws ws' ⟨r, hr, hs⟩ h
    exact ⟨r, updateEvent_released p d r e t db b ws ws' hr h, hs⟩
  · rintro t db e ws ws' ⟨r, hr, hs⟩ h
    exact ⟨r, releases_elsewhere hr ws' (insertEvent_elsewhere d type timestamp t _ e ws' h), hs⟩

theorem drafting_applyGateway (env : Env) (org : Organization)
    (Q : Except DbError Unit → Phase Grows → Prop) (hq : ∀ r, Q r .closed) :
    Drafting i Q (applyGateway env .pool org) .closed := by
  refine drafting_bind (drafting_select _ _ _ fun r => ?_)
  cases r with
  | error e => exact drafts_ret _ (hq _)
  | ok pss =>
    refine drafting_bind (drafts_call _ _ fun ok => ?_)
    cases ok <;> exact drafts_ret _ (hq _)

theorem drafting_applyGateway_tx (env : Env) (org : Organization) (S : Shape Grows)
    (Q : Except DbError Unit → Phase Grows → Prop) (ha : ∀ e, Q (.error e) .aborted)
    (hq : ∀ r, Q r (.opened S)) :
    Drafting i Q (applyGateway env (.tx 1) org) (.opened S) := by
  refine drafting_bind (drafting_select_tx _ _ 1 _ S ?_ fun pss => ?_)
  · intro e
    exact drafts_ret _ (ha e)
  · refine drafting_bind (drafts_call _ _ fun ok => ?_)
    cases ok <;> exact drafts_ret _ (hq _)

end Transactions

/-! ## Requests -/

section Requests
variable (env : Env) (user : UserAccount)

/-- The answer to a request is the last thing it does. -/
abbrev Answered (_ : Unit) (_ : Phase Grows) : Prop := True

theorem drafting_answer (status : ℕ) (body : Body) :
    Drafting i Answered (respond status body) ph :=
  drafting_respond _ _ _ trivial

theorem released_commits {α : Type} (p d : UUID) (a : α)
    (Q : Except DbError α → Phase Grows → Prop) (hq : ∀ r, Q r .closed) :
    Finishing Q i 1 (.ok a) (.opened (released p d)) := by
  refine finishing_commit Q a _ hq fun x hx horder => Or.inr (Or.inr ?_)
  obtain ⟨r, hr, hs⟩ := hx
  have hold := horder d r hr.stored
  rw [hr.project, ← hs] at hold
  exact ⟨p, d, r, hr, hold⟩

theorem opening_commits {α : Type} (p : UUID) (a : α)
    (Q : Except DbError α → Phase Grows → Prop) (hq : ∀ r, Q r .closed) :
    Finishing Q i 1 (.ok a) (.opened (opening p)) :=
  finishing_commit Q a _ hq fun _ hx _ => Or.inr (Or.inl ⟨p, hx⟩)

theorem drafting_saveSettings (req : SettingsRequest) (p : UUID)
    (Q : Except DbError Unit → Phase Grows → Prop) (hq : ∀ r, Q r .closed) :
    Drafting i (Finishing Q i 1) (saveSettings env user req p (.tx 1)) (.opened (opening p)) := by
  have herror : ∀ e ph, Finishing Q i 1 (.error e) ph :=
    fun e ph => finishing_error Q e (hq _)
  have hreport : ∀ p d org status body, Drafting i (Finishing Q i 1)
      (show Api (Except DbError Unit) from do
        let _ ← applyGateway env (.tx 1) org
        respond status body
        return .ok ()) (.opened (released p d)) := by
    intro p d org status body
    refine drafting_bind (drafting_applyGateway_tx env org _ _ ?_ ?_)
    · intro e
      exact drafting_bind (drafting_respond _ _ _ (drafts_ret _ (finishing_aborted Q _ (hq _))))
    · intro r
      exact drafting_bind (drafting_respond _ _ _ (drafts_ret _ (released_commits p d _ Q hq)))
  refine drafting_bind (drafting_select_tx _ _ 1 _ (opening p) ?_ fun ps => ?_)
  · intro e
    exact drafts_ret _ (herror e _)
  · change Drafting i _ (if _ then _ else _) _
    split
    · exact drafting_bind (drafting_respond _ _ _ (drafts_ret _ (opening_commits p _ Q hq)))
    · refine drafting_bind (drafting_createDeploymentRevision
        (mergeSettings user req p ps.latestDeploymentRevision) rfl _ ?_ ?_ ?_)
      · intro e
        exact drafts_ret _ (herror e _)
      · intro e
        exact drafts_ret _ (herror e _)
      · intro res
        refine drafting_bind ?_
        split
        · refine drafting_addDeploymentRevisionEvent res.projectID res.id _ _ _ ?_ ?_
          · intro e
            exact drafts_ret _ (herror e _)
          · exact hreport res.projectID res.id _ _ _
        · exact drafts_ret _ (hreport res.projectID res.id _ _ _)

theorem drafting_withProject (projectID : Param UUID) (f : UUID → Api Unit)
    (h : ∀ id, Drafting i Answered (f id) .closed) :
    Drafting i Answered (withProject user projectID f) .closed := by
  have hnext : ∀ id, Drafting i Answered (if id = 0 then pure () else f id) .closed := by
    intro id
    split
    · exact drafts_ret _ trivial
    · exact h id
  refine drafting_bind ?_
  cases projectID with
  | absent => exact drafts_ret _ (hnext 0)
  | invalid => exact drafting_bind (drafting_respond _ _ _ (drafts_ret _ (hnext 0)))
  | value id =>
    refine drafting_bind (drafting_select _ _ _ fun r => ?_)
    cases r with
    | error e => exact drafting_bind (drafting_respond _ _ _ (drafts_ret _ (hnext 0)))
    | ok b =>
      cases b with
      | false => exact drafting_bind (drafting_respond _ _ _ (drafts_ret _ (hnext 0)))
      | true => exact drafts_ret _ (hnext id)

theorem drafting_putProjectSettings (projectID : Param UUID) (body : Option SettingsRequest) :
    Drafting i Answered (putProjectSettings env user projectID body) .closed := by
  cases body with
  | none => exact drafting_answer _ _
  | some req =>
    refine drafting_bind (drafting_validate _ _ fun valid => ?_)
    cases valid with
    | false => exact drafts_ret _ trivial
    | true =>
      refine drafting_withProject user projectID _ fun p => ?_
      let Q : Except DbError Unit → Phase Grows → Prop := fun _ ph => ph = .closed
      refine drafting_bind (drafts_mono _ (fun r ph (hph : Q r ph) => ?_) _
        (drafting_runTx Q _ (opening p) (fun _ _ => Or.inl rfl) rfl
          (drafting_saveSettings env user req p Q fun _ => rfl)))
      subst hph
      cases r with
      | error e => exact drafting_answer _ _
      | ok => exact drafts_ret _ trivial

/-- The transaction that creates a project, with its first revision if it has one. -/
theorem drafting_creation (req : ProjectRequest) (Q : Except DbError Project → Phase Grows → Prop)
    (hq : ∀ r, Q r .closed) : Drafting i (Finishing Q i 1)
      (show Api (Except DbError Project) from do
        match ← createProject (.tx 1) req.organizationID user.id req.name with
        | .error e => return .error e
        | .ok project =>
          match req.proxyURL with
          | none => return .ok project
          | some proxyURL =>
            match ← createDeploymentRevision (.tx 1)
                (firstRevision user req project.id proxyURL) with
            | .error e => return .error e
            | .ok _ => return .ok project) (.opened empty) := by
  have herror : ∀ e ph, Finishing Q i 1 (.error e) ph :=
    fun e ph => finishing_error Q e (hq _)
  refine drafting_bind (drafts_stmt _ 1 _ _ _ (fun project => opening project.id) ?_ ?_ ?_)
  · intro e
    exact drafts_ret _ (herror e _)
  · intro project
    dsimp only
    split
    · exact drafts_ret _ (opening_commits project.id _ Q hq)
    · next u hu =>
      refine drafting_bind (drafting_createDeploymentRevision
        (firstRevision user req project.id u) rfl _ ?_ ?_ ?_)
      · intro e
        exact drafts_ret _ (herror e _)
      · intro e
        exact drafts_ret _ (herror e _)
      · intro res
        exact drafts_ret _ (released_commits res.projectID res.id _ Q hq)
  · rintro t db project ws ws' rfl h
    exact createProject_opening _ _ _ t db project ws' h

theorem drafting_postProject (body : Option ProjectRequest) :
    Drafting i Answered (postProjectHandler env user body) .closed := by
  cases body with
  | none => exact drafting_answer _ _
  | some req =>
    refine drafting_bind (drafting_validate _ _ fun valid => ?_)
    cases valid with
    | false => exact drafts_ret _ trivial
    | true =>
      refine drafting_bind (drafting_select _ _ _ fun r => ?_)
      rcases r with e | ⟨member, org⟩
      · exact drafting_answer _ _
      · cases member with
        | false => exact drafting_answer _ _
        | true =>
          let Q : Except DbError Project → Phase Grows → Prop := fun _ ph => ph = .closed
          refine drafting_bind (drafts_mono _ (fun r ph (hph : Q r ph) => ?_) _
            (drafting_runTx Q _ empty (fun _ _ => rfl) rfl
              (drafting_creation user req Q fun _ => rfl)))
          subst hph
          cases r with
          | error e => exact drafting_answer _ _
          | ok project =>
            dsimp only
            split
            · refine drafting_bind (drafting_applyGateway env org _ fun r => ?_)
              exact drafting_answer _ _
            · exact drafting_answer _ _

/-- Requests that create a project or change the settings of one. -/
inductive StoresRevisions : Route → Prop
  | postProject (body : Option ProjectRequest) : StoresRevisions (.postProject body)
  | putProjectSettings (projectID : Param UUID) (body : Option SettingsRequest) :
    StoresRevisions (.putProjectSettings projectID body)

theorem drafting_serve (rt : Analytics.Runtime) (email : Option String) (route : Route)
    (h : StoresRevisions route) : Drafting i Answered (serve rt env email route) .closed := by
  cases email with
  | none => exact drafting_answer _ _
  | some email =>
    have huser : Drafting i (fun _ ph => ph = .closed)
        (query .getUserByEmailOrCreate .pool (Queries.getUserByEmailOrCreate env email)) .closed :=
      drafts_pool _ _ _ (fun _ => rfl) fun x t u ws hf =>
        Or.inr (Or.inl (getUser_elsewhere env email t x.srv.db u ws hf))
    refine drafting_bind (drafting_bind (drafts_mono _ (fun r ph hph => ?_) _ huser))
    subst hph
    refine drafts_ret _ ?_
    cases r with
    | error e => cases e <;> exact drafting_answer _ _
    | ok user =>
      cases h with
      | postProject body => exact drafting_postProject env user body
      | putProjectSettings projectID body =>
        exact drafting_putProjectSettings env user projectID body

end Requests

/-- Programs that write other tables. -/
theorem drafting_built (env : Env) (p : Api Unit)
    (h : Built env (fun t => t ≠ .project ∧ t ≠ .deploymentRevision) (fun _ => True) p) :
    Drafting i Answered p .closed :=
  drafts_footprint (fun w => w.table ≠ .project ∧ w.table ≠ .deploymentRevision)
    (fun _ _ hw => Or.inl hw) p (Requests.built_footprint _ env p h)

/-- Requests that delete no project. -/
theorem drafting_request (rt : Analytics.Runtime) (env : Env) (email : Option String)
    (route : Route) (hkeep : ∀ projectID, route ≠ .deleteProject projectID) :
    Drafting i Answered (serve rt env email route) .closed := by
  have hother : (∀ t ∈ ApiRuns.tablesOf route, t ≠ .project ∧ t ≠ .deploymentRevision) →
      Drafting i Answered (serve rt env email route) .closed := fun h =>
    drafting_built env _ (ApiRuns.serve_built rt env _ (by decide) email route h)
  cases route with
  | postProject body => exact drafting_serve env rt email _ (.postProject body)
  | putProjectSettings projectID body =>
    exact drafting_serve env rt email _ (.putProjectSettings projectID body)
  | deleteProject projectID => exact absurd rfl (hkeep projectID)
  | _ => exact hother (by simp [ApiRuns.tablesOf])

end Programs

/-! ## Runs -/

section Runs
variable {σ : Type} [DecidableEq σ]

theorem ordered_run (w w' : ApiWorld σ) (h : Run backend ordered w w') :
    Run backend postgres w w' := by
  induction h with
  | refl => exact .refl
  | tail _ hs ih =>
    obtain ⟨i, fail, a, k, hp, hadm⟩ := hs
    exact ih.tail (.act i fail a k hp hadm.1)

/-- In every run of requests and webhook calls that delete no project and whose
commits are in order, summaries and lists agree in every state. -/
theorem numbers_agree (rt : Analytics.Runtime) (env : Env) (w₀ w : ApiWorld σ) (h₀ : Initial w₀)
    (hp : ∀ i, (∃ email route, (∀ projectID, route ≠ .deleteProject projectID) ∧
      w₀.prog i = serve rt env email route) ∨ ∃ id body, w₀.prog i = gatewayWebhook env id body)
    (h : Run backend ordered w₀ w) : NumbersAgree env w.cfg.srv.db := by
  have hnewest : Newest w₀.cfg.srv.db := by
    intro p v d r hv
    rw [h₀.db] at hv
    cases hv
  have hclients : ∀ i, (∃ email route, w₀.prog i = serve rt env email route) ∨
      ∃ id body, w₀.prog i = gatewayWebhook env id body :=
    fun i => (hp i).imp_left fun ⟨email, route, _, hi⟩ => ⟨email, route, hi⟩
  have hdrafts : ∀ i, Drafting i Answered (w₀.prog i) .closed := by
    intro i
    rcases hp i with ⟨email, route, hkeep, hi⟩ | ⟨id, body, hi⟩
    · rw [hi]
      exact drafting_request rt env email route hkeep
    · rw [hi]
      exact drafting_built env _ (ApiRuns.gatewayWebhook_built env _ (by decide) id body)
  have hend : Newest w.cfg.srv.db :=
    run_drafts backend ordered due (due_growth σ) (fun x => Newest x.srv.db) settles_newest w₀ w
      h₀.idle hdrafts h hnewest
  have hc := ApiRuns.api_consistent rt env w₀ w h₀ hclients (ordered_run w₀ w h)
  exact newest_agree env _ hc hend

end Runs

/-! ## Two requests on one project -/

def storedRevision : Image → Option DeploymentRevisionRow
  | ⟨.deploymentRevision, _, some r⟩ => some r
  | _ => none

section Check
variable {σ : Type}

theorem inOrder_iff (x : Conf σ) (i : σ) : InOrder x i ↔
    ∀ w ∈ (x.ses i).pending, ∀ r ∈ storedRevision w, ∀ r' ∈ x.srv.db.scan .deploymentRevision,
      r'.2.projectID = r.projectID → r'.2.createdAt < (x.ses i).start := by
  constructor
  · intro h w hw r hr r' hr'
    obtain ⟨t, k, v⟩ := w
    cases t
    case deploymentRevision =>
      cases v with
      | none => cases hr
      | some r₀ =>
        cases hr
        exact h k _ hw r'.1 r'.2 ((x.srv.db.mem_scan _ _ _).mp hr')
    all_goals cases hr
  · intro h d r hw d' r' hr'
    exact h _ hw r rfl (d', r') ((x.srv.db.mem_scan _ _ _).mpr hr')

instance (x : Conf σ) (i : σ) : Decidable (InOrder x i) :=
  decidable_of_iff _ (inOrder_iff x i).symm

instance [Fintype σ] [DecidableEq σ] (x : Conf σ) (i : σ) (fail : Bool) (β : Type)
    (a : Action Key Row Stmt DbError KubeCall Output β) : Decidable (ordered x i fail β a) :=
  inferInstanceAs (Decidable (_ ∧ _))

end Check

def demoRoute : Bool × Bool → Route
  | (false, false) => demoFounding
  | (false, true) => demoOpening
  | (true, authenticated) =>
    .putProjectSettings (.value 7) (some ⟨none, none, authenticated, true, none⟩)

def demoStart : ApiWorld (Bool × Bool) := start fun i => demoServe (demoRoute i)

/-- The second change is made after the first one, or while it is under way. -/
def demoSchedule (overlap : Bool) : List ((Bool × Bool) × Bool) :=
  demoCreation (false, false) (false, true)++
    List.replicate (if overlap then 3 else 12) ((true, false), false)++
      List.replicate 12 ((true, true), false)++
        List.replicate (if overlap then 9 else 0) ((true, false), false)

theorem demoRoute_keeps (i : Bool × Bool) (projectID : Param UUID) :
    demoRoute i ≠ .deleteProject projectID := by
  obtain ⟨settings, second⟩ := i
  cases settings
  · cases second <;> exact fun h => nomatch h
  · exact fun h => nomatch h

def orderedRun : Option (ApiWorld (Bool × Bool)) :=
  playedBy ordered (demoSchedule false) demoStart

theorem numbers_agree_demo : ∃ w, orderedRun = some w ∧ NumbersAgree Env.demo w.cfg.srv.db := by
  have hsome : orderedRun.isSome := by decide
  obtain ⟨w, hw⟩ := Option.isSome_iff_exists.mp hsome
  refine ⟨w, hw, numbers_agree Analytics.Runtime.stable Env.demo demoStart w
    (start_initial _)
    (fun i => Or.inl ⟨some "ada@acme.com", demoRoute i, demoRoute_keeps i, rfl⟩) ?_⟩
  exact playedBy_run ordered _ _ _ hw

/-- The list of the project has its latest revision with another number. -/
def differs (db : Db) (p : UUID) : Bool :=
  ((db.row .project p).bind (Queries.summary db p)).any (fun ps =>
    ps.latestDeploymentRevision.any (fun dr =>
      (Queries.revisionSummaries db (fun _ id => id = ps.id)).any (fun s =>
        decide (s.id = dr.id) && decide (s.buildNumber ≠ dr.buildNumber))))

theorem differs_disagree (env : Env) (db : Db) (p : UUID) (h : differs db p = true) :
    ¬ NumbersAgree env db := by
  intro hagree
  simp only [differs, Option.any_eq_true, List.any_eq_true, Bool.and_eq_true,
    decide_eq_true_eq] at h
  obtain ⟨ps, hps, dr, hdr, s, hs, hid, hnumber⟩ := h
  have hsummary : Queries.getProjectSummary p ⟨0, 0, 0⟩ db = .ok (ps, []) := by
    simp only [Queries.getProjectSummary, Queries.select, hps]
    rfl
  have hsame := (hagree ps dr (Or.inl ⟨p, _, _, hsummary⟩) hdr).1 ⟨0, 0, 0⟩ _ _ rfl
  exact hnumber (hsame.number s hs hid)

/-- The first change begins before the second one and commits after it: its revision
is the latest and the third one of the project, but the second one by creation. -/
theorem overlapping_settings_disagree : ∃ w, Initial demoStart ∧ Run backend postgres demoStart w ∧
    ¬ NumbersAgree Env.demo w.cfg.srv.db := by
  have h : (played (demoSchedule true) demoStart).any (fun w => differs w.cfg.srv.db 7) = true := by
    decide
  obtain ⟨w, hw, hdiffers⟩ := (Option.any_eq_true _ _).mp h
  exact ⟨w, start_initial _, played_run _ _ _ hw, differs_disagree Env.demo _ 7 hdiffers⟩

end Jetski.RevisionOrder
