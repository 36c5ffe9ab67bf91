import Jetski.Settings
import Jetski.Transactions

/-!
# Are revisions stored atomically?

The two functions that store a revision send both writes on the handle of their
caller, inside a transaction that they open themselves. In a transaction of the
caller this transaction is a savepoint around the writes. On the pool it is empty:
each write is committed at once, and an error that comes after the first one
leaves it there.
-/

set_option autoImplicit false

namespace Jetski.RevisionAtomicity

open Relational Schema Jetski.Types Database Transactions

def storing (dr : Queries.NewRevision) (projectOf : DeploymentRevision → UUID) :
    TxFunc DeploymentRevision :=
  .stmt .insertDeploymentRevision (Queries.insertDeploymentRevision dr) (fun r => match r with
    | .error e => .ret (.error e)
    | .ok res => .stmt .updateLatestDeploymentRevision
        (Queries.updateLatestDeploymentRevision res.id (projectOf res)) (fun r => match r with
          | .error e => .ret (.error e)
          | .ok () => .ret (.ok res)))

def hostedRevision (now : Time) (projectID createdBy : UUID) (port : ℤ) (ociURL : String)
    (authenticated telemetry : Bool) (timestamp : Option Time) : Queries.NewRevision where
  projectID := projectID
  createdBy := createdBy
  proxyURL := none
  authenticated := authenticated
  telemetry := telemetry
  port := some port
  ociURL := some ociURL
  createdAt := some (timestamp.getD now)

/-- The function does not run on the handle of its transaction. -/
theorem createDeploymentRevision_eq (db : Handle) (dr : Queries.NewRevision) :
    createDeploymentRevision db dr =
      runTx db (fun _ => (storing dr (fun res => res.projectID)).on db) := by
  refine congrArg (runTx db) (funext fun _ => congrArg (Prog.act _) (funext fun r => ?_))
  cases r with
  | error e => rfl
  | ok res =>
    refine congrArg (Prog.act _) (funext fun r => ?_)
    cases r <;> rfl

theorem createHostedDeploymentRevision_eq (db : Handle) (now : Time) (projectID createdBy : UUID)
    (port : ℤ) (ociURL : String) (authenticated telemetry : Bool) (timestamp : Option Time) :
    createHostedDeploymentRevision db now projectID createdBy port ociURL authenticated telemetry
        timestamp =
      runTx db (fun _ => (storing (hostedRevision now projectID createdBy port ociURL authenticated
        telemetry timestamp) (fun _ => projectID)).on db) := by
  refine congrArg (runTx db) (funext fun _ => congrArg (Prog.act _) (funext fun r => ?_))
  cases r with
  | error e => rfl
  | ok res =>
    refine congrArg (Prog.act _) (funext fun r => ?_)
    cases r <;> rfl

/-! ## What is stored -/

structure Stores (dr : Queries.NewRevision) (before after : Db) (res : DeploymentRevision) :
    Prop where
  fresh : before.row .deploymentRevision res.id = none
  row : ∃ createdAt, res.toDeploymentRevisionRow = Ownership.rowOf dr createdAt
  written : ∃ v, before.row .project dr.projectID = some v ∧ after = before.replay
    [⟨.deploymentRevision, res.id, some res.toDeploymentRevisionRow⟩,
      ⟨.project, dr.projectID, some { v with latestDeploymentRevisionID := some res.id }⟩]

theorem stores_changes {dr : Queries.NewRevision} {before after : Db} {res : DeploymentRevision}
    (h : Stores dr before after res) : after ≠ before := by
  intro hsame
  have hnone := h.fresh
  obtain ⟨v, -, hwritten⟩ := h.written
  rw [← hsame, hwritten] at hnone
  exact absurd hnone (by simp [Store.write, Store.set_table])

structure Insertable (db : Db) (dr : Queries.NewRevision) : Prop where
  fits : dr.fits = true
  user : ∃ u, db.row .userAccount dr.createdBy = some u
  project : ∃ v, db.row .project dr.projectID = some v

section Inserts
variable {dr : Queries.NewRevision} {t : Tick} {db : Db} {res : DeploymentRevision}
variable {ws : List Image} (h : Queries.insertDeploymentRevision dr t db = .ok (res, ws))
include h

theorem insert_fresh : db.row .deploymentRevision res.id = none := by
  simp only [Queries.insertDeploymentRevision] at h
  split at h
  · have hres := (Ownership.insertRow_ok _ _ _ _ _ _ _ h).1
    subst hres
    rw [Queries.insertRow] at h
    split at h
    · cases h
    · next hnone => exact hnone
  · cases h

theorem insert_row : ∃ createdAt, res.toDeploymentRevisionRow = Ownership.rowOf dr createdAt := by
  obtain ⟨-, -, hws⟩ := Ownership.insertDeploymentRevision_ok dr t db res ws h
  obtain ⟨-, hws'⟩ := Ownership.insertDeploymentRevision_row dr t db res ws h
  have himage := List.singleton_inj.mp (hws.symm.trans hws')
  simp only [Write.mk.injEq, heq_eq_eq, true_and, Option.some.injEq] at himage
  exact ⟨_, himage⟩

theorem insert_insertable : Insertable db dr := by
  have hfits := (Ownership.insertDeploymentRevision_row dr t db res ws h).1
  simp only [Queries.insertDeploymentRevision, hfits, if_true, Queries.insertRow] at h
  split at h
  · cases h
  · rw [Queries.putRow] at h
    split at h
    · cases h
    · next hput =>
      have hu := put_parent schema revisionCreatedBy (by simp [schema, foreignKeys]) db t.fresh _ _
        hput dr.createdBy rfl
      have hp := put_parent schema revisionProject (by simp [schema, foreignKeys]) db t.fresh _ _
        hput dr.projectID rfl
      refine ⟨hfits, hu.imp fun u hu => ?_, hp.imp fun v hv => ?_⟩
      · exact (db.set_table .deploymentRevision .userAccount _ _ _ (by decide)).symm.trans hu
      · exact (db.set_table .deploymentRevision .project _ _ _ (by decide)).symm.trans hv

/-- Both statements together. -/
theorem update_stores (t' : Tick) (ws' : List Image)
    (h' : Queries.updateLatestDeploymentRevision res.id dr.projectID t' (db.replay ws) =
      .ok ((), ws')) : Stores dr db ((db.replay ws).replay ws') res := by
  obtain ⟨hid, -, hws⟩ := Ownership.insertDeploymentRevision_ok dr t db res ws h
  obtain ⟨v, hv⟩ := (insert_insertable h).project
  have hv' : (db.replay ws).row .project dr.projectID = some v := by
    rw [hws]
    exact (db.set_table .deploymentRevision .project _ _ _ (by decide)).trans hv
  simp only [Queries.updateLatestDeploymentRevision, hv'] at h'
  have hupdate := (Ownership.putRow_ok _ _ _ _ _ _ _ h').2
  refine ⟨insert_fresh h, insert_row h, v, hv, ?_⟩
  rw [hupdate, hws, hid]
  rfl

theorem insert_changes : db.replay ws ≠ db := by
  obtain ⟨hid, -, hws⟩ := Ownership.insertDeploymentRevision_ok dr t db res ws h
  have hnone := insert_fresh h
  intro hsame
  rw [← hsame, hws, hid] at hnone
  exact absurd ((db.set_same .deploymentRevision t.fresh _).symm.trans hnone) (by simp)

end Inserts

/-! ## What the function does in a transaction -/

theorem does_ret {α : Type} {r r' : Except DbError α} {db : Db} {ws : List Image}
    (h : (TxFunc.ret r).Does db r' ws) : r' = r ∧ ws = [] := by
  cases h
  exact ⟨rfl, rfl⟩

theorem does_stmt {α β : Type} {name : Stmt} {f : Queries.Sql β} {k : Except DbError β → TxFunc α}
    {db : Db} {r : Except DbError α} {ws : List Image} (h : (TxFunc.stmt name f k).Does db r ws) :
    ∃ t b ws₁ ws₂, f t db = .ok (b, ws₁) ∧ (k (.ok b)).Does (db.replay ws₁) r ws₂ ∧
      ws = ws₁++ws₂ := by
  cases h with
  | stmt t b hf hk => exact ⟨t, b, _, _, hf, hk, rfl⟩

theorem storing_does {dr : Queries.NewRevision} {projectOf : DeploymentRevision → UUID}
    (hp : ∀ res : DeploymentRevision, res.projectID = dr.projectID → projectOf res = dr.projectID)
    {db : Db} {res : DeploymentRevision} {ws : List Image}
    (h : (storing dr projectOf).Does db (.ok res) ws) : Stores dr db (db.replay ws) res := by
  obtain ⟨t, res', ws₁, ws₂, hins, h₁, rfl⟩ := does_stmt h
  obtain ⟨t', u, ws₃, ws₄, hupd, h₂, rfl⟩ := does_stmt h₁
  obtain ⟨hres, rfl⟩ := does_ret h₂
  cases hres
  rw [hp res (Ownership.insertDeploymentRevision_ok dr t db res ws₁ hins).2.1] at hupd
  rw [List.append_nil, Store.replay_append]
  exact update_stores hins t' ws₃ hupd

/-! ## Atomicity -/

structure Clean (db : Db) (next : ℕ) : Prop where
  sound : Sound schema db
  revisions : ∀ d, next ≤ d → db.row .deploymentRevision d = none
  events : ∀ e, next ≤ e → db.row .deploymentRevisionEvent e = none

section Atomicity
variable {σ : Type}

theorem labelled_clean (x : Ownership.Conf σ) (hl : Labelled Ownership.labelling x)
    (hs : Sound schema x.srv.db) : Clean x.srv.db x.srv.next := by
  refine ⟨hs, fun d hd => ?_, fun e he => ?_⟩
  · exact labelled_fresh Ownership.labelling x hl .deploymentRevision d hd
  · exact labelled_fresh Ownership.labelling x hl .deploymentRevisionEvent e he

/-- The pool, outside of any transaction, or the innermost level of an open one. -/
def Usable (srv : Srv σ) (s : Ses) : Handle → Prop
  | .pool => s.levels = [] ∧ Clean srv.db srv.next
  | .tx d => s.levels.length = d ∧ s.levels ≠ []

/-- The revision is stored, or the rows are as they were: nothing was committed,
and what the open transaction has written is unchanged, unless it is aborted. -/
def Atomic (h : Handle) (dr : Queries.NewRevision) (srv : Srv σ) (s : Ses) :
    Except DbError DeploymentRevision → Srv σ → Ses → Prop
  | .ok res, srv', s' => Stores dr (s.visible srv h) (s'.visible srv' h) res ∧ s'.aborted = false
  | .error _, srv', s' => srv'.db = srv.db ∧ s.levels.tail <:+ s'.levels ∧
      (s'.aborted = false → s'.levels = s.levels)

/-- On the pool, the revision is inserted and a later step fails. -/
structure Torn (fails : StepName Stmt → Bool) (h : Handle) (db : Db) (dr : Queries.NewRevision) :
    Prop where
  pool : h = .pool
  begins : fails .begin = false
  inserts : fails (.stmt .insertDeploymentRevision) = false
  insertable : Insertable db dr
  later : fails (.stmt .updateLatestDeploymentRevision) = true ∨ fails .commit = true

variable (me : σ)

theorem storing_within (dr : Queries.NewRevision) (projectOf : DeploymentRevision → UUID) (d : ℕ)
    (srv : Srv σ) (s : Ses) (hl : s.levels ≠ []) : ((storing dr projectOf).on (.tx d)).Always
      backend me (Within (storing dr projectOf) srv s) srv s := by
  by_cases ha : s.aborted = true
  · refine always_mono backend me _ _ (fun r srv' s' h => ?_) _ _ _ (on_aborted me _ d srv s ha)
    obtain ⟨hdb, hlevels, hab⟩ := h
    refine ⟨hdb, hlevels ▸ List.tail_suffix _, fun hlive => ?_⟩
    rw [hab] at hlive
    cases hlive
  · have hlive : s.aborted = false := by simpa using ha
    refine within_stmt me _ _ _ d srv s hl hlive fun res srv₁ s₁ _ hl₁ ha₁ => ?_
    exact within_stmt me _ _ _ d srv₁ s₁ hl₁ ha₁ fun _ srv₂ s₂ _ hl₂ _ => within_ret _ srv₂ s₂ hl₂

/-- In a transaction the writes lie between the savepoint and its release. -/
theorem storing_tx (dr : Queries.NewRevision) (projectOf : DeploymentRevision → UUID)
    (hp : ∀ res : DeploymentRevision, res.projectID = dr.projectID → projectOf res = dr.projectID)
    (srv : Srv σ) (s : Ses) (hl : s.levels ≠ []) :
    (runTx (.tx s.levels.length) (fun _ => (storing dr projectOf).on (.tx s.levels.length))).Always
      backend me (Atomic (.tx s.levels.length) dr srv s) srv s := by
  have hin := storing_within me dr projectOf s.levels.length srv.tock
    { s with levels := []::s.levels } (by simp)
  refine always_mono backend me _ _ (fun r srv' s' h => ?_) _ _ _
    (nests_of_within me (storing dr projectOf) _ srv s hl hin)
  cases r with
  | error e => exact ⟨h.db, h.outer, h.undone e rfl⟩
  | ok res =>
    obtain ⟨hlive, ws, hdoes, hlevels⟩ := h.committed res rfl
    refine ⟨?_, hlive⟩
    change Stores dr (s.view srv.db) (s'.view srv'.db) res
    rw [view_same (s.push ws) s' srv.db srv'.db hlevels h.db, push_view s ws _ hl]
    exact storing_does hp hdoes

section Pool
variable (fails : StepName Stmt → Bool) (dr : Queries.NewRevision) (srv : Srv σ) (s : Ses)

theorem whole_iff (hl : s.levels = []) (e : DbError) (srv' : Srv σ) (s' : Ses)
    (hdb : srv'.db = srv.db) (hs : s'.levels = []) (ht : ¬ Torn fails .pool srv.db dr) :
    Atomic .pool dr srv s (.error e) srv' s' ↔ ¬ Torn fails .pool srv.db dr := by
  refine ⟨fun _ => ht, fun _ => ⟨hdb, ?_, fun _ => hs.trans hl.symm⟩⟩
  rw [hl]
  exact List.nil_suffix

theorem torn_iff (e : DbError) (srv' : Srv σ) (s' : Ses) (hdb : srv'.db ≠ srv.db)
    (ht : Torn fails .pool srv.db dr) :
    Atomic .pool dr srv s (.error e) srv' s' ↔ ¬ Torn fails .pool srv.db dr :=
  ⟨fun h => absurd h.1 hdb, fun h => absurd ht h⟩

/-- On the pool each write is committed before the next step. -/
theorem storing_pool (projectOf : DeploymentRevision → UUID)
    (hp : ∀ res : DeploymentRevision, res.projectID = dr.projectID → projectOf res = dr.projectID)
    (hl : s.levels = []) (hc : Clean srv.db srv.next) :
    (runTx .pool (fun _ => (storing dr projectOf).on .pool)).Wp backend me fails
      (fun r srv' s' => Atomic .pool dr srv s r srv' s' ↔ ¬ Torn fails .pool srv.db dr) srv s := by
  have hready : Insertable srv.db dr → Settings.Ready srv.db srv.next dr.projectID dr.createdBy :=
    fun hi => ⟨hc.sound, hc.revisions, hc.events, hi.user, hi.project⟩
  rw [runTx_eq]
  refine wp_begin backend me fails _ _ _ _ hl (fun hn => ?_) fun hbegin => ?_
  · exact whole_iff fails dr srv s hl _ srv.tock s rfl hl fun ht => by simp [ht.begins] at hn
  · refine wp_pool backend me fails _ _ _ _ _ _ (fun e hf => ?_) fun res ws hins hf => ?_
    · refine whole_iff fails dr srv s hl e _ _ rfl rfl fun ht => ?_
      rcases hf with hf | hf
      · simp [ht.inserts] at hf
      · obtain ⟨r, hacc⟩ := Settings.insertRevision_accepted dr (s.tick srv.tock .pool)
          (Nat.le_succ srv.next) (hready ht.insertable) ht.insertable.fits
        exact absurd (hacc.symm.trans hf) (by simp)
    · have hi := insert_insertable hf
      have hproj := hp res (Ownership.insertDeploymentRevision_ok dr _ _ res ws hf).2.1
      have hst := (Settings.insertRevision_stored dr _ (hready hi) res ws hf).2.2.2.2
      refine wp_pool backend me fails _ _ _ _ _ _ (fun e hf' => ?_) fun u ws' hupd hf' => ?_
      · refine torn_iff fails dr srv s e _ _ (insert_changes hf)
          ⟨rfl, hbegin, hins, hi, Or.inl ?_⟩
        rcases hf' with hf' | hf'
        · exact hf'
        · obtain ⟨ws', hacc⟩ := Settings.updateRevision_accepted hst _
          rw [hproj] at hf'
          exact absurd (hacc.symm.trans hf') (by simp)
      · rw [hproj] at hf'
        have hstores := update_stores hf _ ws' hf'
        refine wp_commit backend me fails _ _ _ _ (fun hn => ?_) fun hcommit _ => ?_
        · refine torn_iff fails dr srv s _ _ _ (stores_changes hstores)
            ⟨rfl, hbegin, hins, hi, Or.inr ?_⟩
          simpa using hn
        · refine ⟨fun _ ht => ?_, fun _ => ⟨hstores, rfl⟩⟩
          rcases ht.later with hlater | hlater
          · simp [hupd] at hlater
          · simp [hcommit] at hlater

end Pool

theorem storing_atomic_iff (fails : StepName Stmt → Bool) (h : Handle) (dr : Queries.NewRevision)
    (projectOf : DeploymentRevision → UUID)
    (hp : ∀ res : DeploymentRevision, res.projectID = dr.projectID → projectOf res = dr.projectID)
    (srv : Srv σ) (s : Ses) (hh : Usable srv s h) :
    (runTx h (fun _ => (storing dr projectOf).on h)).Wp backend me fails
      (fun r srv' s' => Atomic h dr srv s r srv' s' ↔ ¬ Torn fails h (s.visible srv h) dr)
      srv s := by
  cases h with
  | pool => exact storing_pool me fails dr srv s projectOf hp hh.1 hh.2
  | tx d =>
    obtain ⟨rfl, hl⟩ := hh
    refine always_run backend me _ fails _ srv s (always_mono backend me _ _
      (fun r srv' s' ha => ?_) _ _ _ (storing_tx me dr projectOf hp srv s hl))
    exact ⟨fun _ ht => absurd ht.pool (by simp), fun _ => ha⟩

/-- Storing a revision is all or nothing, except on the pool when a step after
the insertion fails. -/
theorem createRevision_atomic_iff (fails : StepName Stmt → Bool) (h : Handle) (srv : Srv σ)
    (s : Ses) (hh : Usable srv s h) :
    (∀ dr, (createDeploymentRevision h dr).Wp backend me fails (fun r srv' s' =>
      Atomic h dr srv s r srv' s' ↔ ¬ Torn fails h (s.visible srv h) dr) srv s) ∧
    (∀ now projectID createdBy port ociURL authenticated telemetry timestamp,
      (createHostedDeploymentRevision h now projectID createdBy port ociURL authenticated telemetry
        timestamp).Wp backend me fails (fun r srv' s' =>
          Atomic h (hostedRevision now projectID createdBy port ociURL authenticated telemetry
              timestamp) srv s r srv' s' ↔
            ¬ Torn fails h (s.visible srv h) (hostedRevision now projectID createdBy port ociURL
              authenticated telemetry timestamp)) srv s) := by
  constructor
  · intro dr
    rw [createDeploymentRevision_eq]
    exact storing_atomic_iff me fails h dr _ (fun _ hproj => hproj) srv s hh
  · intro now projectID createdBy port ociURL authenticated telemetry timestamp
    rw [createHostedDeploymentRevision_eq]
    exact storing_atomic_iff me fails h _ _ (fun _ _ => rfl) srv s hh

end Atomicity

/-! ## A revision without its project's pointer -/

def demoRevision : Queries.NewRevision :=
  ⟨4, 1, some "https://mcp.acme.dev/api", true, false, none, none, none⟩

/-- On the pool, with an update that fails. -/
theorem createRevision_atomic_iff_demo : ∃ w, Reachability.demoRun = some w ∧
    (createDeploymentRevision .pool demoRevision).Wp backend () (fun st => st = .stmt
      .updateLatestDeploymentRevision) (fun r srv' s' =>
        Atomic .pool demoRevision w.cfg.srv {} r srv' s' ↔
          ¬ Torn (fun st => st = .stmt .updateLatestDeploymentRevision) .pool w.cfg.srv.db
            demoRevision) w.cfg.srv {} := by
  obtain ⟨w, hw, hr⟩ := Reachability.demoRun_reaches
  obtain ⟨hl, hs⟩ := Reachability.reaches_labelled Env.demo w hr
  exact ⟨w, hw, (createRevision_atomic_iff () _ .pool w.cfg.srv {}
    ⟨rfl, labelled_clean w.cfg hl hs⟩).1 demoRevision⟩

/-- The inserted revision stays after the error of the update, and after that
of the commit with the pointer to it. -/
theorem torn_revision : ∃ w, Reachability.demoRun = some w ∧
    ¬ (createDeploymentRevision .pool demoRevision).Wp backend ()
      (fun st => st = .stmt .updateLatestDeploymentRevision)
      (Atomic .pool demoRevision w.cfg.srv {}) w.cfg.srv {} ∧
    ¬ (createDeploymentRevision .pool demoRevision).Wp backend () (fun st => st = .commit)
      (Atomic .pool demoRevision w.cfg.srv {}) w.cfg.srv {} := by
  obtain ⟨w, hw, hr⟩ := Reachability.demoRun_reaches
  have h : ∀ st ∈ [StepName.stmt Stmt.updateLatestDeploymentRevision, .commit],
      Reachability.demoRun.map (fun w =>
        let r := (createDeploymentRevision .pool demoRevision).run backend () (fun st' => st' = st)
          w.cfg.srv {}
        (r.1.isOk, (w.cfg.srv.db.scan .deploymentRevision).length,
          (r.2.1.db.scan .deploymentRevision).length)) = some (false, 1, 2) := by
    decide
  have htorn : ∀ st ∈ [StepName.stmt Stmt.updateLatestDeploymentRevision, .commit],
      ¬ (createDeploymentRevision .pool demoRevision).Wp backend () (fun st' => st' = st)
        (Atomic .pool demoRevision w.cfg.srv {}) w.cfg.srv {} := by
    intro st hst ha
    have hrun := h st hst
    rw [hw] at hrun
    obtain ⟨hok, hlengths⟩ := Prod.mk.inj (Option.some.inj hrun)
    obtain ⟨hbefore, hafter⟩ := Prod.mk.inj hlengths
    rw [Prog.Wp] at ha
    revert ha hok hafter
    generalize (createDeploymentRevision .pool demoRevision).run backend () (fun st' => st' = st)
      w.cfg.srv {} = r
    obtain ⟨r, srv', s'⟩ := r
    intro ha hok hafter
    cases r with
    | ok res => cases hok
    | error e =>
      have hdb : srv'.db = w.cfg.srv.db := ha.1
      rw [hdb, hbefore] at hafter
      cases hafter
  exact ⟨w, hw, htorn _ (by simp), htorn _ (by simp)⟩

end Jetski.RevisionAtomicity
