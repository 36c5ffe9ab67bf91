import Jetski.Ownership
import Jetski.Relational.Constraints

/-!
# Reachable databases

Clients are programs built from the database functions. Their statements
interleave in any order, may fail at any step and wait for row locks, and a
commit that breaks a constraint is refused. Along every such run the pointers
of committed rows stay consistent.
-/

set_option autoImplicit false

namespace Jetski.Reachability

open Relational Schema Jetski.Types Database Ownership

def ownedTables : List Table :=
  [.project, .deploymentRevision, .deploymentRevisionEvent, .mcpServerLog, .contextProperty,
    .context]

/-- Programs that use the database only through its functions, on any handles
and with any arguments, write rows of the given tables and, besides applying
gateways, send the given calls. -/
inductive Built (env : Env) (T : Table → Prop) (K : KubeCall → Prop) : {α : Type} → Api α → Prop
  | ret {α : Type} (a : α) : Built env T K (.ret a)
  | bind {α β : Type} {p : Api α} {f : α → Api β} :
    Built env T K p → (∀ a, Built env T K (f a)) → Built env T K (p.bind f)
  | runTx {α : Type} (db : Handle) {f : Handle → Api (Except DbError α)} :
    (∀ tx, Built env T K (f tx)) → Built env T K (runTx db f)
  | call (c : KubeCall) (h : K c) : Built env T K (Action.call c).lift
  | applyGateway (db : Handle) (org : Organization) : Built env T K (applyGateway env db org)
  | emit (o : Output) : Built env T K (Action.emit o).lift
  | select {β : Type} (name : Stmt) (db : Handle) (rows : Db → Except DbError β) :
    Built env T K (query name db (Queries.select rows))
  | createOrganization (h : T .organization) (db : Handle) (name : String) :
    Built env T K (query .createOrganization db (Queries.createOrganization name))
  | updateOrganization (h : T .organization) (db : Handle) (org : Organization) :
    Built env T K (query .updateOrganization db (Queries.updateOrganization org))
  | addUserToOrganization (h : T .organizationUserAccount) (db : Handle) (userID orgID : UUID) :
    Built env T K (addUserToOrganization db userID orgID)
  | removeUserFromOrganization (h : T .organizationUserAccount) (db : Handle)
    (userID orgID : UUID) : Built env T K (removeUserFromOrganization db userID orgID)
  | getUserByEmailOrCreate (h : T .userAccount) (db : Handle) (email : String) :
    Built env T K (query .getUserByEmailOrCreate db (Queries.getUserByEmailOrCreate env email))
  | createProject (h : T .project) (db : Handle) (orgID createdBy : UUID) (name : String) :
    Built env T K (createProject db orgID createdBy name)
  | deleteProject (h : ∀ t ∈ ownedTables, T t) (db : Handle) (projectID : UUID) :
    Built env T K (query .deleteProject db (Queries.deleteProject projectID))
  | createDeploymentRevision (hr : T .deploymentRevision) (hp : T .project) (db : Handle)
    (dr : Queries.NewRevision) : Built env T K (createDeploymentRevision db dr)
  | createHostedDeploymentRevision (hr : T .deploymentRevision) (hp : T .project) (db : Handle)
    (now : Time) (projectID createdBy : UUID) (port : ℤ) (ociURL : String)
    (authenticated telemetry : Bool) (timestamp : Option Time) :
    Built env T K (createHostedDeploymentRevision db now projectID createdBy port ociURL
      authenticated telemetry timestamp)
  | addDeploymentRevisionEvent (he : T .deploymentRevisionEvent) (hp : T .project) (db : Handle)
    (revisionID : UUID) (type : DeploymentRevisionEventType) (timestamp : Option Time) :
    Built env T K (addDeploymentRevisionEvent db revisionID type timestamp)
  | createMCPServerLog (h : T .mcpServerLog) (db : Handle) (data : MCPServerLogRow5) :
    Built env T K (query .createMCPServerLog db (Logs.createMCPServerLog data))
  | insertContextProperty (h : T .contextProperty) (db : Handle) (v : ContextPropertyRow) :
    Built env T K (query .insertContextProperty db (Queries.insertContextProperty v))
  | insertContext (h : T .context) (db : Handle) (v : ContextRow) :
    Built env T K (query .insertContext db (Queries.insertContext v))

section Programs
variable {σ : Type} (i : σ)

theorem query_writes {β : Type} (x : Conf σ) (name : Stmt) (db : Handle) (f : Queries.Sql β)
    (h : Writes x f) : Allowed labelling x
      ((Action.stmt name db f : Action Key Row Stmt DbError KubeCall Output _).writes x.srv
        (x.ses i)) := by
  rw [Action.writes]
  split
  · next b ws hf =>
    refine h _ _ b ws ?_ (fun t k v => visible_occurs x i db t k v) hf
    cases db <;> rfl
  · exact allowed_nil labelling x

variable [DecidableEq σ] (permit : Admit Key Row Stmt DbError KubeCall Output Cluster σ)

/-- Trusted for every client among clients of the same kind, with a postcondition. -/
abbrev Keeping {α : Type} (Q : α → Conf σ → Prop) (p : Api α) (x : Conf σ) : Prop :=
  Trusted labelling backend permit i Q p x

/-- A statement whose result is a row under a fresh identifier makes its owner known. -/
theorem keeping_query {β : Type} (Q : Except DbError β → Conf σ → Prop) (x : Conf σ)
    (name : Stmt) (db : Handle) (f : Queries.Sql β) (hx : Labelled labelling x)
    (hw : ∀ y, Labelled labelling y → Keeps labelling x y → Writes y f)
    (hq : ∀ y fail z, Labelled labelling y → z = (y.exec backend i fail
      (Action.stmt name db f : Action Key Row Stmt DbError KubeCall Output _)).2 →
      Labelled labelling z → ∀ z', Keeps labelling z z' → Q (y.exec backend i fail
        (Action.stmt name db f : Action Key Row Stmt DbError KubeCall Output _)).1 z') :
    Keeping i permit Q (query name db f) x :=
  trusted_act labelling backend permit i Q _ _ x hx
    (fun y hy hk => query_writes i y name db f (hw y hy hk))
    (fun y fail hy _ hz _ => trusted_ret labelling backend permit i Q _ _ hz
      (fun z' hz' => hq y fail _ hy rfl hz z' hz'))

theorem keeping_statement {β : Type} (x : Conf σ) (name : Stmt) (db : Handle)
    (f : Queries.Sql β) (hx : Labelled labelling x)
    (hw : ∀ y, Labelled labelling y → Keeps labelling x y → Writes y f) :
    Keeping i permit (fun _ _ => True) (query name db f) x :=
  keeping_query i permit _ x name db f hx hw (fun _ _ _ _ _ _ _ _ => trivial)

/-- The identifier that an inserting statement returned is known afterwards. -/
theorem known_inserted {β : Type} (y : Conf σ) (fail : Bool) (name : Stmt) (db : Handle)
    (f : Queries.Sql β) (hy : Labelled labelling y) (b : β)
    (hb : (y.exec backend i fail
      (Action.stmt name db f : Action Key Row Stmt DbError KubeCall Output _)).1 = .ok b)
    (t : Table) (k : Key t) (v : Row t) (hk : born t k = y.srv.next)
    (hf : ∀ ws, f ((y.ses i).tick y.srv db) ((y.ses i).visible y.srv db) = .ok (b, ws) →
      ws = [⟨t, k, some v⟩]) :
    Known labelling (y.exec backend i fail
      (Action.stmt name db f : Action Key Row Stmt DbError KubeCall Output _)).2 t k
      (owner t v) := by
  obtain ⟨ws, hok⟩ := exec_stmt_ok backend i fail name db f y.srv (y.ses i) b hb
  cases hf ws hok
  refine ⟨?_, ⟨v, rfl⟩, fun v' hv' => ?_⟩
  · have := exec_stmt_next backend i fail name db f y.srv (y.ses i)
    simp only [Config.exec, this]
    exact hk.trans_lt (Nat.lt_succ_self _)
  · rcases exec_occurs backend y i fail _ t k v' hv' with ho | hw
    · have := (hy.known t k v' ho).1
      have hborn : labelling.born t k = y.srv.next := hk
      rw [hborn] at this
      exact absurd this (Nat.lt_irrefl _)
    · rw [Action.writes, hok] at hw
      cases List.mem_singleton.mp hw
      rfl

theorem keeping_ret {α : Type} (a : α) (x : Conf σ) (hx : Labelled labelling x) :
    Keeping i permit (fun _ _ => True) (.ret a) x :=
  trusted_ret labelling backend permit i _ a x hx (fun _ _ => trivial)

/-- Transaction control, calls and outputs write no rows. -/
theorem keeping_silent {α β : Type} (x : Conf σ)
    (a : Action Key Row Stmt DbError KubeCall Output β) (k : β → Api α)
    (ha : ∀ (srv : Srv σ) s, a.writes srv s = []) (hx : Labelled labelling x)
    (hk : ∀ b y, Labelled labelling y → Keeping i permit (fun _ _ => True) (k b) y) :
    Keeping i permit (fun _ _ => True) (.act a k) x :=
  trusted_act labelling backend permit i _ a k x hx
    (fun y _ _ => ha y.srv (y.ses i) ▸ allowed_nil labelling y)
    (fun _ _ _ _ hz _ => hk _ _ hz)

theorem keeping_runTx {α : Type} (db : Handle) (f : Handle → Api (Except DbError α))
    (hf : ∀ tx y, Labelled labelling y → Keeping i permit (fun _ _ => True) (f tx) y)
    (x : Conf σ) (hx : Labelled labelling x) :
    Keeping i permit (fun _ _ => True) (runTx db f) x := by
  refine keeping_silent i permit x (.begin db) _ (fun _ _ => rfl) hx fun r y hy => ?_
  cases r with
  | none => exact keeping_ret i permit _ y hy
  | some tx =>
    change Keeping i permit _ (Prog.bind (f tx) _) y
    refine trusted_bind labelling backend permit i _ _ _ _ y (hf tx y hy) fun r z hz _ => ?_
    cases r with
    | error e =>
      exact keeping_silent i permit z (.rollback tx) _ (fun _ _ => rfl) hz
        fun _ w hw => keeping_ret i permit _ w hw
    | ok a =>
      refine keeping_silent i permit z (.commit tx) _ (fun _ _ => rfl) hz fun ok w hw => ?_
      cases ok <;> exact keeping_ret i permit _ w hw

/-- A revision is inserted and its project pointed to it. -/
theorem keeping_revision (db : Handle) (dr : Queries.NewRevision)
    (projectID : DeploymentRevision → UUID)
    (hp : ∀ res : DeploymentRevision, res.projectID = dr.projectID →
      projectID res = dr.projectID) (x : Conf σ) (hx : Labelled labelling x) :
    Keeping i permit (fun _ _ => True) (show Api (Except DbError DeploymentRevision) from do
      match ← query .insertDeploymentRevision db (Queries.insertDeploymentRevision dr) with
      | .error e => return .error e
      | .ok res =>
        match ← query .updateLatestDeploymentRevision db
            (Queries.updateLatestDeploymentRevision res.id (projectID res)) with
        | .error e => return .error e
        | .ok () => return .ok res) x := by
  refine trusted_bind labelling backend permit i
    (fun r y => ∀ res, r = .ok res →
      Known labelling y .deploymentRevision res.id (projectID res)) _ _ _ x ?_ ?_
  · refine keeping_query i permit _ x _ db _ hx
      (fun y _ _ => writes_insertDeploymentRevision y dr) ?_
    rintro y fail z hy rfl hz z' hz' res hres
    apply hz'.2
    obtain ⟨ws, hok⟩ := exec_stmt_ok backend i fail _ db _ y.srv (y.ses i) res hres
    obtain ⟨hid, hproj, -⟩ := insertDeploymentRevision_ok dr _ _ res ws hok
    have hfresh : ((y.ses i).tick y.srv db).fresh = y.srv.next := by cases db <;> rfl
    rw [hp res hproj, ← hproj]
    refine known_inserted i y fail _ db _ hy res hres .deploymentRevision res.id
      res.toDeploymentRevisionRow (hid.trans hfresh) (fun ws' hok' => ?_)
    rw [hid]
    exact (insertDeploymentRevision_ok dr _ _ res ws' hok').2.2
  · intro r y hy hk
    cases r with
    | error e => exact keeping_ret i permit _ y hy
    | ok res =>
      refine trusted_bind labelling backend permit i _ _ _ _ y
        (keeping_statement i permit y _ db _ hy (fun z hz hkz =>
          writes_updateLatestDeploymentRevision z hz res.id _ (hkz.2 _ _ _ (hk res rfl))))
        fun r z hz _ => ?_
      cases r <;> exact keeping_ret i permit _ z hz

theorem keeping_event (db : Handle) (revisionID : UUID) (type : DeploymentRevisionEventType)
    (timestamp : Option Time) (x : Conf σ) (hx : Labelled labelling x) :
    Keeping i permit (fun _ _ => True)
      (addDeploymentRevisionEvent db revisionID type timestamp) x := by
  refine trusted_bind labelling backend permit i
    (fun r y => ∀ e, r = .ok e → Known labelling y .deploymentRevisionEvent e revisionID) _ _ _ x
    ?_ ?_
  · refine keeping_query i permit _ x _ db _ hx
      (fun y _ _ => writes_insertDeploymentRevisionEvent y revisionID type timestamp) ?_
    rintro y fail z hy rfl hz z' hz' e he
    apply hz'.2
    obtain ⟨ws, hok⟩ := exec_stmt_ok backend i fail _ db _ y.srv (y.ses i) e he
    obtain ⟨hid, v, hv, hw⟩ := insertDeploymentRevisionEvent_ok revisionID type
      timestamp _ _ e ws hok
    have hfresh : ((y.ses i).tick y.srv db).fresh = y.srv.next := by cases db <;> rfl
    have hk := known_inserted i y fail _ db _ hy e he .deploymentRevisionEvent e v
      (hid.trans hfresh) (fun ws' hok' => by
        rw [hok] at hok'
        cases hok'
        rw [hw, hid])
    rw [owner, hv] at hk
    exact hk
  · intro r y hy hk
    cases r with
    | error e => exact keeping_ret i permit _ y hy
    | ok e => exact keeping_statement i permit y _ db _ hy (fun z hz hkz =>
        writes_updateLatestDeploymentRevisionEvent z hz e revisionID (hkz.2 _ _ _ (hk e rfl)))

theorem keeping_applyGateway (env : Env) (db : Handle) (org : Organization) (x : Conf σ)
    (hx : Labelled labelling x) :
    Keeping i permit (fun _ _ => True) (applyGateway env db org) x := by
  refine trusted_bind labelling backend permit i _ _ _ _ x
    (keeping_statement i permit x _ db _ hx fun y _ _ => writes_select y _) fun r y hy _ => ?_
  cases r with
  | error e => exact keeping_ret i permit _ y hy
  | ok pss =>
    exact keeping_silent i permit y (.call _) _ (fun _ _ => rfl) hy fun ok z hz => by
      cases ok <;> exact keeping_ret i permit _ z hz

theorem built_keeping (env : Env) (T : Table → Prop) {α : Type} (p : Api α)
    (h : Built env T (fun _ => True) p) (x : Conf σ) (hx : Labelled labelling x) :
    Keeping i permit (fun _ _ => True) p x := by
  induction h generalizing x with
  | ret a => exact keeping_ret i permit a x hx
  | bind _ _ ihp ihf =>
    exact trusted_bind labelling backend permit i _ _ _ _ x (ihp x hx) fun a y hy _ => ihf a y hy
  | runTx db _ ih => exact keeping_runTx i permit db _ ih x hx
  | call c =>
    exact keeping_silent i permit x (.call c) _ (fun _ _ => rfl) hx
      fun _ y hy => keeping_ret i permit _ y hy
  | applyGateway db org => exact keeping_applyGateway i permit env db org x hx
  | emit o =>
    exact keeping_silent i permit x (.emit o) _ (fun _ _ => rfl) hx
      fun _ y hy => keeping_ret i permit _ y hy
  | select name db rows =>
    exact keeping_statement i permit x _ db _ hx fun y _ _ => writes_select y rows
  | createOrganization _ db name =>
    exact keeping_statement i permit x _ db _ hx fun y _ _ => writes_createOrganization y name
  | updateOrganization _ db org =>
    exact keeping_statement i permit x _ db _ hx fun y _ _ => writes_updateOrganization y org
  | addUserToOrganization _ db userID orgID =>
    exact keeping_statement i permit x _ db _ hx
      fun y hy _ => writes_addUserToOrganization y hy userID orgID
  | removeUserFromOrganization _ db userID orgID =>
    exact keeping_statement i permit x _ db _ hx
      fun y _ _ => writes_removeUserFromOrganization y userID orgID
  | getUserByEmailOrCreate _ db email =>
    exact keeping_statement i permit x _ db _ hx
      fun y _ _ => writes_getUserByEmailOrCreate y env email
  | createProject _ db orgID createdBy name =>
    exact keeping_statement i permit x _ db _ hx
      fun y _ _ => writes_createProject y orgID createdBy name
  | deleteProject _ db projectID =>
    exact keeping_statement i permit x _ db _ hx
      fun y hy _ => writes_deleteProject y hy projectID
  | createDeploymentRevision _ _ db dr =>
    exact keeping_runTx i permit db _ (fun _ y hy =>
      keeping_revision i permit db dr (fun res => res.projectID) (fun _ h => h) y hy) x hx
  | createHostedDeploymentRevision _ _ db now projectID createdBy port ociURL auth tel timestamp =>
    exact keeping_runTx i permit db _ (fun _ y hy =>
      keeping_revision i permit db _ (fun _ => projectID) (fun _ _ => rfl) y hy) x hx
  | addDeploymentRevisionEvent _ _ db revisionID type timestamp =>
    exact keeping_event i permit db revisionID type timestamp x hx
  | createMCPServerLog _ db data =>
    exact keeping_statement i permit x _ db _ hx fun y hy _ => writes_createMCPServerLog y hy data
  | insertContextProperty _ db v =>
    exact keeping_statement i permit x _ db _ hx fun y _ _ => writes_insert y _
      fun _ _ _ _ h => ⟨_, _, _, (insertRow_ok _ _ _ _ _ _ _ h).2, rfl, fun _ => trivial⟩
  | insertContext _ db v =>
    exact keeping_statement i permit x _ db _ hx fun y _ _ => writes_insert y _
      fun _ _ _ _ h => ⟨_, _, _, (insertRow_ok _ _ _ _ _ _ _ h).2, rfl, fun _ => trivial⟩

end Programs

/-! ## Reachable databases -/

section Runs
variable {σ : Type}

abbrev ApiWorld (σ : Type) := World Key Row Stmt DbError KubeCall Output Cluster σ

structure Initial (w : ApiWorld σ) : Prop where
  db : w.cfg.srv.db = Store.empty
  next : 0 < w.cfg.srv.next
  idle : ∀ i, (w.cfg.ses i).levels = []

theorem initial_empty (w : ApiWorld σ) (h : Initial w) (t : Table) (k : Key t) (v : Row t) :
    ¬ w.cfg.Occurs t k v := by
  rintro (hv | ⟨j, hv⟩)
  · rw [h.db] at hv
    cases hv
  · simp [Session.pending, h.idle j] at hv

theorem initial_labelled (w : ApiWorld σ) (h : Initial w) : Labelled labelling w.cfg :=
  ⟨h.next, fun t k v hv => absurd hv (initial_empty w h t k v),
    fun t k v hv => absurd hv (initial_empty w h t k v)⟩

variable [DecidableEq σ]

/-- The database server lets a step through if it meets no row lock and leaves
the committed rows sound. -/
def postgres : Admit Key Row Stmt DbError KubeCall Output Cluster σ :=
  fun x i fail _ a => x.Unlocked i a ∧ Sound schema (x.exec backend i fail a).2.srv.db

instance [Fintype σ] (x : Conf σ) (i : σ) (fail : Bool) (β : Type)
    (a : Action Key Row Stmt DbError KubeCall Output β) : Decidable (postgres x i fail β a) :=
  inferInstanceAs (Decidable (_ ∧ _))

def Reaches (env : Env) (w : ApiWorld σ) : Prop :=
  ∃ w₀, Initial w₀ ∧ (∀ i, Built env (fun _ => True) (fun _ => True) (w₀.prog i)) ∧
    Run backend postgres w₀ w

theorem run_sound (w w' : ApiWorld σ) (h : Run backend postgres w w')
    (hw : Sound schema w.cfg.srv.db) : Sound schema w'.cfg.srv.db := by
  induction h with
  | refl => exact hw
  | tail _ hs _ =>
    obtain ⟨i, fail, a, k, -, hadm⟩ := hs
    exact hadm.2

/-- Along every run all rows stay labelled and the committed rows stay sound. -/
theorem reaches_labelled (env : Env) (w : ApiWorld σ) (h : Reaches env w) :
    Labelled labelling w.cfg ∧ Sound schema w.cfg.srv.db := by
  obtain ⟨w₀, h₀, hb, hr⟩ := h
  have hl := initial_labelled w₀ h₀
  refine ⟨?_, run_sound w₀ w hr (h₀.db ▸ sound_empty schema)⟩
  exact (run_safe backend postgres _ _ (fun i y => Labelled labelling y ∧ True)
    (lawful_compatible labelling) (Labelled labelling) (fun _ x y hxy hx => (hxy hx).1) w₀ w hr
    (fun i => built_keeping i postgres env _ (w₀.prog i) (hb i) w₀.cfg hl) hl).2

end Runs

/-- The committed rows of some interleaving of any number of clients. -/
def Reachable (env : Env) (db : Db) : Prop :=
  ∃ (σ : Type) (_ : DecidableEq σ) (w : ApiWorld σ), Reaches env w ∧ w.cfg.srv.db = db

/-! ## Consistent pointers -/

/-- The latest revision of a project is one of its own. -/
def LatestRevisions (db : Db) : Prop :=
  ∀ p v d, db.row .project p = some v → v.latestDeploymentRevisionID = some d →
    ∃ r, db.row .deploymentRevision d = some r ∧ r.projectID = p

/-- The latest event of a project is one of a revision of its own. -/
def LatestEvents (db : Db) : Prop :=
  ∀ p v e, db.row .project p = some v → v.latestDeploymentRevisionEventID = some e →
    ∃ ev r, db.row .deploymentRevisionEvent e = some ev ∧
      db.row .deploymentRevision ev.deploymentRevisionID = some r ∧ r.projectID = p

/-- The project of a log is the one of its revision. -/
def LogProjects (db : Db) : Prop :=
  ∀ l v, db.row .mcpServerLog l = some v →
    ∃ r, db.row .deploymentRevision v.deploymentRevisionID = some r ∧ r.projectID = v.projectID

theorem latestRevisions_congr (db db' : Db)
    (hp : ∀ k, db'.row .project k = db.row .project k)
    (hr : ∀ k, db'.row .deploymentRevision k = db.row .deploymentRevision k)
    (h : LatestRevisions db) : LatestRevisions db' := by
  intro p v d hv hd
  rw [hr]
  exact h p v d ((hp p).symm.trans hv) hd

theorem latestEvents_congr (db db' : Db)
    (hp : ∀ k, db'.row .project k = db.row .project k)
    (hr : ∀ k, db'.row .deploymentRevision k = db.row .deploymentRevision k)
    (he : ∀ k, db'.row .deploymentRevisionEvent k = db.row .deploymentRevisionEvent k)
    (h : LatestEvents db) : LatestEvents db' := by
  intro p v e hv hev
  obtain ⟨ev, r, h₁, h₂, h₃⟩ := h p v e ((hp p).symm.trans hv) hev
  exact ⟨ev, r, (he e).trans h₁, (hr _).trans h₂, h₃⟩

theorem logProjects_congr (db db' : Db)
    (hl : ∀ k, db'.row .mcpServerLog k = db.row .mcpServerLog k)
    (hr : ∀ k, db'.row .deploymentRevision k = db.row .deploymentRevision k)
    (h : LogProjects db) : LogProjects db' := by
  intro l v hv
  rw [hr]
  exact h l v ((hl l).symm.trans hv)

structure Pointers (db : Db) : Prop where
  revisions : LatestRevisions db
  events : LatestEvents db
  logs : LogProjects db

structure Consistent (db : Db) : Prop extends Pointers db where
  sound : Sound schema db

theorem labelled_consistent {σ : Type} (x : Conf σ) (hx : Labelled labelling x)
    (hs : Sound schema x.srv.db) : Consistent x.srv.db := by
  have hrev : ∀ d p r, Known labelling x .deploymentRevision d p →
      x.srv.db.row .deploymentRevision d = some r → r.projectID = p :=
    fun d p r hk hr => hk.2.2 r (Or.inl hr)
  refine ⟨⟨fun p v d hv hd => ?_, fun p v e hv he => ?_, fun l v hv => ?_⟩, hs⟩
  · obtain ⟨r, hr⟩ := hs.parent projectLatestRevision (by simp [schema, foreignKeys]) p v d hv hd
    exact ⟨r, hr, hrev d p r ((hx.agrees .project p v (Or.inl hv)).1 d hd) hr⟩
  · obtain ⟨ev, hev⟩ := hs.parent projectLatestEvent (by simp [schema, foreignKeys]) p v e hv he
    obtain ⟨r, hr⟩ := hs.parent eventRevision (by simp [schema, foreignKeys]) e ev _ hev rfl
    obtain ⟨d, hed, hdp⟩ := (hx.agrees .project p v (Or.inl hv)).2 e he
    have hd : ev.deploymentRevisionID = d := hed.2.2 ev (Or.inl hev)
    exact ⟨ev, r, hev, hr, hrev d p r hdp (hd ▸ hr)⟩
  · obtain ⟨r, hr⟩ := hs.parent logRevision (by simp [schema, foreignKeys]) l v _ hv rfl
    exact ⟨r, hr, hrev _ _ r (hx.agrees .mcpServerLog l v (Or.inl hv)) hr⟩

theorem reachable_consistent (env : Env) (db : Db) (h : Reachable env db) : Consistent db := by
  obtain ⟨σ, hσ, w, hw, rfl⟩ := h
  obtain ⟨hl, hs⟩ := reaches_labelled env w hw
  exact labelled_consistent w.cfg hl hs

/-! ## Played runs -/

def start {σ : Type} (prog : σ → Api Unit) : ApiWorld σ where
  cfg := ⟨{ db := Store.empty, ext := fun _ => none }, fun _ => {}⟩
  prog := prog

theorem start_initial {σ : Type} (prog : σ → Api Unit) : Initial (start prog) :=
  ⟨rfl, Nat.one_pos, fun _ => rfl⟩

section Played
variable {σ : Type} [DecidableEq σ] (permit : Admit Key Row Stmt DbError KubeCall Output Cluster σ)
variable [∀ x i fail β (a : Action Key Row Stmt DbError KubeCall Output β),
  Decidable (permit x i fail β a)]

def playedBy (schedule : List (σ × Bool)) (w : ApiWorld σ) : Option (ApiWorld σ) :=
  play backend (fun x i fail β a => decide (permit x i fail β a)) schedule w

theorem playedBy_run (schedule : List (σ × Bool)) (w w' : ApiWorld σ)
    (h : playedBy permit schedule w = some w') : Run backend permit w w' :=
  play_run backend permit _ (fun _ _ _ _ _ h => of_decide_eq_true h) _ _ _ h

def played [Fintype σ] (schedule : List (σ × Bool)) (w : ApiWorld σ) : Option (ApiWorld σ) :=
  playedBy postgres schedule w

theorem played_run [Fintype σ] (schedule : List (σ × Bool)) (w w' : ApiWorld σ)
    (h : played schedule w = some w') : Run backend postgres w w' :=
  playedBy_run postgres schedule w w' h

end Played

def finished : Api Unit → Bool
  | .ret _ => true
  | .act _ _ => false

theorem finished_ret (p : Api Unit) (h : finished p = true) : p = .ret () := by
  cases p with
  | ret a => rfl
  | act a k => cases h

def demoClient : Api Unit :=
  (query .getUserByEmailOrCreate .pool
    (Queries.getUserByEmailOrCreate Env.demo "ada@acme.com")).bind
    fun _ => (query .createOrganization .pool (Queries.createOrganization "acme")).bind
    fun _ => (addUserToOrganization .pool 1 2).bind
    fun _ => (createProject .pool 2 1 "docs").bind
    fun _ => (createDeploymentRevision .pool
      ⟨4, 1, some "https://mcp.acme.dev/api", true, false, none, none, none⟩).bind
    fun _ => (addDeploymentRevisionEvent .pool 6 .ok none).bind
    fun _ => (query .createMCPServerLog .pool (Logs.createMCPServerLog
      ⟨some 1, some "s1", 0, 0, 6, none, none, none, none, some 200, none⟩)).bind
    fun _ => .ret ()

theorem demoClient_built : Built Env.demo (fun _ => True) (fun _ => True) demoClient :=
  .bind (.getUserByEmailOrCreate trivial _ _) fun _ => .bind (.createOrganization trivial _ _)
    fun _ => .bind (.addUserToOrganization trivial _ _ _)
    fun _ => .bind (.createProject trivial _ _ _ _)
    fun _ => .bind (.createDeploymentRevision trivial trivial _ _)
    fun _ => .bind (.addDeploymentRevisionEvent trivial trivial _ _ _ _)
    fun _ => .bind (.createMCPServerLog trivial _ _) fun _ => .ret ()

def demoRun : Option (ApiWorld Unit) :=
  played (List.replicate 11 ((), false)) (start fun _ => demoClient)

theorem demoRun_reaches : ∃ w, demoRun = some w ∧ Reaches Env.demo w := by
  have h : demoRun.isSome := by decide
  obtain ⟨w, hw⟩ := Option.isSome_iff_exists.mp h
  exact ⟨w, hw, _, start_initial _, fun _ => demoClient_built, played_run _ _ _ hw⟩

def demoRunBy {σ : Type} [Fintype σ] [DecidableEq σ] (i : σ) : Option (ApiWorld σ) :=
  played (List.replicate 11 (i, false)) (start fun _ => demoClient)

theorem demoRunBy_reaches {σ : Type} [Fintype σ] [DecidableEq σ] (i : σ) (w : ApiWorld σ)
    (h : demoRunBy i = some w) : Reaches Env.demo w :=
  ⟨_, start_initial _, fun _ => demoClient_built, played_run _ _ _ h⟩

theorem demoRun_reachable : ∃ w, demoRun = some w ∧ Reachable Env.demo w.cfg.srv.db := by
  obtain ⟨w, hw, hr⟩ := demoRun_reaches
  exact ⟨w, hw, Unit, inferInstance, w, hr, rfl⟩

end Jetski.Reachability
