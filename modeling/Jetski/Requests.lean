import Jetski.ApiRuns
import Jetski.Relational.Alone

/-!
# Requests that run alone

A request that runs alone changes no table that its route does not write. For
the routes that do write, every database function gets a rule that carries a
predicate of the rows through it.
-/

set_option autoImplicit false

namespace Jetski.Requests

open Relational Schema Jetski.Types Database Handlers Reachability Routes ApiRuns

/-! ## Tables that a request leaves alone -/

section Footprint
variable (T : Table → Prop)

theorem putRow_table {β : Type} (db : Db) (t : Table) (k : Key t) (v : Row t) (b b' : β)
    (ws : List Image) (ht : T t) (h : Queries.putRow db t k v b = .ok (b', ws)) :
    ∀ w ∈ ws, T w.table := by
  intro w hw
  rw [(Ownership.putRow_ok db t k v b b' ws h).2] at hw
  cases List.mem_singleton.mp hw
  exact ht

theorem insertRow_table {β : Type} (db : Db) (t : Table) (k : Key t) (v : Row t) (b b' : β)
    (ws : List Image) (ht : T t) (h : Queries.insertRow db t k v b = .ok (b', ws)) :
    ∀ w ∈ ws, T w.table := by
  intro w hw
  rw [(Ownership.insertRow_ok db t k v b b' ws h).2] at hw
  cases List.mem_singleton.mp hw
  exact ht

theorem footprint_query {β : Type} (name : Stmt) (db : Handle) (f : Queries.Sql β)
    (P : Image → Prop) (h : ∀ t s b ws, f t s = .ok (b, ws) → ∀ w ∈ ws, P w) :
    (query name db f).Footprint P :=
  ⟨h, fun _ => trivial⟩

theorem footprint_runTx {α : Type} (db : Handle) (f : Handle → Api (Except DbError α))
    (P : Image → Prop) (hf : ∀ tx, (f tx).Footprint P) : (runTx db f).Footprint P := by
  refine ⟨trivial, fun r => ?_⟩
  cases r with
  | none => trivial
  | some tx =>
    change (Prog.bind (f tx) _).Footprint P
    refine footprint_bind P _ _ (hf tx) fun r => ?_
    cases r with
    | error e => exact ⟨trivial, fun _ => trivial⟩
    | ok a => exact ⟨trivial, fun ok => by cases ok <;> exact trivial⟩

theorem deleteProject_tables (projectID : UUID) (t : Tick) (db : Db) (n : ℕ) (ws : List Image)
    (hT : ∀ t ∈ ownedTables, T t) (h : Queries.deleteProject projectID t db = .ok (n, ws)) :
    ∀ w ∈ ws, T w.table := by
  rw [Queries.deleteProject] at h
  split at h
  · cases h
    simp
  · split at h
    · cases h
    · next hd =>
      cases h
      intro w hw
      refine hT _ (deleteRow_tables foreignKeys tables (fun t => t ∈ ownedTables) ?_ _ _ db ws
        (by simp [ownedTables]) hd w hw)
      decide

theorem updateRevision_table (revisionID projectID : UUID) (t : Tick) (db : Db) (b : Unit)
    (ws : List Image) (hp : T .project)
    (h : Queries.updateLatestDeploymentRevision revisionID projectID t db = .ok (b, ws)) :
    ∀ w ∈ ws, T w.table := by
  rw [Queries.updateLatestDeploymentRevision] at h
  split at h
  · cases h
    simp
  · exact putRow_table T _ _ _ _ _ _ _ hp h

theorem updateEvent_table (eventID revisionID : UUID) (t : Tick) (db : Db) (b : Unit)
    (ws : List Image) (hp : T .project)
    (h : Queries.updateLatestDeploymentRevisionEvent eventID revisionID t db = .ok (b, ws)) :
    ∀ w ∈ ws, T w.table := by
  rw [Queries.updateLatestDeploymentRevisionEvent] at h
  split at h
  · cases h
    simp
  · split at h
    · cases h
      simp
    · exact putRow_table T _ _ _ _ _ _ _ hp h

theorem insertRevision_table (dr : Queries.NewRevision) (t : Tick) (db : Db)
    (res : DeploymentRevision) (ws : List Image) (hr : T .deploymentRevision)
    (h : Queries.insertDeploymentRevision dr t db = .ok (res, ws)) : ∀ w ∈ ws, T w.table := by
  intro w hw
  rw [(Ownership.insertDeploymentRevision_ok dr t db res ws h).2.2] at hw
  cases List.mem_singleton.mp hw
  exact hr

theorem footprint_revision (db : Handle) (dr : Queries.NewRevision)
    (projectID : DeploymentRevision → UUID) (hr : T .deploymentRevision) (hp : T .project) :
    (show Api (Except DbError DeploymentRevision) from do
      match ← query .insertDeploymentRevision db (Queries.insertDeploymentRevision dr) with
      | .error e => return .error e
      | .ok res =>
        match ← query .updateLatestDeploymentRevision db
            (Queries.updateLatestDeploymentRevision res.id (projectID res)) with
        | .error e => return .error e
        | .ok () => return .ok res).Footprint (fun w => T w.table) := by
  refine footprint_bind _ _ _ (footprint_query _ _ _ _
    fun t s res ws hf => insertRevision_table T dr t s res ws hr hf) fun r => ?_
  cases r with
  | error e => trivial
  | ok res =>
    refine footprint_bind _ _ _ (footprint_query _ _ _ _
      fun t s b ws hf => updateRevision_table T _ _ t s b ws hp hf) fun r => ?_
    cases r <;> trivial

theorem footprint_applyGateway (env : Env) (db : Handle) (org : Organization) :
    (applyGateway env db org).Footprint (fun w => T w.table) := by
  refine footprint_bind _ _ _ (footprint_query _ _ _ _ fun t s pss ws hf => ?_) fun r => ?_
  · cases hf
    simp
  · cases r with
    | error e => trivial
    | ok pss => exact ⟨trivial, fun ok => by cases ok <;> trivial⟩

theorem built_footprint (env : Env) {α : Type}
    (p : Api α) (h : Built env T (fun _ => True) p) :
    p.Footprint (fun w => T w.table) := by
  induction h with
  | ret a => trivial
  | bind _ _ ihp ihf => exact footprint_bind _ _ _ ihp ihf
  | runTx db _ ih => exact footprint_runTx db _ _ ih
  | call c => exact ⟨trivial, fun _ => trivial⟩
  | applyGateway db org => exact footprint_applyGateway T env db org
  | emit o => exact ⟨trivial, fun _ => trivial⟩
  | select name db rows =>
    refine footprint_query _ _ _ _ fun t s b ws hf => ?_
    rw [Ownership.read_ok _ b ws hf]
    simp
  | createOrganization ho db name =>
    exact footprint_query _ _ _ _ fun _ _ _ _ hf => insertRow_table T _ _ _ _ _ _ _ ho hf
  | updateOrganization ho db org =>
    refine footprint_query _ _ _ _ fun t s b ws hf => ?_
    rw [Queries.updateOrganization] at hf
    split at hf
    · cases hf
    · exact putRow_table T _ _ _ _ _ _ _ ho hf
  | addUserToOrganization hm db userID orgID =>
    refine footprint_query _ _ _ _ fun t s b ws hf => ?_
    rw [Queries.addUserToOrganization] at hf
    split at hf
    · cases hf
      simp
    · exact putRow_table T _ _ _ _ _ _ _ hm hf
  | removeUserFromOrganization hm db userID orgID =>
    refine footprint_query _ _ _ _ fun t s b ws hf => ?_
    rw [Queries.removeUserFromOrganization] at hf
    split at hf <;> cases hf
    · simpa using hm
    · simp
  | getUserByEmailOrCreate hu db email =>
    refine footprint_query _ _ _ _ fun t s b ws hf => ?_
    rw [Queries.getUserByEmailOrCreate] at hf
    split at hf
    · split at hf
      · exact insertRow_table T _ _ _ _ _ _ _ hu hf
      · rw [Ownership.read_ok _ b ws hf]
        simp
    · cases hf
  | createProject hp db orgID createdBy name =>
    exact footprint_query _ _ _ _ fun _ _ _ _ hf => insertRow_table T _ _ _ _ _ _ _ hp hf
  | deleteProject ht db projectID =>
    exact footprint_query _ _ _ _ fun t s n ws hf => deleteProject_tables T projectID t s n ws ht hf
  | createDeploymentRevision hr hp db dr =>
    exact footprint_runTx db _ _ fun _ =>
      footprint_revision T db dr (fun res => res.projectID) hr hp
  | createHostedDeploymentRevision hr hp db now projectID =>
    exact footprint_runTx db _ _ fun _ => footprint_revision T db _ (fun _ => projectID) hr hp
  | addDeploymentRevisionEvent he hp db revisionID type timestamp =>
    refine footprint_bind _ _ _ (footprint_query _ _ _ _ fun t s b ws hf =>
      insertRow_table T _ _ _ _ _ _ _ he hf) fun r => ?_
    cases r with
    | error e => trivial
    | ok e => exact footprint_query _ _ _ _ fun t s b ws hf =>
        updateEvent_table T _ _ t s b ws hp hf
  | createMCPServerLog hl db data =>
    refine footprint_query _ _ _ _ fun t s b ws hf => ?_
    rw [Logs.createMCPServerLog] at hf
    split at hf
    · split at hf
      · cases hf
      · exact insertRow_table T _ _ _ _ _ _ _ hl hf
    · cases hf
  | insertContextProperty h db v =>
    exact footprint_query _ _ _ _ fun _ _ _ _ hf => insertRow_table T _ _ _ _ _ _ _ h hf
  | insertContext h db v =>
    exact footprint_query _ _ _ _ fun _ _ _ _ hf => insertRow_table T _ _ _ _ _ _ _ h hf

/-- A request changes no row of a table that it does not write. -/
theorem built_rows {σ : Type} (env : Env) {α : Type}
    (p : Api α) (h : Built env T (fun _ => True) p)
    (me : σ) (fails : StepName Stmt → Bool) (srv : Srv σ) (s : Ses) (hs : s.levels = [])
    (t : Table) (ht : ¬ T t) (k : Key t) :
    (p.run backend me fails srv s).2.1.db.row t k = srv.db.row t k := by
  obtain ⟨ws, he, hw⟩ := run_footprint backend me _ fails p (built_footprint T env p h) srv s
    (by simp [Session.pending, hs])
  rw [he]
  apply Store.replay_untouched
  intro w hm htouch
  have htab : w.table = t := congrArg Sigma.fst htouch
  exact ht (htab ▸ hw w hm)

end Footprint

/-! ## Rules -/

section Rules
variable (calls : KubeCall → Prop) (outs : Output → Prop) (o : Bool) (I : Db → Prop)

theorem meets_select {β : Type} (Q : Post Key Row (Except DbError β)) (name : Stmt) (h : Handle)
    (rows : Db → Except DbError β) (ho : h = .pool → o = false) (he : ∀ e, Q (.error e) o I)
    (hq : ∀ db b, I db → rows db = .ok b → Q (.ok b) o I) :
    (query name h (Queries.select rows)).Meets calls outs Q o I := by
  refine ⟨ho, he, I, fun _ h => h, fun t db b ws hI hf => ?_⟩
  rw [Queries.select] at hf
  cases hr : rows db with
  | error e =>
    rw [hr] at hf
    cases hf
  | ok b' =>
    rw [hr] at hf
    cases hf
    exact ⟨hI, hq db b hI hr⟩

/-- A statement whose errors are translated. -/
theorem meets_mapError {β : Type} (Q : Post Key Row (Except DbError β)) (name : Stmt) (h : Handle)
    (f : Queries.Sql β) (g : DbError → DbError) (I' : Db → Prop) (ho : h = .pool → o = false)
    (he : ∀ e, Q (.error e) o I) (hI : ∀ db, I db → I' db)
    (hs : ∀ t db b ws, I db → f t db = .ok (b, ws) → I' (db.replay ws) ∧ Q (.ok b) o I') :
    Prog.Meets calls outs (show Api (Except DbError β) from do
      let r ← query name h f
      return r.mapError g) Q o I :=
  ⟨ho, fun e => he (g e), I', hI, fun t db b ws hd hf => hs t db b ws hd hf⟩

theorem meets_runTx {α : Type} (Q : Post Key Row (Except DbError α))
    (f : Handle → Api (Except DbError α)) (hn : Q (.error .refused) false I)
    (hf : (f (.tx 1)).Meets calls outs (fun r _ I' => Q r false I' ∧
      (r.isOk → Q (.error .refused) false I')) true I) :
    (runTx .pool f).Meets calls outs Q false I := by
  refine ⟨hn, ?_⟩
  change (Prog.bind (f (.tx 1)) _).Meets calls outs Q true I
  refine meets_bind calls outs _ _ _ true I (meets_mono calls outs _ _
    (fun r o I' h => ?_) _ _ _ hf)
  cases r with
  | error e => exact h.1
  | ok a =>
    intro ok
    cases ok with
    | false => exact h.2 rfl
    | true => exact h.1

/-- A transaction inside a transaction is a savepoint. -/
theorem meets_savepoint {α : Type} (Q : Post Key Row (Except DbError α)) (d : ℕ)
    (f : Handle → Api (Except DbError α)) (hn : Q (.error .refused) o I)
    (hf : (f (.tx (d+2))).Meets calls outs (fun r o I' => Q r o I' ∧
      (r.isOk → Q (.error .refused) o I')) o I) :
    (runTx (.tx (d+1)) f).Meets calls outs Q o I := by
  refine ⟨hn, ?_⟩
  change (Prog.bind (f (.tx (d+2))) _).Meets calls outs Q o I
  refine meets_bind calls outs _ _ _ o I (meets_mono calls outs _ _ (fun r o I' h => ?_) _ _ _ hf)
  cases r with
  | error e => exact h.1
  | ok a =>
    intro ok
    cases ok with
    | false => exact h.2 rfl
    | true => exact h.1

theorem meets_validate (Q : Post Key Row Bool) (r : Except String Unit)
    (ht : ∀ status text, outs (.response status (.text text))) (hf : Q false o I)
    (hq : r = .ok () → Q true o I) : (validate r).Meets calls outs Q o I := by
  cases r with
  | error e => exact ⟨ht _ _, hf⟩
  | ok _ => exact hq rfl

theorem meets_applyGateway (Q : Post Key Row (Except DbError Unit)) (env : Env) (h : Handle)
    (org : Organization) (ho : h = .pool → o = false) (hd : calls (.delete org.name))
    (ha : ∀ spec, calls (.apply org.name spec)) (hq : ∀ r, Q r o I) :
    (applyGateway env h org).Meets calls outs Q o I := by
  refine meets_bind calls outs _ _ _ o I (meets_select calls outs o I _ _ _ _ ho
    (fun e => hq _) fun db pss _ _ => ⟨?_, fun ok => ?_⟩)
  · split
    · exact hd
    · exact ha _
  · cases ok <;> exact hq _

theorem meets_createDeploymentRevision (Q : Post Key Row (Except DbError DeploymentRevision))
    (d : ℕ) (dr : Queries.NewRevision) (I' : Db → Prop) (hI : ∀ db, I db → I' db)
    (A : DeploymentRevision → Prop)
    (hins : ∀ t db res ws, I db → Queries.insertDeploymentRevision dr t db = .ok (res, ws) →
      I' (db.replay ws) ∧ A res)
    (hupd : ∀ res, A res → ∀ t db ws, I' db →
      Queries.updateLatestDeploymentRevision res.id res.projectID t db = .ok ((), ws) →
      I' (db.replay ws))
    (he : ∀ e, Q (.error e) o I) (he' : ∀ e, Q (.error e) o I')
    (hq : ∀ res, A res → Q (.ok res) o I') :
    (createDeploymentRevision (.tx (d+1)) dr).Meets calls outs Q o I := by
  refine meets_savepoint calls outs o I Q d _ (he _) ?_
  refine ⟨nofun, fun e => ⟨he e, nofun⟩, I', hI, fun t db res ws hd hf => ?_⟩
  obtain ⟨hw, hres⟩ := hins t db res ws hd hf
  refine ⟨hw, nofun, fun e => ⟨he' e, nofun⟩, I', fun _ h => h, fun t db b ws hd hf => ?_⟩
  exact ⟨hupd res hres t db ws hd hf, hq res hres, fun _ => he' _⟩

theorem meets_addDeploymentRevisionEvent (Q : Post Key Row (Except DbError Unit)) (d : ℕ)
    (revisionID : UUID) (type : DeploymentRevisionEventType) (timestamp : Option Time)
    (A : UUID → Prop)
    (hins : ∀ t db e ws, I db →
      Queries.insertDeploymentRevisionEvent revisionID type timestamp t db = .ok (e, ws) →
      I (db.replay ws) ∧ A e)
    (hupd : ∀ e, A e → ∀ t db ws, I db →
      Queries.updateLatestDeploymentRevisionEvent e revisionID t db = .ok ((), ws) →
      I (db.replay ws)) (hq : ∀ r, Q r o I) :
    (addDeploymentRevisionEvent (.tx (d+1)) revisionID type timestamp).Meets calls outs Q o I := by
  refine ⟨nofun, fun e => hq _, I, fun _ h => h, fun t db e ws hd hf => ?_⟩
  obtain ⟨hw, he⟩ := hins t db e ws hd hf
  exact ⟨hw, nofun, fun _ => hq _, I, fun _ h => h,
    fun t db b ws hd hf => ⟨hupd e he t db ws hd hf, hq _⟩⟩

/-- The user is a member of the organization of an existing project. -/
def Accessible (db : Db) (userID projectID : UUID) : Prop :=
  ∃ p, db.row .project projectID = some p ∧ Queries.isMember db userID p.organizationID = true

variable (user : UserAccount)

theorem meets_withProject (Q : Post Key Row Unit) (projectID : Param UUID) (f : UUID → Api Unit)
    (ht : ∀ status text, outs (.response status (.text text))) (hq : Q () false I)
    (hf : ∀ id, projectID = .value id → id ≠ 0 → (∃ db, I db ∧ Accessible db user.id id) →
      (f id).Meets calls outs Q false I) :
    (withProject user projectID f).Meets calls outs Q false I := by
  refine meets_bind calls outs _ _ _ false I ?_
  cases projectID with
  | absent => exact hq
  | invalid => exact ⟨ht _ _, hq⟩
  | value id =>
    refine meets_bind calls outs _ _ _ false I (meets_select calls outs false I _ _ _ _
      (fun _ => rfl) (fun e => ⟨ht _ _, hq⟩) fun db b hI hr => ?_)
    cases b with
    | false => exact ⟨ht _ _, hq⟩
    | true =>
      by_cases hid : id = 0
      · subst hid
        exact hq
      · change Prog.Meets calls outs (if id = 0 then pure () else f id) Q false I
        rw [if_neg hid]
        refine hf id rfl hid ⟨db, hI, ?_⟩
        cases hp : db.row .project id with
        | none => simp [hp] at hr
        | some p => exact ⟨p, hp, by simpa [hp] using hr⟩

theorem meets_withOrganization (Q : Post Key Row Unit) (organizationID : Param UUID)
    (f : Organization → Api Unit) (ht : ∀ status text, outs (.response status (.text text)))
    (hq : Q () false I)
    (hf : ∀ org, organizationID = .value org.id → (∃ db, I db ∧
      Queries.organization db org.id = some org ∧ Queries.isMember db user.id org.id = true) →
      (f org).Meets calls outs Q false I) :
    (withOrganization user organizationID f).Meets calls outs Q false I := by
  refine meets_bind calls outs _ _ _ false I ?_
  cases organizationID with
  | absent => exact hq
  | invalid => exact ⟨ht _ _, hq⟩
  | value orgID =>
    refine meets_bind calls outs _ _ _ false I (meets_select calls outs false I _ _ _ _
      (fun _ => rfl) (fun e => ⟨ht _ _, hq⟩) fun db b hI hr => ?_)
    obtain ⟨member, org⟩ := b
    cases member with
    | false => exact ⟨ht _ _, hq⟩
    | true =>
      obtain ⟨hid, hm, ho⟩ := Queries.partOfOrg_true db user.id orgID org hr
      subst hid
      exact hf org rfl ⟨db, hI, ho, hm⟩

theorem requestedSettings_org (org org' : Organization) (request : OrganizationSettingsRequest)
    (h : requestedSettings org request = .ok org') : org'.id = org.id ∧ org'.name = org.name := by
  rw [requestedSettings] at h
  cases hd : requestedDomain org request with
  | error e =>
    rw [hd] at h
    cases h
  | ok domain =>
    rw [hd] at h
    cases h
    exact ⟨rfl, rfl⟩

end Rules

/-! ## One request after another -/

structure ApiRequest where
  email : Option String
  route : Route
  fails : StepName Stmt → Bool

def ApiRequest.perform (rt : Analytics.Runtime) (env : Env) (req : ApiRequest) (srv : Srv Unit) :
    Srv Unit :=
  ((serve rt env req.email req.route).run backend () req.fails srv {}).2.1

/-- Any number of requests one after another, each admitted in the state that it meets. -/
def Serves (rt : Analytics.Runtime) (env : Env) (permit : Db → ApiRequest → Prop) :
    Srv Unit → Srv Unit → Prop :=
  Relation.ReflTransGen fun srv srv' => ∃ req, permit srv.db req ∧ srv' = req.perform rt env srv

def performAll (rt : Analytics.Runtime) (env : Env) (reqs : List ApiRequest) (srv : Srv Unit) :
    Srv Unit :=
  reqs.foldl (fun srv req => req.perform rt env srv) srv

def Admitted (rt : Analytics.Runtime) (env : Env) (permit : Db → ApiRequest → Prop) :
    List ApiRequest → Srv Unit → Prop
  | [], _ => True
  | req::reqs, srv => permit srv.db req ∧ Admitted rt env permit reqs (req.perform rt env srv)

theorem serves_performAll (rt : Analytics.Runtime) (env : Env) (permit : Db → ApiRequest → Prop)
    (reqs : List ApiRequest) (srv : Srv Unit) (h : Admitted rt env permit reqs srv) :
    Serves rt env permit srv (performAll rt env reqs srv) := by
  induction reqs generalizing srv with
  | nil => exact .refl
  | cons req reqs ih => exact .head ⟨req, h.1, rfl⟩ (ih _ h.2)

def fresh : Srv Unit := { db := Store.empty, ext := fun _ => none }

/-- The account that a request of an address acts for: one with this address or a new one. -/
def ActsFor (db : Db) (env : Env) (email : String) (userID : UUID) : Prop :=
  ∀ v, db.row .userAccount userID = some v → v.email = env.toLower email

def Same (base db : Db) : Prop := ∀ t, t ≠ .userAccount → ∀ k, db.row t k = base.row t k

theorem same_getUser {base db : Db} (hs : Same base db) (env : Env) (email : String) (t : Tick)
    (u : UserAccount) (ws : List Image)
    (hf : Queries.getUserByEmailOrCreate env email t db = .ok (u, ws)) :
    Same base (db.replay ws) := by
  intro t' ht k
  rw [Store.replay_untouched, hs t' ht k]
  intro w hw he
  rw [Queries.getUserByEmailOrCreate] at hf
  split at hf
  · split at hf
    · rw [(Ownership.insertRow_ok _ _ _ _ _ _ _ hf).2] at hw
      cases List.mem_singleton.mp hw
      cases he
      exact ht rfl
    · rw [Ownership.read_ok _ u ws hf] at hw
      cases hw
  · cases hf

theorem insertRow_absent {β : Type} (db : Db) (t : Table) (k : Key t) (v : Row t) (b b' : β)
    (ws : List Image) (h : Queries.insertRow db t k v b = .ok (b', ws)) : db.row t k = none := by
  rw [Queries.insertRow] at h
  split at h
  · cases h
  · assumption

theorem getUser_actsFor (base : Db) (env : Env) (email : String) (t : Tick) (user : UserAccount)
    (ws : List Image) (hf : Queries.getUserByEmailOrCreate env email t base = .ok (user, ws)) :
    ActsFor base env email user.id := by
  intro v hv
  rw [Queries.getUserByEmailOrCreate] at hf
  split at hf
  · cases hus : Queries.usersWithEmail base (env.toLower email) with
    | nil =>
      rw [hus] at hf
      have habs := insertRow_absent _ _ _ _ _ _ _ hf
      obtain ⟨rfl, -⟩ := Ownership.insertRow_ok _ _ _ _ _ _ _ hf
      exact absurd (habs.symm.trans hv) (by simp)
    | cons u us =>
      rw [hus] at hf
      have hmem : u ∈ Queries.usersWithEmail base (env.toLower email) := by simp [hus]
      obtain ⟨⟨k, w⟩, hm, hu⟩ := List.mem_filterMap.mp hmem
      split at hu
      · next he =>
        cases us with
        | nil =>
          cases hf
          cases hu
          cases ((base.mem_scan _ _ _).mp hm).symm.trans hv
          exact he
        | cons => cases hf
      · cases hu
  · cases hf

/-- A request first looks up its account. -/
theorem meets_serve (calls : KubeCall → Prop) (outs : Output → Prop) (Q : Post Key Row Unit)
    (rt : Analytics.Runtime) (env : Env) (base : Db) (email : String) (route : Route)
    (ht : ∀ status text, outs (.response status (.text text)))
    (hq : Q () false (fun db => db = base)) (I : Db → Prop) (hI : ∀ db, Same base db → I db)
    (hh : ∀ user, ActsFor base env email user.id →
      (handle rt env user route).Meets calls outs Q false I) :
    (serve rt env (some email) route).Meets calls outs Q false (fun db => db = base) := by
  refine meets_bind _ _ _ _ _ false _ (meets_mapError _ _ false _ _ _ _ _ _ I
    (fun _ => rfl) (fun e => ?_) (fun db hdb => hI db (by rw [hdb]; exact fun _ _ _ => rfl))
    fun t db user ws hdb hf => ?_)
  · cases e <;> exact ⟨ht _ _, hq⟩
  · subst hdb
    exact ⟨hI _ (same_getUser (fun _ _ _ => rfl) env email t user ws hf),
      hh user (getUser_actsFor db env email t user ws hf)⟩

/-! ## Predicates kept by requests -/

abbrev Meets {α : Type} (Q : Post Key Row α) (p : Api α) (op : Bool) (I : Db → Prop) : Prop :=
  p.Meets (fun _ => True) (fun _ => True) Q op I

def Leaves (P : Db → Prop) {α : Type} : Post Key Row α :=
  fun _ op I => op = false ∧ ∀ db, I db → P db

theorem perform_leaves (P : Db → Prop) (rt : Analytics.Runtime) (env : Env) (srv : Srv Unit)
    (email : String) (route : Route) (fails : StepName Stmt → Bool) (h : P srv.db)
    (I : Db → Prop) (hI : ∀ db, Same srv.db db → I db)
    (hh : ∀ user, ActsFor srv.db env email user.id →
      Meets (Leaves P) (handle rt env user route) false I) :
    P (ApiRequest.perform rt env ⟨some email, route, fails⟩ srv).db := by
  obtain ⟨op, I', ⟨-, hI'⟩, hholds, -⟩ := run_meets backend () _ _ (fun _ => True)
    (fun _ _ _ _ => trivial) fails _ _ false _ (meets_serve _ _ (Leaves P) rt env srv.db email route
      (fun _ _ => trivial) ⟨rfl, fun db hdb => hdb ▸ h⟩ I hI hh) srv {}
    (holds_closed _ _ _ _ rfl rfl rfl) trivial
  exact hI' _ (holds_db I' _ _ op hholds)

/-- Apart from user accounts a request changes only the tables of its route. -/
theorem perform_quiet (rt : Analytics.Runtime) (env : Env) (srv : Srv Unit) (req : ApiRequest)
    (t : Table) (hu : t ≠ .userAccount) (ht : t ∉ tablesOf req.route) (k : Key t) :
    (req.perform rt env srv).db.row t k = srv.db.row t k :=
  built_rows (· ≠ t) env _ (serve_built rt env (· ≠ t) (Ne.symm hu) req.email req.route
    fun _ hm he => ht (he ▸ hm)) () req.fails srv {} rfl t (fun hne => hne rfl) k

end Jetski.Requests
