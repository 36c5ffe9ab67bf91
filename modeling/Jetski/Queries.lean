import Jetski.Types
import Jetski.Relational.Client

/-!
# Queries

The meaning of every SQL statement: a function of the rows its client can see
to the rows it returns and the row images it writes. Identifiers come from the
server, time stamps from the start of the transaction or from the clock.
-/

set_option autoImplicit false

namespace Jetski.Queries

open Relational Schema Jetski.Types

abbrev Sql (β : Type) := Tick → Db → Except DbError (β × List Image)

def select {β : Type} (rows : Db → Except DbError β) : Sql β :=
  fun _ db => (rows db).map (fun b => (b, []))

def collectExactlyOneRow {α : Type} : List α → Except DbError α
  | [] => .error .noRows
  | [a] => .ok a
  | _::_::_ => .error .tooManyRows

def putRow {β : Type} (db : Db) (t : Table) (k : Key t) (v : Row t) (b : β) :
    Except DbError (β × List Image) :=
  match schema.put db t k v with
  | .error e => .error (.violation e)
  | .ok ws => .ok (b, ws)

def insertRow {β : Type} (db : Db) (t : Table) (k : Key t) (v : Row t) (b : β) :
    Except DbError (β × List Image) :=
  match db.row t k with
  | some _ => .error (.violation (.unique "pkey"))
  | none => putRow db t k v b

/-- Texts that the database can store. -/
def storable (s : String) : Bool := '\x00' ∉ s.toList

mutual

def storableJson : Json → Bool
  | .string s => storable s
  | .array items => storableItems items
  | .object fields => storableFields fields
  | _ => true

def storableItems : List Json → Bool
  | [] => true
  | j::js => storableJson j && storableItems js

def storableFields : List (String × Json) → Bool
  | [] => true
  | (name, j)::fs => storable name && storableJson j && storableFields fs

end

def isInt4 (n : ℤ) : Bool := -2147483648 ≤ n ∧ n ≤ 2147483647

/-! ## Organizations and users -/

def organization (db : Db) (orgID : UUID) : Option Organization :=
  (db.row .organization orgID).map (fun v => { v with id := orgID })

def userAccount (db : Db) (userID : UUID) : Option UserAccount :=
  (db.row .userAccount userID).map (fun v => { v with id := userID })

def project (db : Db) (projectID : UUID) : Option Project :=
  (db.row .project projectID).map (fun v => { v with id := projectID })

def isMember (db : Db) (userID orgID : UUID) : Bool :=
  (db.row .organizationUserAccount (orgID, userID)).isSome

def byNames (env : Env) (x x' : String × String) : Bool :=
  if x.1 = x'.1 then env.collate x.2 x'.2 else env.collate x.1 x'.1

def getOrganizationsOfUser (env : Env) (userID : UUID) : Sql (List Organization) :=
  select fun db => .ok <|
    ((db.scan .organizationUserAccount).filterMap (fun j => do
      guard (j.1.2 = userID)
      let _ ← userAccount db userID
      organization db j.1.1)).insertionSort (fun o o' => env.collate o.name o'.name)

def createOrganization (name : String) : Sql Organization := fun t db =>
  let v : OrganizationRow := ⟨t.start, name, ⟨none, ⟨true⟩⟩⟩
  insertRow db .organization t.fresh v { v with id := t.fresh }

def updateOrganization (org : Organization) : Sql Organization := fun _ db =>
  match db.row .organization org.id with
  | none => .error .noRows
  | some v =>
    let v' := { v with settings := org.settings }
    putRow db .organization org.id v' { v' with id := org.id }

/-- The users, with the keys of the memberships they are joined by. -/
def getOrganizationMembers (orgID : UUID) : Sql (List ((UUID × UUID) × UserAccount)) :=
  select fun db => .ok <|
    ((db.scan .organizationUserAccount).filterMap (fun j => do
      guard (j.1.1 = orgID)
      let u ← userAccount db j.1.2
      return (j.1, u))).insertionSort (fun u u' => u.2.createdAt ≤ u'.2.createdAt)

def existsOrganizationWithName (name : String) : Sql Bool :=
  select fun db =>
    if storable name then collectExactlyOneRow <|
      ((db.scan .organization).filter (fun o => o.2.name = name)).map (fun _ => true)
    else .error .invalid

def existsOrganizationWithCustomDomain (domain : String) : Sql Bool :=
  select fun db =>
    if storable domain then collectExactlyOneRow <|
      ((db.scan .organization).filter (fun o => o.2.settings.customDomain = some domain)).map
        (fun _ => true)
    else .error .invalid

def addUserToOrganization (userID orgID : UUID) : Sql Unit := fun t db =>
  if isMember db userID orgID then .ok ((), [])
  else putRow db .organizationUserAccount (orgID, userID) ⟨t.start⟩ ()

def removeUserFromOrganization (userID orgID : UUID) : Sql Unit := fun _ db =>
  if isMember db userID orgID then .ok ((), [⟨.organizationUserAccount, (orgID, userID), none⟩])
  else .ok ((), [])

def usersWithEmail (db : Db) (email : String) : List UserAccount :=
  (db.scan .userAccount).filterMap (fun u =>
    if u.2.email = email then some { u.2 with id := u.1 } else none)

def getUserByEmail (env : Env) (email : String) : Sql UserAccount :=
  select fun db =>
    if storable (env.toLower email) then
      collectExactlyOneRow (usersWithEmail db (env.toLower email))
    else .error .invalid

def getUserByEmailOrCreate (env : Env) (email : String) : Sql UserAccount := fun t db =>
  if storable (env.toLower email) then
    match usersWithEmail db (env.toLower email) with
    | [] =>
      let v : UserAccountRow := ⟨t.start, env.toLower email⟩
      insertRow db .userAccount t.fresh v { v with id := t.fresh }
    | us => (collectExactlyOneRow us).map (fun u => (u, []))
  else .error .invalid

def isUserPartOfOrg (userID orgID : UUID) : Sql (Bool × Organization) :=
  select fun db => collectExactlyOneRow <|
    (organization db orgID).toList.map (fun o => (isMember db userID orgID, o))

theorem partOfOrg_ok (db : Db) (userID orgID : UUID) (member : Bool) (org : Organization)
    (h : collectExactlyOneRow ((organization db orgID).toList.map
      (fun o => (isMember db userID orgID, o))) = .ok (member, org)) :
    ∃ v, db.row .organization orgID = some v ∧ org = { v with id := orgID } ∧
      member = isMember db userID orgID := by
  cases hv : db.row .organization orgID with
  | none =>
    rw [organization, hv] at h
    cases h
  | some v =>
    rw [organization, hv] at h
    cases h
    exact ⟨v, rfl, rfl, rfl⟩

theorem partOfOrg_true (db : Db) (userID orgID : UUID) (org : Organization)
    (h : collectExactlyOneRow ((organization db orgID).toList.map
      (fun o => (isMember db userID orgID, o))) = .ok (true, org)) :
    org.id = orgID ∧ isMember db userID orgID = true ∧ organization db orgID = some org := by
  obtain ⟨v, hv, horg, hm⟩ := partOfOrg_ok db userID orgID true org h
  have hrow : organization db orgID = some org := by rw [organization, hv, horg, Option.map_some]
  exact ⟨congrArg Organization.id horg, hm.symm, hrow⟩

def canUserAccessProject (userID projectID : UUID) : Sql Bool :=
  select fun db => .ok <|
    match db.row .project projectID with
    | none => false
    | some p => isMember db userID p.organizationID

/-! ## Projects -/

def getProjectsForUser (env : Env) (userID : UUID) : Sql (List Project) :=
  select fun db => .ok <|
    (((db.scan .project).filterMap (fun p => do
      let o ← db.row .organization p.2.organizationID
      guard (isMember db userID p.2.organizationID)
      return ((o.name, p.2.name), ({ p.2 with id := p.1 } : Project)))).insertionSort
        (fun x x' => byNames env x.1 x'.1)).map (fun x => x.2)

def createProject (orgID createdBy : UUID) (name : String) : Sql Project := fun t db =>
  let v : ProjectRow := ⟨t.start, createdBy, orgID, name, none, none⟩
  insertRow db .project t.fresh v { v with id := t.fresh }

def deleteProject (projectID : UUID) : Sql ℕ := fun _ db =>
  match db.row .project projectID with
  | none => .ok (0, [])
  | some _ =>
    match deleteRow foreignKeys tables .project projectID db with
    | .error e => .error (.deletion e)
    | .ok ws => .ok (1, ws)

/-- The revision that a project row points to, with the number of revisions of the project. -/
def latestRevision (db : Db) (projectID : UUID) (p : ProjectRow) : Option DeploymentRevision := do
  let id ← p.latestDeploymentRevisionID
  let v ← db.row .deploymentRevision id
  return { v with
    id := id
    buildNumber := (db.scan .deploymentRevision).countP (fun r => r.2.projectID = projectID) }

/-- The event that a project row points to, if it is one of the latest revision. -/
def latestEvent (db : Db) (projectID : UUID) (p : ProjectRow) :
    Option DeploymentRevisionEvent := do
  let id ← p.latestDeploymentRevisionEventID
  let v ← db.row .deploymentRevisionEvent id
  let r ← latestRevision db projectID p
  guard (v.deploymentRevisionID = r.id)
  return { v with id := id }

def summary (db : Db) (projectID : UUID) (p : ProjectRow) : Option ProjectSummary :=
  (organization db p.organizationID).map (fun o => { p with
    id := projectID
    organization := o
    latestDeploymentRevision := latestRevision db projectID p
    latestDeploymentRevisionEvent := latestEvent db projectID p })

def projectSummaries (env : Env) (db : Db) (orgID : UUID) : List ProjectSummary :=
  ((db.scan .project).filterMap (fun p =>
    if p.2.organizationID = orgID then summary db p.1 p.2 else none)).insertionSort
      (fun x x' => byNames env (x.organization.name, x.name) (x'.organization.name, x'.name))

def getProjectSummaries (env : Env) (orgID : UUID) : Sql (List ProjectSummary) :=
  select fun db => .ok (projectSummaries env db orgID)

def getProjectSummary (projectID : UUID) : Sql ProjectSummary :=
  select fun db => collectExactlyOneRow <|
    ((db.row .project projectID).bind (summary db projectID)).toList

/-! ## Deployment revisions -/

structure NewRevision where
  projectID : UUID
  createdBy : UUID
  proxyURL : Option String
  authenticated : Bool
  telemetry : Bool
  port : Option ℤ
  ociURL : Option String
  createdAt : Option Time := none
  deriving DecidableEq, Repr

/-- The column types can hold the values of a new revision. -/
def NewRevision.fits (dr : NewRevision) : Bool :=
  dr.port.all isInt4 && dr.ociURL.all storable && dr.proxyURL.all storable

def insertDeploymentRevision (dr : NewRevision) : Sql DeploymentRevision := fun t db =>
  let v : DeploymentRevisionRow := {
    createdAt := dr.createdAt.getD t.start
    createdBy := dr.createdBy
    projectID := dr.projectID
    port := dr.port
    ociURL := dr.ociURL
    authenticated := dr.authenticated
    proxyURL := dr.proxyURL
    telemetry := dr.telemetry }
  if dr.fits then
    insertRow db .deploymentRevision t.fresh v { v with id := t.fresh, buildNumber := 0 }
  else .error .invalid

def updateLatestDeploymentRevision (revisionID projectID : UUID) : Sql Unit := fun _ db =>
  match db.row .project projectID with
  | none => .ok ((), [])
  | some v => putRow db .project projectID
      { v with latestDeploymentRevisionID := some revisionID } ()

def insertDeploymentRevisionEvent (deploymentRevisionID : UUID)
    (eventType : DeploymentRevisionEventType) (timestamp : Option Time) : Sql UUID := fun t db =>
  insertRow db .deploymentRevisionEvent t.fresh
    ⟨timestamp.getD t.now, deploymentRevisionID, eventType⟩ t.fresh

def updateLatestDeploymentRevisionEvent (eventID deploymentRevisionID : UUID) : Sql Unit :=
  fun _ db =>
    match db.row .deploymentRevision deploymentRevisionID with
    | none => .ok ((), [])
    | some r =>
      match db.row .project r.projectID with
      | none => .ok ((), [])
      | some v => putRow db .project r.projectID
          { v with latestDeploymentRevisionEventID := some eventID } ()

/-- `row_number() OVER (PARTITION BY dr.project_id ORDER BY dr.created_at)` of ordered rows. -/
def rowNumbers (seen : List UUID) :
    List (UUID × DeploymentRevisionRow) → List (DeploymentRevision)
  | [] => []
  | r::rs => { r.2 with id := r.1, buildNumber := seen.count r.2.projectID+1 } ::
      rowNumbers (r.2.projectID::seen) rs

/-- The revisions with the project, author and latest event of the project. -/
def revisionSummaries (db : Db) (p : ProjectRow → UUID → Bool) :
    List DeploymentRevisionSummary :=
  let rows := (db.scan .deploymentRevision).filter (fun r =>
    (db.row .project r.2.projectID).any (fun v => p v r.2.projectID) ∧
      (db.row .userAccount r.2.createdBy).isSome)
  let numbered := rowNumbers [] (rows.insertionSort (fun r r' => r.2.createdAt ≤ r'.2.createdAt))
  (numbered.filterMap (fun r => do
    let v ← project db r.projectID
    let u ← userAccount db r.createdBy
    let dre : Option DeploymentRevisionEvent := do
      let id ← v.latestDeploymentRevisionEventID
      let e ← db.row .deploymentRevisionEvent id
      return { e with id := id }
    return { r with
      project := v
      author := u
      projectLatestDeploymentRevisionEvent := dre })).insertionSort
        (fun r r' => r'.createdAt ≤ r.createdAt)

def getDeploymentRevisionsForProject (projectID : UUID) : Sql (List DeploymentRevisionSummary) :=
  select fun db => .ok (revisionSummaries db (fun _ id => id = projectID))

def getRecentDeploymentRevisionSummaries (orgID : UUID) : Sql (List DeploymentRevisionSummary) :=
  select fun db => .ok ((revisionSummaries db (fun v _ => v.organizationID = orgID)).take 10)

def getUsage (orgID : UUID) : Sql OrganizationDashboardUsage :=
  select fun db => .ok ⟨(db.scan .mcpServerLog).filterMap (fun l => do
    let dr ← db.row .deploymentRevision l.2.deploymentRevisionID
    let p ← db.row .project dr.projectID
    guard (p.organizationID = orgID)
    return { l.2 with id := l.1 })⟩

/-! Context properties and contexts are stored by other programs. -/

def insertContextProperty (v : ContextPropertyRow) : Sql UUID := fun t db =>
  insertRow db .contextProperty t.fresh v t.fresh

def insertContext (v : ContextRow) : Sql UUID := fun t db =>
  insertRow db .context t.fresh v t.fresh

end Jetski.Queries
