import Jetski.Gateway
import Jetski.Logs

/-!
# The database functions

Every function of the database package is a program over one handle, the
connection pool or the transaction of its caller. A transaction ends with its
commit or, after an error, with a rollback. The two functions that store a
revision open a transaction of their own but send their statements on the
handle of the caller.
-/

set_option autoImplicit false

namespace Jetski.Database

open Relational Schema Jetski.Types Gateway

inductive Stmt where
  | getOrganizationsOfUser
  | createOrganization
  | updateOrganization
  | getOrganizationMembers
  | existsOrganizationWithName
  | existsOrganizationWithCustomDomain
  | addUserToOrganization
  | removeUserFromOrganization
  | getUserByEmail
  | getUserByEmailOrCreate
  | isUserPartOfOrg
  | canUserAccessProject
  | getProjectsForUser
  | createProject
  | deleteProject
  | getProjectSummaries
  | getProjectSummary
  | insertDeploymentRevision
  | updateLatestDeploymentRevision
  | insertDeploymentRevisionEvent
  | updateLatestDeploymentRevisionEvent
  | getDeploymentRevisionsForProject
  | getRecentDeploymentRevisionSummaries
  | getUsage
  | createMCPServerLog
  | getLogsForProject
  | getPromptsForProject
  | insertContextProperty
  | insertContext
  deriving DecidableEq, Repr

inductive KubeCall where
  | apply (name : String) (spec : MCPGatewaySpecApplyConfiguration)
  | delete (name : String)
  deriving DecidableEq, Repr

/-- The gateways of the cluster by their names. -/
abbrev Cluster := String → Option MCPGatewaySpec

/-- A forced apply by the only field manager replaces the specification. -/
def react : KubeCall → Cluster → Cluster
  | .apply name spec, c =>
    match served spec with
    | some s => Function.update c name (some s)
    | none => c
  | .delete name, c => Function.update c name none

def KubeCall.name : KubeCall → String
  | .apply name _ => name
  | .delete name => name

theorem react_other (c : KubeCall) (g : Cluster) (name : String) (h : c.name ≠ name) :
    react c g name = g name := by
  cases c with
  | apply n spec =>
    rw [react]
    cases served spec with
    | none => rfl
    | some s => exact Function.update_of_ne (Ne.symm h) _ _
  | delete n => exact Function.update_of_ne (Ne.symm h) _ _

/-- What a response is rendered from. -/
inductive Body where
  | empty
  | text (s : String)
  | organization (o : Organization)
  | organizations (os : List Organization)
  | user (u : UserAccount)
  | users (us : List ((UUID × UUID) × UserAccount))
  | project (p : Project)
  | projects (ps : List Project)
  | summary (ps : ProjectSummary)
  | summaries (pss : List ProjectSummary)
  | status (ps : ProjectSummary) (ok : Bool) (message : String)
  | revisions (rs : List DeploymentRevisionSummary)
  | logs (ls : List MCPServerLog)
  | prompts (ps : List MCPServerLogPromptData)
  | usage (u : OrganizationDashboardUsage)
  | analytics (current previous : List MCPServerLog)
  | context (u : UserAccount) (os : List Organization) (ps : List Project)

/-- Writing to a response fixes its status the first time. -/
inductive Output where
  | response (status : ℕ) (body : Body)
  | mail (user : UserAccount) (org : Organization)

abbrev Api (α : Type) := Prog Key Row Stmt DbError KubeCall Output α

abbrev Srv := Server Key Row Cluster
abbrev Ses := Session Key Row KubeCall Output

def backend : Backend DbError KubeCall Cluster := ⟨react, .refused⟩

def query {β : Type} (name : Stmt) (db : Handle) (f : Queries.Sql β) : Api (Except DbError β) :=
  (Action.stmt name db f).lift

/-- `RunTx`. After a failed commit the transaction is closed, so the deferred
rollback does nothing. -/
def runTx {α : Type} (db : Handle) (f : Handle → Api (Except DbError α)) :
    Api (Except DbError α) := do
  match ← (Action.begin db).lift with
  | none => return .error .refused
  | some tx =>
    match ← f tx with
    | .error e =>
      (Action.rollback tx).lift
      return .error e
    | .ok a =>
      if ← (Action.commit tx).lift then return .ok a else return .error .refused

/-- The end of `RunTx`, once its function has returned. -/
def finish {α : Type} (tx : Handle) (r : Except DbError α) : Api (Except DbError α) := do
  match r with
  | .error e =>
    (Action.rollback tx).lift
    return .error e
  | .ok a =>
    if ← (Action.commit tx).lift then return .ok a else return .error .refused

theorem runTx_eq {α : Type} (db : Handle) (f : Handle → Api (Except DbError α)) :
    runTx db f = .act (.begin db) (fun tx => match tx with
      | none => .ret (.error .refused)
      | some tx => (f tx).bind (finish tx)) := by
  rw [runTx]
  simp only [Action.lift, Prog.bind_eq, Prog.bind_act, Prog.bind_ret]
  rfl

section
variable (env : Env) (db : Handle)

/-! ## Organizations and users -/

def getOrganizationsOfUser (userID : UUID) : Api (Except DbError (List Organization)) :=
  query .getOrganizationsOfUser db (Queries.getOrganizationsOfUser env userID)

def alreadyExists : DbError → DbError
  | .violation (.unique _) => .alreadyExists
  | e => e

def notFound : DbError → DbError
  | .noRows => .notFound
  | e => e

def createOrganization (name : String) : Api (Except DbError Organization) := do
  let r ← query .createOrganization db (Queries.createOrganization name)
  return r.mapError alreadyExists

def updateOrganization (org : Organization) : Api (Except DbError Organization) := do
  let r ← query .updateOrganization db (Queries.updateOrganization org)
  return r.mapError notFound

def getOrganizationMembers (orgID : UUID) :
    Api (Except DbError (List ((UUID × UUID) × UserAccount))) :=
  query .getOrganizationMembers db (Queries.getOrganizationMembers orgID)

/-- No row means that nothing exists. -/
def existing : Except DbError Bool → Except DbError Bool
  | .error .noRows => .ok false
  | r => r

def existsOrganizationWithName (name : String) : Api (Except DbError Bool) := do
  let r ← query .existsOrganizationWithName db (Queries.existsOrganizationWithName name)
  return existing r

def existsOrganizationWithCustomDomain (domain : String) : Api (Except DbError Bool) := do
  let r ← query .existsOrganizationWithCustomDomain db
    (Queries.existsOrganizationWithCustomDomain domain)
  return existing r

def addUserToOrganization (userID orgID : UUID) : Api (Except DbError Unit) :=
  query .addUserToOrganization db (Queries.addUserToOrganization userID orgID)

def removeUserFromOrganization (userID orgID : UUID) : Api (Except DbError Unit) :=
  query .removeUserFromOrganization db (Queries.removeUserFromOrganization userID orgID)

def getUserByEmail (email : String) : Api (Except DbError UserAccount) := do
  let r ← query .getUserByEmail db (Queries.getUserByEmail env email)
  return r.mapError notFound

def getUserByEmailOrCreate (email : String) : Api (Except DbError UserAccount) := do
  let r ← query .getUserByEmailOrCreate db (Queries.getUserByEmailOrCreate env email)
  return r.mapError notFound

def isUserPartOfOrg (userID orgID : UUID) : Api (Except DbError (Bool × Organization)) :=
  query .isUserPartOfOrg db (Queries.isUserPartOfOrg userID orgID)

def canUserAccessProject (userID projectID : UUID) : Api (Except DbError Bool) :=
  query .canUserAccessProject db (Queries.canUserAccessProject userID projectID)

/-! ## Projects -/

def getProjectsForUser (userID : UUID) : Api (Except DbError (List Project)) :=
  query .getProjectsForUser db (Queries.getProjectsForUser env userID)

def createProject (orgID createdBy : UUID) (name : String) : Api (Except DbError Project) :=
  query .createProject db (Queries.createProject orgID createdBy name)

def deleteProject (projectID : UUID) : Api (Except DbError Unit) := do
  match ← query .deleteProject db (Queries.deleteProject projectID) with
  | .error e => return .error e
  | .ok n => if n = 0 then return .error .notFound else return .ok ()

def getProjectSummaries (orgID : UUID) : Api (Except DbError (List ProjectSummary)) :=
  query .getProjectSummaries db (Queries.getProjectSummaries env orgID)

def getProjectSummary (projectID : UUID) : Api (Except DbError ProjectSummary) :=
  query .getProjectSummary db (Queries.getProjectSummary projectID)

/-! ## Deployment revisions -/

def createDeploymentRevision (dr : Queries.NewRevision) :
    Api (Except DbError DeploymentRevision) :=
  runTx db fun _ => do
    match ← query .insertDeploymentRevision db (Queries.insertDeploymentRevision dr) with
    | .error e => return .error e
    | .ok res =>
      match ← query .updateLatestDeploymentRevision db
          (Queries.updateLatestDeploymentRevision res.id res.projectID) with
      | .error e => return .error e
      | .ok () => return .ok res

def createHostedDeploymentRevision (now : Time) (projectID createdBy : UUID) (port : ℤ)
    (ociURL : String) (authenticated telemetry : Bool) (timestamp : Option Time) :
    Api (Except DbError DeploymentRevision) :=
  runTx db fun _ => do
    match ← query .insertDeploymentRevision db (Queries.insertDeploymentRevision {
        projectID := projectID
        createdBy := createdBy
        proxyURL := none
        authenticated := authenticated
        telemetry := telemetry
        port := some port
        ociURL := some ociURL
        createdAt := some (timestamp.getD now) }) with
    | .error e => return .error e
    | .ok dr =>
      match ← query .updateLatestDeploymentRevision db
          (Queries.updateLatestDeploymentRevision dr.id projectID) with
      | .error e => return .error e
      | .ok () => return .ok dr

def addDeploymentRevisionEvent (deploymentRevisionID : UUID)
    (eventType : DeploymentRevisionEventType) (timestamp : Option Time) :
    Api (Except DbError Unit) := do
  match ← query .insertDeploymentRevisionEvent db
      (Queries.insertDeploymentRevisionEvent deploymentRevisionID eventType timestamp) with
  | .error e => return .error e
  | .ok eventID =>
    query .updateLatestDeploymentRevisionEvent db
      (Queries.updateLatestDeploymentRevisionEvent eventID deploymentRevisionID)

def getDeploymentRevisionsForProject (projectID : UUID) :
    Api (Except DbError (List DeploymentRevisionSummary)) :=
  query .getDeploymentRevisionsForProject db (Queries.getDeploymentRevisionsForProject projectID)

def getRecentDeploymentRevisionSummaries (orgID : UUID) :
    Api (Except DbError (List DeploymentRevisionSummary)) :=
  query .getRecentDeploymentRevisionSummaries db
    (Queries.getRecentDeploymentRevisionSummaries orgID)

def getUsage (orgID : UUID) : Api (Except DbError OrganizationDashboardUsage) :=
  query .getUsage db (Queries.getUsage orgID)

/-! ## Server logs -/

def badRevision : DbError → DbError
  | .violation (.foreignKey constraint) =>
    if constraint = "mcpserverlog_deployment_revision_id_fkey" then .notFound
    else .violation (.foreignKey constraint)
  | e => e

/-- The row is committed with its statement and decoded after that. -/
def createMCPServerLog (data : MCPServerLogRow5) : Api (Except DbError MCPServerLog) := do
  match ← query .createMCPServerLog db (Logs.createMCPServerLog data) with
  | .error e => return .error (badRevision e)
  | .ok l => return Logs.scanLog env l

def getLogsForProject (projectID : UUID) (pagination : Pagination) (sorting : Sorting)
    (id : Option UUID) (mcpSessionID : Option String) :
    Api (Except DbError (List MCPServerLog)) :=
  query .getLogsForProject db
    (Logs.getLogsForProject env projectID pagination sorting id mcpSessionID)

def getPromptsForProject (projectID : UUID) (pagination : Pagination) (sorting : Sorting)
    (mcpSessionID : Option String) : Api (Except DbError (List MCPServerLogPromptData)) :=
  query .getPromptsForProject db
    (Logs.getPromptsForProject env projectID pagination sorting mcpSessionID)

/-! ## Gateways -/

/-- `mcpGatewayApplier.Apply`. Deleting a gateway that is not there is no error. -/
def applyGateway (org : Organization) : Api (Except DbError Unit) := do
  match ← getProjectSummaries env db org.id with
  | .error e => return .error e
  | .ok pss =>
    let c := if pss = [] then KubeCall.delete org.name
      else KubeCall.apply org.name (gatewaySpec org pss)
    if ← (Action.call c).lift then return .ok () else return .error .refused

end
end Jetski.Database
