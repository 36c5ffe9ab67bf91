import Jetski.GatewayConfig
import Jetski.Handlers

/-!
# Routes

The requests of the organizations, projects, dashboard and context routers
behind the authentication, which creates an account on first sight, and the
webhook to which gateways report the requests they served.
-/

set_option autoImplicit false

namespace Jetski.Routes

open Relational Schema Jetski.Types Database Handlers Analytics

inductive Route where
  | getOrganizations
  | postOrganization (name : Option String)
  | putOrganization (organizationID : Param UUID) (body : Option OrganizationSettingsRequest)
  | getOrganizationMembers (organizationID : Param UUID)
  | putOrganizationMember (organizationID : Param UUID) (email : Option String)
  | deleteOrganizationMember (organizationID userID : Param UUID)
  | getProjects
  | postProject (body : Option ProjectRequest)
  | getProjectSummary (projectID : Param UUID)
  | deleteProject (projectID : Param UUID)
  | getProjectStatus (projectID : Param UUID)
  | getLogsForProject (projectID : Param UUID) (req : ListRequest)
  | getPromptsForProject (projectID : Param UUID) (req : ListRequest)
  | getDeploymentRevisionsForProject (projectID : Param UUID)
  | getAnalytics (now : Time) (projectID : Param UUID) (startedAt : Param Int64)
  | putProjectSettings (projectID : Param UUID) (body : Option SettingsRequest)
  | getProjectsForDashboard (organizationID : Param UUID)
  | getDeploymentRevisionsForDashboard (organizationID : Param UUID)
  | getUsageForDashboard (organizationID : Param UUID)
  | getContext

section
variable (rt : Runtime) (env : Env)

def handle (user : UserAccount) : Route → Api Unit
  | .getOrganizations => getOrganizations env user
  | .postOrganization name => postOrganizationHandler user name
  | .putOrganization organizationID body => putOrganizationHandler env user organizationID body
  | .getOrganizationMembers organizationID => Handlers.getOrganizationMembers user organizationID
  | .putOrganizationMember organizationID email =>
    putOrganizationMember env user organizationID email
  | .deleteOrganizationMember organizationID userID =>
    deleteOrganizationMember user organizationID userID
  | .getProjects => getProjects env user
  | .postProject body => postProjectHandler env user body
  | .getProjectSummary projectID => Handlers.getProjectSummary user projectID
  | .deleteProject projectID => deleteProjectHandler env user projectID
  | .getProjectStatus projectID => getProjectStatusHandler env user projectID
  | .getLogsForProject projectID req => Handlers.getLogsForProject env user projectID req
  | .getPromptsForProject projectID req => Handlers.getPromptsForProject env user projectID req
  | .getDeploymentRevisionsForProject projectID =>
    Handlers.getDeploymentRevisionsForProject user projectID
  | .getAnalytics now projectID startedAt => getAnalytics env user rt now projectID startedAt
  | .putProjectSettings projectID body => putProjectSettings env user projectID body
  | .getProjectsForDashboard organizationID => getProjectsForDashboard env user organizationID
  | .getDeploymentRevisionsForDashboard organizationID =>
    getDeploymentRevisionsForDashboard user organizationID
  | .getUsageForDashboard organizationID => getUsageForDashboard user organizationID
  | .getContext => getContextHandler env user

/-- A request whose token carries an e-mail address, or no valid token. -/
def serve (email : Option String) (route : Route) : Api Unit := do
  match email with
  | none => respond 401 (.text "Unauthorized")
  | some email =>
    match ← getUserByEmailOrCreate env .pool email with
    | .error .notFound => respond 401 (.text "Unauthorized")
    | .error _ => internalServerError
    | .ok user => handle rt env user route

end

/-! ## The gateway webhook -/

structure WebhookPayload where
  subjectEmail : String
  mcpSessionID : String
  startedAt : Time
  duration : Duration
  authTokenDigest : String
  mcpRequest : Option Request
  mcpResponse : Option Response
  userAgent : String
  httpStatusCode : ℤ
  httpError : String

def mcpLogEntry (payload : WebhookPayload) (deploymentRevisionID : UUID) (user : UserAccount) :
    MCPServerLogRow5 where
  userAccountID := some user.id
  mcpSessionID := some payload.mcpSessionID
  startedAt := payload.startedAt
  duration := payload.duration
  deploymentRevisionID := deploymentRevisionID
  authTokenDigest := some payload.authTokenDigest
  mcpRequest := payload.mcpRequest
  mcpResponse := payload.mcpResponse
  userAgent := some payload.userAgent
  httpStatusCode := some payload.httpStatusCode
  httpError := some payload.httpError

def gatewayWebhook (env : Env) (deploymentRevisionID : Param UUID)
    (body : Option WebhookPayload) : Api Unit := do
  match body with
  | none => respond 400 (.text "invalid JSON")
  | some payload =>
    match deploymentRevisionID with
    | .value id =>
      match ← getUserByEmail env .pool payload.subjectEmail with
      | .error _ => return
      | .ok user =>
        match ← createMCPServerLog env .pool (mcpLogEntry payload id user) with
        | .error .notFound => respond 400 (.text "Bad Request")
        | .error _ => respond 500 (.text "query MCPServerLog failed")
        | .ok _ => return
    | _ => respond 400 (.text "deploymentRevisionID must be a UUID")

def unrequestedPayload : WebhookPayload where
  subjectEmail := "ada@acme.com"
  mcpSessionID := "s1"
  startedAt := 5000
  duration := 1000
  authTokenDigest := ""
  mcpRequest := none
  mcpResponse := some ⟨some (.object []), none⟩
  userAgent := "cursor"
  httpStatusCode := 200
  httpError := ""

/-- The webhook stores it, and the analytics of its project panic from then on. -/
theorem unrequested_log_panics :
    ((getAllLogsWithComparison Env.demo .pool 9000 3 0).run backend ()
      (fun _ => false) ((gatewayWebhook Env.demo (.value 5) (some unrequestedPayload)).run backend
        () (fun _ => false) { db := GatewayConfig.demoDb, next := 6, ext := fun _ => none } {}).2.1
          {}).1.map (fun periods => (aggregateLogsToAnalyticsWithComparison Runtime.stable Env.demo
            periods.1 periods.2).isOk) = .ok false := by
  decide

end Jetski.Routes
