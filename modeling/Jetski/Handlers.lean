import Jetski.Analytics
import Jetski.Database
import Jetski.Validation

/-!
# API handlers

Each route is a program of its user and its request. Path and query parameters
are missing, malformed or parsed; a body that does not decode is missing. The
two access checks of organizations and projects come first and answer the
request themselves when they fail.
-/

set_option autoImplicit false

namespace Jetski.Handlers

open Relational Schema Jetski.Types Database Validation Analytics

def respond (status : ℕ) (body : Body) : Api Unit := (Action.emit (.response status body)).lift

/-- `Time.MarshalJSON` has a text for the years from 0 to 9999. -/
def marshalTime (t : Time) : Bool :=
  -62167219200000000000 ≤ t ∧ t < 253402300800000000000

/-- `RespondJSON`, given the times of the value that callers of the API or the
webhook have sent. The times that the database has set can always be encoded. -/
def respondJSON (body : Body) (sent : List Time := []) : Api Unit :=
  if sent.all marshalTime then respond 200 body else respond 500 .empty

/-- `HandleInternalServerError` -/
def internalServerError : Api Unit := respond 500 (.text "Internal Server Error")

def badRequest : Api Unit := respond 400 (.text "Bad Request")

def handle4XXErrorWithStatusText (status : ℕ) (statusText : String) : Api Unit :=
  respond status (.text statusText)

def respondOr {β : Type} (r : Except DbError β) (body : β → Body)
    (sent : β → List Time := fun _ => []) : Api Unit :=
  match r with
  | .error _ => internalServerError
  | .ok b => respondJSON (body b) (sent b)

def validate (r : Except String Unit) : Api Bool :=
  match r with
  | .error e => do
    respond 400 (.text e)
    return false
  | .ok () => return true

/-- A response is the value, or an error without a body if the value has no JSON text. -/
theorem respondJSON_cases (body : Body) (sent : List Time) :
    respondJSON body sent = respond 200 body ∨ respondJSON body sent = respond 500 .empty := by
  rw [respondJSON]
  by_cases h : sent.all marshalTime
  · exact Or.inl (if_pos h)
  · exact Or.inr (if_neg h)

structure ProjectRequest where
  name : String
  organizationID : UUID
  proxyURL : Option String
  telemetry : Option Bool
  authenticated : Option Bool
  deriving DecidableEq, Repr

structure SettingsRequest where
  ociURL : Option String
  port : Option ℤ
  authenticated : Bool
  telemetry : Bool
  proxyURL : Option String
  deriving DecidableEq, Repr

structure OrganizationSettingsRequest where
  customDomain : Option String
  authorization : Option OrganizationAuthorizationSettings
  deriving DecidableEq, Repr

structure ListRequest where
  count : Param Int64
  page : Param Int64
  sortBy : String
  sortOrder : String
  id : Param UUID
  mcpSessionID : String

section
variable (env : Env) (user : UserAccount)

/-! ## Access -/

/-- `getProjectIDIfAllowed`, with zero for the nil UUID. -/
def getProjectIDIfAllowed (projectID : Param UUID) : Api UUID := do
  match projectID with
  | .absent => return 0
  | .invalid =>
    handle4XXErrorWithStatusText 400 "invalid projectId"
    return 0
  | .value projectID =>
    match ← canUserAccessProject .pool user.id projectID with
    | .error _ =>
      internalServerError
      return 0
    | .ok false =>
      respond 404 (.text "Not Found")
      return 0
    | .ok true => return projectID

def getOrganizationIfAllowed (organizationID : Param UUID) : Api (Option Organization) := do
  match organizationID with
  | .absent => return none
  | .invalid =>
    handle4XXErrorWithStatusText 400 "invalid organizationId"
    return none
  | .value orgID =>
    match ← isUserPartOfOrg .pool user.id orgID with
    | .error _ =>
      internalServerError
      return none
    | .ok (false, _) =>
      respond 404 (.text "Not Found")
      return none
    | .ok (true, org) => return some org

def getUserID (userID : Param UUID) : Api UUID := do
  match userID with
  | .absent => return 0
  | .invalid =>
    handle4XXErrorWithStatusText 400 "invalid userId"
    return 0
  | .value userID => return userID

def withProject (projectID : Param UUID) (f : UUID → Api Unit) : Api Unit := do
  let projectID ← getProjectIDIfAllowed user projectID
  if projectID = 0 then return else f projectID

def withOrganization (organizationID : Param UUID) (f : Organization → Api Unit) : Api Unit := do
  match ← getOrganizationIfAllowed user organizationID with
  | none => return
  | some org => f org

/-! ## Organizations -/

def getOrganizations : Api Unit := do
  respondOr (← getOrganizationsOfUser env .pool user.id) .organizations

def postOrganizationHandler (name : Option String) : Api Unit := do
  match name with
  | none => badRequest
  | some name =>
    let name := trimSpace name
    if ← validate (validateName name) then
      match ← createOrganization .pool name with
      | .error .alreadyExists =>
        handle4XXErrorWithStatusText 400
          "An organization with this name already exists. Please choose another name."
      | .error _ => internalServerError
      | .ok org =>
        match ← addUserToOrganization .pool user.id org.id with
        | .error _ => internalServerError
        | .ok () => respondJSON (.organization org)

def getOrganizationMembers (organizationID : Param UUID) : Api Unit :=
  withOrganization user organizationID fun org => do
    respondOr (← Database.getOrganizationMembers .pool org.id) .users

def requestedDomain (org : Organization) (request : OrganizationSettingsRequest) :
    Except String (Option String) :=
  match request.customDomain with
  | none => .ok org.settings.customDomain
  | some domain =>
    if domain = "" then .ok none else (validateDomainName domain).map (fun _ => some domain)

def requestedSettings (org : Organization) (request : OrganizationSettingsRequest) :
    Except String Organization :=
  (requestedDomain org request).map (fun customDomain => { org with settings := {
    customDomain := customDomain
    authorization := request.authorization.getD org.settings.authorization } })

def putOrganizationHandler (organizationID : Param UUID)
    (body : Option OrganizationSettingsRequest) : Api Unit :=
  withOrganization user organizationID fun org => do
    match body with
    | none => badRequest
    | some request =>
      match requestedSettings org request with
      | .error e => respond 400 (.text e)
      | .ok org =>
        let updateNeeded := request.customDomain.isSome || request.authorization.isSome
        match ← (if updateNeeded then updateOrganization .pool org else pure (.ok org)) with
        | .error _ => internalServerError
        | .ok org =>
          let _ ← applyGateway env .pool org
          respondJSON (.organization org)

def putOrganizationMember (organizationID : Param UUID) (email : Option String) : Api Unit :=
  withOrganization user organizationID fun org => do
    match email with
    | none => badRequest
    | some email =>
      let r ← runTx .pool fun tx => do
        match ← getUserByEmailOrCreate env tx (trimSpace email) with
        | .error e => return .error e
        | .ok member =>
          match ← addUserToOrganization tx member.id org.id with
          | .error .alreadyExists => return .ok member
          | .error e => return .error e
          | .ok () => return .ok member
      match r with
      | .error _ => internalServerError
      | .ok member =>
        (Action.emit (.mail member org)).lift
        respondJSON (.user member)

def deleteOrganizationMember (organizationID userID : Param UUID) : Api Unit :=
  withOrganization user organizationID fun org => do
    let toBeRemovedID ← getUserID userID
    if toBeRemovedID = 0 then return
    else if user.id = toBeRemovedID then
      handle4XXErrorWithStatusText 400 "You cannot remove yourself from the organization."
    else
      match ← removeUserFromOrganization .pool toBeRemovedID org.id with
      | .error _ => internalServerError
      | .ok () => respond 202 .empty

/-! ## Projects -/

def getProjects : Api Unit := do
  respondOr (← getProjectsForUser env .pool user.id) .projects

def firstRevision (projectReq : ProjectRequest) (projectID : UUID) (proxyURL : String) :
    Queries.NewRevision where
  projectID := projectID
  createdBy := user.id
  proxyURL := some proxyURL
  authenticated := projectReq.authenticated.getD true
  telemetry := projectReq.telemetry.getD false
  port := none
  ociURL := none

def postProjectHandler (body : Option ProjectRequest) : Api Unit := do
  match body with
  | none => badRequest
  | some projectReq =>
    if ← validate (validateName projectReq.name) then
      match ← isUserPartOfOrg .pool user.id projectReq.organizationID with
      | .error _ => internalServerError
      | .ok (false, _) => badRequest
      | .ok (true, org) =>
        let r ← runTx .pool fun tx => do
          match ← createProject tx projectReq.organizationID user.id projectReq.name with
          | .error e => return .error e
          | .ok project =>
            match projectReq.proxyURL with
            | none => return .ok project
            | some proxyURL =>
              match ← createDeploymentRevision tx
                  (firstRevision user projectReq project.id proxyURL) with
              | .error e => return .error e
              | .ok _ => return .ok project
        match r with
        | .error _ => internalServerError
        | .ok project =>
          if projectReq.proxyURL.isSome then
            let _ ← applyGateway env .pool org
          respondJSON (.project project)

def getProjectSummary (projectID : Param UUID) : Api Unit :=
  withProject user projectID fun projectID => do
    respondOr (← Database.getProjectSummary .pool projectID) .summary

def deleteProjectHandler (projectID : Param UUID) : Api Unit :=
  withProject user projectID fun projectID => do
    match ← Database.getProjectSummary .pool projectID with
    | .error .notFound => handle4XXErrorWithStatusText 404 "project not found"
    | .error _ => internalServerError
    | .ok project =>
      match ← deleteProject .pool projectID with
      | .error _ => internalServerError
      | .ok () =>
        let _ ← applyGateway env .pool project.organization
        respond 204 .empty

def getProjectStatusHandler (projectID : Param UUID) : Api Unit :=
  withProject user projectID fun projectID => do
    match ← Database.getProjectSummary .pool projectID with
    | .error .notFound => handle4XXErrorWithStatusText 404 "project not found"
    | .error _ => internalServerError
    | .ok project =>
      match env.probe (project.getMCPURL env) with
      | .error e => respondJSON (.status project false ("HTTP error: "++e))
      | .ok (code, status) =>
        if code = 401 ∨ code = 406 then respondJSON (.status project true "")
        else respondJSON (.status project false ("unexpected HTTP status: "++status))

/-! ## Settings -/

/-- The checks that a settings request must pass before its project is looked at. -/
def checkSettings (req : SettingsRequest) : Except String Unit :=
  match req.ociURL, req.proxyURL with
  | some _, some _ => .error "Proxy URL not allowed if OCI URL is set"
  | some _, none =>
    if req.port.isNone then .error "Port is required if OCI URL is set" else .ok ()
  | none, some proxyURL =>
    if req.port.isSome then .error "Port is not allowed if proxy URL is set"
    else
      match env.parse proxyURL with
      | none => .error "Invalid proxy URL format"
      | some u =>
        if u.scheme = "" ∨ u.host = "" then .error "Invalid proxy URL format" else .ok ()
  | none, none => .ok ()

/-- The new revision: fields that the request omits are those of the latest one. -/
def mergeSettings (req : SettingsRequest) (projectID : UUID) (latest : Option DeploymentRevision) :
    Queries.NewRevision where
  projectID := projectID
  createdBy := user.id
  authenticated := req.authenticated
  telemetry := req.telemetry
  ociURL := if req.ociURL.isSome then req.ociURL else latest.bind (fun dr => dr.ociURL)
  port := if req.port.isSome then req.port else latest.bind (fun dr => dr.port)
  proxyURL := if req.proxyURL.isSome then req.proxyURL else latest.bind (fun dr => dr.proxyURL)

def saveSettings (req : SettingsRequest) (projectID : UUID) (tx : Handle) :
    Api (Except DbError Unit) := do
  match ← Database.getProjectSummary tx projectID with
  | .error e => return .error e
  | .ok ps =>
    let dr := mergeSettings user req projectID ps.latestDeploymentRevision
    if dr.ociURL = none ∧ dr.proxyURL = none then
      handle4XXErrorWithStatusText 400 "One of Proxy URL and OCI URL is required"
      return .ok ()
    else
      match ← createDeploymentRevision tx dr with
      | .error e => return .error e
      | .ok dr =>
        let event ← (if dr.ociURL.isSome then addDeploymentRevisionEvent tx dr.id .progressing none
          else pure (.ok ()))
        match event with
        | .error e => return .error e
        | .ok () =>
          let _ ← applyGateway env tx ps.organization
          respondJSON (.summary { ps with
            latestDeploymentRevisionID := some dr.id
            latestDeploymentRevision := some dr })
          return .ok ()

def putProjectSettings (projectID : Param UUID) (body : Option SettingsRequest) : Api Unit := do
  match body with
  | none => badRequest
  | some req =>
    if ← validate (checkSettings env req) then
      withProject user projectID fun projectID => do
        match ← runTx .pool (saveSettings env user req projectID) with
        | .error _ => internalServerError
        | .ok () => return

/-! ## Lists and analytics -/

def getDeploymentRevisionsForProject (projectID : Param UUID) : Api Unit :=
  withProject user projectID fun projectID => do
    respondOr (← Database.getDeploymentRevisionsForProject .pool projectID) .revisions

def sessionFilter (mcpSessionID : String) : Option String :=
  if mcpSessionID = "" then none else some mcpSessionID

def getLogsForProject (projectID : Param UUID) (req : ListRequest) : Api Unit :=
  withProject user projectID fun projectID => do
    match parsePaginationOrDefault req.count req.page ⟨10, 0⟩ with
    | none => respond 400 (.text "invalid parameter")
    | some pagination =>
      let sorting := parseSortingOrDefault env trimSpace req.sortBy req.sortOrder
        ⟨"started_at", .desc, ["started_at", "duration", "http_status_code"]⟩
      let list := fun id => do
        respondOr (← Database.getLogsForProject env .pool projectID pagination sorting id
          (sessionFilter req.mcpSessionID)) .logs (fun ls => ls.map (fun l => l.startedAt))
      match req.id with
      | .invalid => respond 400 (.text "invalid UUID")
      | .absent => list none
      | .value id => list (some id)

def getPromptsForProject (projectID : Param UUID) (req : ListRequest) : Api Unit :=
  withProject user projectID fun projectID => do
    match parsePaginationOrDefault req.count req.page ⟨10, 0⟩ with
    | none => respond 400 (.text "invalid parameter")
    | some pagination =>
      let sorting := parseSortingOrDefault env trimSpace req.sortBy req.sortOrder
        ⟨"started_at", .desc, ["started_at", "tool_name", "prompt"]⟩
      respondOr (← Database.getPromptsForProject env .pool projectID pagination sorting
        (sessionFilter req.mcpSessionID)) .prompts (fun ps => ps.map (fun p => p.startedAt))

/-- The logs since the start, and those of the period of equal length before it. -/
def splitPeriods (now startAt : Time) (logs : List MCPServerLog) :
    List MCPServerLog × List MCPServerLog :=
  let previousStart := startAt+(-timeSub now startAt).toInt
  (logs.filter (fun log => startAt ≤ log.startedAt),
    logs.filter (fun log => log.startedAt < startAt ∧ previousStart ≤ log.startedAt))

/-- `getAllLogsWithComparison` -/
def getAllLogsWithComparison (db : Handle) (now : Time) (projectID : UUID) (startAt : Time) :
    Api (Except DbError (List MCPServerLog × List MCPServerLog)) := do
  match ← Database.getLogsForProject env db projectID ⟨1000000, 0⟩ ⟨"started_at", .asc⟩ none
      none with
  | .error e => return .error e
  | .ok logs => return .ok (splitPeriods now startAt logs)

/-- The start of the year one, in nanoseconds since the epoch. -/
def zeroTime : Time := -62135596800000000000

/-- `time.Unix` of a number of seconds, which are counted from the year one and wrap. -/
def unix (seconds : Int64) : Time := ((seconds+62135596800).toInt-62135596800)*1000000000

def sessionTimes (analytics : ProjectAnalytics) : List Time :=
  analytics.recentSessions.flatMap (fun session => [session.startedAt, session.endedAt])

/-- A panic of the aggregation is answered by the recoverer. -/
def respondAnalytics (rt : Runtime)
    (periods : Except DbError (List MCPServerLog × List MCPServerLog)) : Api Unit :=
  match periods with
  | .error _ => internalServerError
  | .ok (current, previous) =>
    match aggregateLogsToAnalyticsWithComparison rt env current previous with
    | .error _ => respond 500 .empty
    | .ok analytics => respondJSON (.analytics current previous) (sessionTimes analytics)

def getAnalytics (rt : Runtime) (now : Time) (projectID : Param UUID) (startedAt : Param Int64) :
    Api Unit :=
  withProject user projectID fun projectID => do
    let analyze := fun startAt => do
      respondAnalytics env rt (← getAllLogsWithComparison env .pool now projectID startAt)
    match startedAt with
    | .absent => analyze zeroTime
    | .invalid => handle4XXErrorWithStatusText 400 "invalid startedAt timestamp"
    | .value seconds => analyze (unix seconds)

/-! ## Dashboard and context -/

def getProjectsForDashboard (organizationID : Param UUID) : Api Unit :=
  withOrganization user organizationID fun org => do
    respondOr (← getProjectSummaries env .pool org.id) .summaries

def getDeploymentRevisionsForDashboard (organizationID : Param UUID) : Api Unit :=
  withOrganization user organizationID fun org => do
    respondOr (← getRecentDeploymentRevisionSummaries .pool org.id) .revisions

def getUsageForDashboard (organizationID : Param UUID) : Api Unit :=
  withOrganization user organizationID fun org => do
    respondOr (← getUsage .pool org.id) .usage

def getContextHandler : Api Unit := do
  match ← getOrganizationsOfUser env .pool user.id with
  | .error _ => internalServerError
  | .ok orgs =>
    match ← getProjectsForUser env .pool user.id with
    | .error _ => internalServerError
    | .ok projects => respondJSON (.context user orgs projects)

end
end Jetski.Handlers
