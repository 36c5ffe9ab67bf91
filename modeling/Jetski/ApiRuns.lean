import Jetski.Reachability
import Jetski.Routes

/-!
# Runs of the API

Every route and the gateway webhook use the database only through its
functions, so whatever any number of concurrent requests leave behind is
reachable.
-/

set_option autoImplicit false

namespace Jetski.ApiRuns

open Relational Schema Jetski.Types Database Handlers Reachability Routes

section
variable (env : Env) (T : Table → Prop) {K : KubeCall → Prop} (user : UserAccount)

/-! ## Building blocks -/

theorem built_respond (status : ℕ) (body : Body) : Built env T K (respond status body) := .emit _

theorem built_respondJSON (body : Body) (sent : List Time) :
    Built env T K (respondJSON body sent) := by
  rcases respondJSON_cases body sent with h | h
  · exact h ▸ built_respond env T _ _
  · exact h ▸ built_respond env T _ _

theorem built_respondOr {β : Type} (r : Except DbError β) (body : β → Body)
    (sent : β → List Time) : Built env T K (respondOr r body sent) := by
  cases r with
  | error e => exact built_respond env T _ _
  | ok b => exact built_respondJSON env T _ _

theorem built_mapError {β : Type} (p : Api (Except DbError β)) (f : DbError → DbError)
    (h : Built env T K p) : Built env T K (show Api (Except DbError β) from do
      let r ← p
      return r.mapError f) :=
  .bind h fun r => .ret (r.mapError f)

/-- A query whose result answers the request. -/
theorem built_answer {β : Type} (name : Stmt) (rows : Db → Except DbError β) (body : β → Body)
    (sent : β → List Time) : Built env T K (show Api Unit from do
      respondOr (← query name .pool (Queries.select rows)) body sent) :=
  .bind (.select _ _ _) fun r => built_respondOr env T r body sent

theorem built_validate (r : Except String Unit) : Built env T K (validate r) := by
  cases r with
  | error e => exact .bind (built_respond env T _ _) fun _ => .ret false
  | ok _ => exact .ret true

theorem built_withProject (projectID : Param UUID) (f : UUID → Api Unit)
    (h : ∀ id, Built env T K (f id)) : Built env T K (withProject user projectID f) := by
  refine .bind ?_ fun id => ?_
  · cases projectID with
    | absent => exact .ret 0
    | invalid => exact .bind (built_respond env T _ _) fun _ => .ret 0
    | value id =>
      refine .bind (.select _ _ _) fun r => ?_
      match r with
      | .error _ | .ok false => exact .bind (built_respond env T _ _) fun _ => .ret 0
      | .ok true => exact .ret id
  · split
    · exact .ret ()
    · exact h id

theorem built_withOrganization (organizationID : Param UUID) (f : Organization → Api Unit)
    (h : ∀ org, Built env T K (f org)) :
    Built env T K (withOrganization user organizationID f) := by
  refine .bind ?_ fun org => ?_
  · cases organizationID with
    | absent => exact .ret none
    | invalid => exact .bind (built_respond env T _ _) fun _ => .ret none
    | value id =>
      refine .bind (.select _ _ _) fun r => ?_
      match r with
      | .error _ | .ok (false, _) => exact .bind (built_respond env T _ _) fun _ => .ret none
      | .ok (true, org) => exact .ret (some org)
  · cases org with
    | none => exact .ret ()
    | some org => exact h org

/-! ## Organizations -/

theorem built_postOrganization (ho : T .organization) (hm : T .organizationUserAccount)
    (name : Option String) :
    Built env T K (postOrganizationHandler user name) := by
  cases name with
  | none => exact built_respond env T _ _
  | some name =>
    refine .bind (built_validate env T _) fun valid => ?_
    cases valid with
    | false => exact .ret ()
    | true =>
      refine .bind (built_mapError env T _ _ (.createOrganization ho _ _)) fun r => ?_
      match r with
      | .error e => cases e <;> exact built_respond env T _ _
      | .ok org =>
        refine .bind (.addUserToOrganization hm _ _ _) fun r => ?_
        cases r <;> exact built_respond env T _ _

theorem built_putOrganization (ho : T .organization) (organizationID : Param UUID)
    (body : Option OrganizationSettingsRequest) :
    Built env T K (putOrganizationHandler env user organizationID body) := by
  refine built_withOrganization env T user organizationID _ fun org => ?_
  cases body with
  | none => exact built_respond env T _ _
  | some request =>
    dsimp only
    split
    · exact built_respond env T _ _
    · refine .bind ?_ fun r => ?_
      · split
        · exact built_mapError env T _ _ (.updateOrganization ho _ _)
        · exact .ret _
      · cases r with
        | error e => exact built_respond env T _ _
        | ok org => exact .bind (.applyGateway _ org) fun _ => built_respond env T _ _

theorem built_putOrganizationMember (hu : T .userAccount) (hm : T .organizationUserAccount)
    (organizationID : Param UUID) (email : Option String) :
    Built env T K (putOrganizationMember env user organizationID email) := by
  refine built_withOrganization env T user organizationID _ fun org => ?_
  cases email with
  | none => exact built_respond env T _ _
  | some email =>
    refine .bind (.runTx _ fun tx => ?_) fun r => ?_
    · refine .bind (built_mapError env T _ _ (.getUserByEmailOrCreate hu _ _)) fun r => ?_
      cases r with
      | error e => exact .ret _
      | ok member =>
        refine .bind (.addUserToOrganization hm _ _ _) fun r => ?_
        match r with
        | .error e => cases e <;> exact .ret _
        | .ok () => exact .ret _
    · cases r with
      | error e => exact built_respond env T _ _
      | ok member => exact .bind (.emit _) fun _ => built_respond env T _ _

theorem built_deleteOrganizationMember (hm : T .organizationUserAccount)
    (organizationID userID : Param UUID) :
    Built env T K (deleteOrganizationMember user organizationID userID) := by
  refine built_withOrganization env T user organizationID _ fun org => .bind ?_ fun id => ?_
  · cases userID with
    | absent => exact .ret 0
    | invalid => exact .bind (built_respond env T _ _) fun _ => .ret 0
    | value id => exact .ret id
  · split
    · exact .ret ()
    · split
      · exact built_respond env T _ _
      · refine .bind (.removeUserFromOrganization hm _ _ _) fun r => ?_
        cases r <;> exact built_respond env T _ _

/-! ## Projects -/

theorem built_postProject (hr : T .deploymentRevision) (hp : T .project)
    (body : Option ProjectRequest) :
    Built env T K (postProjectHandler env user body) := by
  cases body with
  | none => exact built_respond env T _ _
  | some projectReq =>
    refine .bind (built_validate env T _) fun valid => ?_
    cases valid with
    | false => exact .ret ()
    | true =>
      refine .bind (.select _ _ _) fun r => ?_
      match r with
      | .error _ | .ok (false, _) => exact built_respond env T _ _
      | .ok (true, org) =>
        refine .bind (.runTx _ fun tx => .bind (.createProject hp _ _ _ _) fun r => ?_) fun r => ?_
        · cases r with
          | error e => exact .ret _
          | ok project =>
            dsimp only
            split
            · exact .ret _
            · exact .bind (.createDeploymentRevision hr hp _ _) fun r => by cases r <;> exact .ret _
        · cases r with
          | error e => exact built_respond env T _ _
          | ok project =>
            dsimp only
            split
            · exact .bind (.applyGateway _ org) fun _ => built_respond env T _ _
            · exact built_respond env T _ _

theorem built_getProjectSummary (f : ProjectSummary → Api Unit) (hf : ∀ ps, Built env T K (f ps))
    (projectID : UUID) : Built env T K (show Api Unit from do
      match ← Database.getProjectSummary .pool projectID with
      | .error .notFound => handle4XXErrorWithStatusText 404 "project not found"
      | .error _ => internalServerError
      | .ok project => f project) := by
  refine .bind (.select _ _ _) fun r => ?_
  match r with
  | .error e => cases e <;> exact built_respond env T _ _
  | .ok ps => exact hf ps

theorem built_deleteProject (h : ∀ t ∈ ownedTables, T t) (projectID : Param UUID) :
    Built env T K (deleteProjectHandler env user projectID) := by
  refine built_withProject env T user projectID _ fun id =>
    built_getProjectSummary env T _ (fun ps => .bind (.bind (.deleteProject h _ _) fun r => ?_)
      fun r => ?_) id
  · cases r with
    | error e => exact .ret _
    | ok n =>
      dsimp only
      split <;> exact .ret _
  · match r with
    | .error _ => exact built_respond env T _ _
    | .ok () => exact .bind (.applyGateway _ _) fun _ => built_respond env T _ _

theorem built_getProjectStatus (projectID : Param UUID) :
    Built env T K (getProjectStatusHandler env user projectID) := by
  refine built_withProject env T user projectID _ fun id =>
    built_getProjectSummary env T _ (fun ps => ?_) id
  split
  · exact built_respond env T _ _
  · split <;> exact built_respond env T _ _

theorem built_saveSettings (hr : T .deploymentRevision) (he : T .deploymentRevisionEvent)
    (hp : T .project) (req : SettingsRequest) (projectID : UUID) (tx : Handle) :
    Built env T K (saveSettings env user req projectID tx) := by
  refine .bind (.select _ _ _) fun r => ?_
  cases r with
  | error e => exact .ret _
  | ok ps =>
    dsimp only
    split
    · exact .bind (built_respond env T _ _) fun _ => .ret _
    · refine .bind (.createDeploymentRevision hr hp _ _) fun r => ?_
      cases r with
      | error e => exact .ret _
      | ok dr =>
        refine .bind ?_ fun event => ?_
        · split
          · exact .addDeploymentRevisionEvent he hp _ _ _ _
          · exact .ret _
        · match event with
          | .error e => exact .ret _
          | .ok () =>
            exact .bind (.applyGateway tx _) fun _ =>
              .bind (built_respond env T _ _) fun _ => .ret _

theorem built_putProjectSettings (hr : T .deploymentRevision)
    (he : T .deploymentRevisionEvent) (hp : T .project) (projectID : Param UUID)
    (body : Option SettingsRequest) :
    Built env T K (putProjectSettings env user projectID body) := by
  cases body with
  | none => exact built_respond env T _ _
  | some req =>
    refine .bind (built_validate env T _) fun valid => ?_
    cases valid with
    | false => exact .ret ()
    | true =>
      refine built_withProject env T user projectID _ fun id =>
        .bind (.runTx _ fun tx => built_saveSettings env T user hr he hp req id tx) fun r => ?_
      match r with
      | .error _ => exact built_respond env T _ _
      | .ok () => exact .ret ()

theorem built_getLogsForProject (projectID : Param UUID) (req : ListRequest) :
    Built env T K (Handlers.getLogsForProject env user projectID req) := by
  refine built_withProject env T user projectID _ fun id => ?_
  split
  · exact built_respond env T _ _
  · split
    · exact built_respond env T _ _
    · exact built_answer env T _ _ _ _
    · exact built_answer env T _ _ _ _

theorem built_getPromptsForProject (projectID : Param UUID) (req : ListRequest) :
    Built env T K (Handlers.getPromptsForProject env user projectID req) := by
  refine built_withProject env T user projectID _ fun id => ?_
  split
  · exact built_respond env T _ _
  · exact built_answer env T _ _ _ _

theorem built_analyze (rt : Analytics.Runtime) (now startAt : Time) (projectID : UUID) :
    Built env T K (show Api Unit from do
      respondAnalytics env rt (← getAllLogsWithComparison env .pool now projectID startAt)) := by
  refine .bind (.bind (.select _ _ _) fun r => by cases r <;> exact .ret _) fun r => ?_
  cases r with
  | error e => exact built_respond env T _ _
  | ok periods =>
    rw [respondAnalytics]
    split
    · exact built_respond env T _ _
    · exact built_respondJSON env T _ _

theorem built_getAnalytics (rt : Analytics.Runtime) (now : Time) (projectID : Param UUID)
    (startedAt : Param Int64) :
    Built env T K (getAnalytics env user rt now projectID startedAt) := by
  refine built_withProject env T user projectID _ fun id => ?_
  cases startedAt with
  | absent => exact built_analyze env T rt now _ id
  | invalid => exact built_respond env T _ _
  | value seconds => exact built_analyze env T rt now _ id

/-! ## Requests -/

end

def tablesOf : Route → List Table
  | .postOrganization _ => [.organization, .organizationUserAccount]
  | .putOrganization _ _ => [.organization]
  | .putOrganizationMember _ _ => [.userAccount, .organizationUserAccount]
  | .deleteOrganizationMember _ _ => [.organizationUserAccount]
  | .postProject _ => [.deploymentRevision, .project]
  | .deleteProject _ => ownedTables
  | .putProjectSettings _ _ => [.deploymentRevision, .deploymentRevisionEvent, .project]
  | _ => []

section
variable (rt : Analytics.Runtime) (env : Env) (T : Table → Prop) {K : KubeCall → Prop}

theorem handle_built (user : UserAccount) (route : Route) (h : ∀ t ∈ tablesOf route, T t) :
    Built env T K (handle rt env user route) := by
  cases route with
  | getOrganizations => exact built_answer env T _ _ _ _
  | postOrganization name =>
    exact built_postOrganization env T user (h _ (by simp [tablesOf]))
      (h _ (by simp [tablesOf])) name
  | putOrganization organizationID body =>
    exact built_putOrganization env T user (h _ (by simp [tablesOf])) organizationID body
  | getOrganizationMembers organizationID =>
    exact built_withOrganization env T user organizationID _ fun _ => built_answer env T _ _ _ _
  | putOrganizationMember organizationID email =>
    exact built_putOrganizationMember env T user (h _ (by simp [tablesOf]))
      (h _ (by simp [tablesOf])) organizationID email
  | deleteOrganizationMember organizationID userID =>
    exact built_deleteOrganizationMember env T user (h _ (by simp [tablesOf])) organizationID userID
  | getProjects => exact built_answer env T _ _ _ _
  | postProject body =>
    exact built_postProject env T user (h _ (by simp [tablesOf])) (h _ (by simp [tablesOf])) body
  | getProjectSummary projectID =>
    exact built_withProject env T user projectID _ fun _ => built_answer env T _ _ _ _
  | deleteProject projectID => exact built_deleteProject env T user h projectID
  | getProjectStatus projectID => exact built_getProjectStatus env T user projectID
  | getLogsForProject projectID req => exact built_getLogsForProject env T user projectID req
  | getPromptsForProject projectID req => exact built_getPromptsForProject env T user projectID req
  | getDeploymentRevisionsForProject projectID =>
    exact built_withProject env T user projectID _ fun _ => built_answer env T _ _ _ _
  | getAnalytics now projectID startedAt =>
    exact built_getAnalytics env T user rt now projectID startedAt
  | putProjectSettings projectID body =>
    exact built_putProjectSettings env T user (h _ (by simp [tablesOf])) (h _ (by simp [tablesOf]))
      (h _ (by simp [tablesOf])) projectID body
  | getProjectsForDashboard organizationID =>
    exact built_withOrganization env T user organizationID _ fun _ => built_answer env T _ _ _ _
  | getDeploymentRevisionsForDashboard organizationID =>
    exact built_withOrganization env T user organizationID _ fun _ => built_answer env T _ _ _ _
  | getUsageForDashboard organizationID =>
    exact built_withOrganization env T user organizationID _ fun _ => built_answer env T _ _ _ _
  | getContext =>
    refine .bind (.select _ _ _) fun r => ?_
    cases r with
    | error e => exact built_respond env T _ _
    | ok orgs =>
      refine .bind (.select _ _ _) fun r => ?_
      cases r <;> exact built_respond env T _ _

theorem serve_built (hu : T .userAccount) (email : Option String) (route : Route)
    (h : ∀ t ∈ tablesOf route, T t) : Built env T K (serve rt env email route) := by
  cases email with
  | none => exact built_respond env T _ _
  | some email =>
    refine .bind (built_mapError env T _ _ (.getUserByEmailOrCreate hu _ _)) fun r => ?_
    match r with
    | .error e => cases e <;> exact built_respond env T _ _
    | .ok user => exact handle_built rt env T user route h

theorem built_createMCPServerLog (hl : T .mcpServerLog) (db : Handle) (data : MCPServerLogRow5) :
    Built env T K (createMCPServerLog env db data) := by
  refine .bind (.createMCPServerLog hl _ _) fun r => ?_
  cases r <;> exact .ret _

theorem gatewayWebhook_built (hl : T .mcpServerLog) (deploymentRevisionID : Param UUID)
    (body : Option WebhookPayload) :
    Built env T K (gatewayWebhook env deploymentRevisionID body) := by
  cases body with
  | none => exact built_respond env T _ _
  | some payload =>
    cases deploymentRevisionID with
    | absent | invalid => exact built_respond env T _ _
    | value id =>
      refine .bind (built_mapError env T _ _ (.select _ _ _)) fun r => ?_
      cases r with
      | error e => exact .ret ()
      | ok user =>
        refine .bind (built_createMCPServerLog env T hl _ _) fun r => ?_
        match r with
        | .error e => cases e <;> exact built_respond env T _ _
        | .ok _ => exact .ret ()

end

def demoServe (route : Route) : Api Unit :=
  serve Analytics.Runtime.stable Env.demo (some "ada@acme.com") route

def demoFounding : Route := .postOrganization (some "acme")

def demoOpening (proxyURL : String := "https://mcp.acme.dev/api") : Route :=
  .postProject (some ⟨"docs", 2, some proxyURL, none, none⟩)

def demoCreation {σ : Type} (i j : σ) : List (σ × Bool) :=
  List.replicate 4 (i, false)++List.replicate 12 (j, false)

/-- Concurrent requests and webhook calls leave a consistent database. -/
theorem api_consistent {σ : Type} [DecidableEq σ] (rt : Analytics.Runtime) (env : Env)
    (w₀ w : ApiWorld σ) (h₀ : Initial w₀)
    (hp : ∀ i, (∃ email route, w₀.prog i = serve rt env email route) ∨
      ∃ id body, w₀.prog i = gatewayWebhook env id body)
    (h : Run backend postgres w₀ w) : Consistent w.cfg.srv.db := by
  refine reachable_consistent env _ ⟨σ, inferInstance, w, ⟨w₀, h₀, fun i => ?_, h⟩, rfl⟩
  rcases hp i with ⟨email, route, hi⟩ | ⟨id, body, hi⟩
  · exact hi ▸ serve_built rt env _ trivial email route (fun _ _ => trivial)
  · exact hi ▸ gatewayWebhook_built env _ trivial id body

end Jetski.ApiRuns
