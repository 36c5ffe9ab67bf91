import Jetski.Types

/-!
# Gateway resources

One MCPGateway describes the gateway of an organization. It is applied as a
configuration with optional fields, admitted by the resource definition of the
cluster, read back by the sync webhook as a plain object, and turned into the
configuration file and the Ingress of the gateway.
-/

set_option autoImplicit false

namespace Jetski.Gateway

open Schema Jetski.Types

/-! ## Apply configurations -/

structure ProjectSpecApplyConfiguration where
  projectID : Option String
  projectName : Option String
  deploymentRevisionID : Option String
  authenticated : Option Bool
  telemetry : Option Bool
  proxyURL : Option String
  deriving DecidableEq, Repr

structure MCPGatewaySpecApplyConfiguration where
  organizationID : Option String
  organizationName : Option String
  customDomain : Option String
  /-- `authorization.dynamicClientRegistration.publicClient` -/
  publicClient : Option Bool
  projects : List ProjectSpecApplyConfiguration
  deriving DecidableEq, Repr

def uuidString (id : UUID) : String := toString id

/-- A project without a latest revision is skipped. Its foreign key gives the
latest revision of every other project. -/
def projectSpec (ps : ProjectSummary) : Option ProjectSpecApplyConfiguration := do
  let _ ← ps.latestDeploymentRevisionID
  let dr ← ps.latestDeploymentRevision
  return {
    projectID := some (uuidString ps.id)
    projectName := some ps.name
    deploymentRevisionID := some (uuidString dr.id)
    authenticated := some dr.authenticated
    telemetry := some dr.telemetry
    proxyURL := dr.proxyURL }

def gatewaySpec (org : Organization) (pss : List ProjectSummary) :
    MCPGatewaySpecApplyConfiguration where
  organizationID := some (uuidString org.id)
  organizationName := some org.name
  customDomain := org.settings.customDomain
  publicClient := some org.settings.authorization.dcrPublicClient
  projects := pss.filterMap projectSpec

def omitEmpty (fields : List (String × Option Json)) : Json :=
  .object (fields.filterMap (fun f => f.2.map (fun j => (f.1, j))))

def ProjectSpecApplyConfiguration.json (p : ProjectSpecApplyConfiguration) : Json :=
  omitEmpty [
    ("projectId", p.projectID.map .string),
    ("projectName", p.projectName.map .string),
    ("deploymentRevisionId", p.deploymentRevisionID.map .string),
    ("authenticationEnabled", p.authenticated.map .bool),
    ("telemetryEnabled", p.telemetry.map .bool),
    ("proxyUrl", p.proxyURL.map .string)]

def MCPGatewaySpecApplyConfiguration.json (s : MCPGatewaySpecApplyConfiguration) : Json :=
  omitEmpty [
    ("organizationId", s.organizationID.map .string),
    ("organizationName", s.organizationName.map .string),
    ("customDomain", s.customDomain.map .string),
    ("authorization", some (omitEmpty [("dynamicClientRegistration",
      some (omitEmpty [("publicClient", s.publicClient.map .bool)]))])),
    ("projects", if s.projects = [] then none
      else some (.array (s.projects.map (fun p => p.json))))]

/-! ## Admission by the resource definition -/

inductive OpenAPI where
  | string
  | boolean
  | array (items : OpenAPI)
  | object (properties : List (String × OpenAPI)) (required : List String)

mutual

/-- Checks types and required fields and drops fields without a schema. -/
def OpenAPI.accept : OpenAPI → Json → Option Json
  | .string, .string s => some (.string s)
  | .boolean, .bool b => some (.bool b)
  | .array items, .array js => (js.mapM (fun j => items.accept j)).map .array
  | .object properties required, .object fields =>
    if required.all (fun name => (field fields name).isSome) then
      (OpenAPI.acceptFields properties fields).map .object
    else none
  | _, _ => none

def OpenAPI.acceptFields : List (String × OpenAPI) → List (String × Json) →
    Option (List (String × Json))
  | [], _ => some []
  | (name, s)::properties, fields => do
    let rest ← OpenAPI.acceptFields properties fields
    match field fields name with
    | none => return rest
    | some j =>
      let j' ← s.accept j
      return (name, j')::rest

end

def projectSchema : OpenAPI :=
  .object [("authenticationEnabled", .boolean), ("deploymentRevisionId", .string),
    ("projectId", .string), ("projectName", .string), ("proxyUrl", .string),
    ("telemetryEnabled", .boolean)]
    ["authenticationEnabled", "deploymentRevisionId", "projectId", "projectName",
      "telemetryEnabled"]

/-- `jetski.sh_mcpgateways.yaml` -/
def specSchema : OpenAPI :=
  .object [("authorization", .object [("dynamicClientRegistration",
      .object [("publicClient", .boolean)] [])] []),
    ("customDomain", .string), ("organizationId", .string), ("organizationName", .string),
    ("projects", .array projectSchema)]
    ["organizationId", "organizationName"]

/-! ## The stored object -/

structure ProjectSpec where
  projectID : String
  projectName : String
  deploymentRevisionID : String
  authenticated : Bool
  telemetry : Bool
  proxyURL : Option String
  deriving DecidableEq, Repr

structure MCPGatewaySpec where
  organizationID : String
  organizationName : String
  customDomain : Option String
  publicClient : Bool
  projects : List ProjectSpec
  deriving DecidableEq, Repr

/-! A missing or null field leaves the zero value. -/

def fieldOf (j : Json) (name : String) : Option Json :=
  match j with
  | .object fields => field fields name
  | _ => none

def decodeString (j : Json) (name : String) : Option String :=
  match fieldOf j name with
  | none | some .null => some ""
  | some (.string s) => some s
  | _ => none

def decodeStringPtr (j : Json) (name : String) : Option (Option String) :=
  match fieldOf j name with
  | none | some .null => some none
  | some (.string s) => some (some s)
  | _ => none

def decodeBool (j : Json) (name : String) : Option Bool :=
  match fieldOf j name with
  | none | some .null => some false
  | some (.bool b) => some b
  | _ => none

def decodeProjectSpec (j : Json) : Option ProjectSpec := do
  return {
    projectID := ← decodeString j "projectId"
    projectName := ← decodeString j "projectName"
    deploymentRevisionID := ← decodeString j "deploymentRevisionId"
    authenticated := ← decodeBool j "authenticationEnabled"
    telemetry := ← decodeBool j "telemetryEnabled"
    proxyURL := ← decodeStringPtr j "proxyUrl" }

def decodeProjects (j : Json) : Option (List ProjectSpec) :=
  match fieldOf j "projects" with
  | none | some .null => some []
  | some (.array js) => js.mapM decodeProjectSpec
  | _ => none

def decodePublicClient (j : Json) : Option Bool :=
  let authorization := (fieldOf j "authorization").getD (.object [])
  let registration := (fieldOf authorization "dynamicClientRegistration").getD (.object [])
  decodeBool registration "publicClient"

def decodeSpec (j : Json) : Option MCPGatewaySpec := do
  return {
    organizationID := ← decodeString j "organizationId"
    organizationName := ← decodeString j "organizationName"
    customDomain := ← decodeStringPtr j "customDomain"
    publicClient := ← decodePublicClient j
    projects := ← decodeProjects j }

/-- The object that the cluster serves once a configuration was applied. -/
def served (s : MCPGatewaySpecApplyConfiguration) : Option MCPGatewaySpec :=
  (specSchema.accept s.json).bind decodeSpec

/-! ## What is served for an organization -/

def deployedProject (ps : ProjectSummary) : Option ProjectSpec := do
  let _ ← ps.latestDeploymentRevisionID
  let dr ← ps.latestDeploymentRevision
  return {
    projectID := uuidString ps.id
    projectName := ps.name
    deploymentRevisionID := uuidString dr.id
    authenticated := dr.authenticated
    telemetry := dr.telemetry
    proxyURL := dr.proxyURL }

def deployedSpec (org : Organization) (pss : List ProjectSummary) : MCPGatewaySpec where
  organizationID := uuidString org.id
  organizationName := org.name
  customDomain := org.settings.customDomain
  publicClient := org.settings.authorization.dcrPublicClient
  projects := pss.filterMap deployedProject

def ProjectSpec.apply (p : ProjectSpec) : ProjectSpecApplyConfiguration where
  projectID := some p.projectID
  projectName := some p.projectName
  deploymentRevisionID := some p.deploymentRevisionID
  authenticated := some p.authenticated
  telemetry := some p.telemetry
  proxyURL := p.proxyURL

def MCPGatewaySpec.apply (s : MCPGatewaySpec) : MCPGatewaySpecApplyConfiguration where
  organizationID := some s.organizationID
  organizationName := some s.organizationName
  customDomain := s.customDomain
  publicClient := some s.publicClient
  projects := s.projects.map (fun p => p.apply)

theorem projectSpec_eq (ps : ProjectSummary) :
    projectSpec ps = (deployedProject ps).map (fun p => p.apply) := by
  simp only [projectSpec, deployedProject]
  cases ps.latestDeploymentRevisionID with
  | none => rfl
  | some id => cases ps.latestDeploymentRevision <;> rfl

theorem gatewaySpec_eq (org : Organization) (pss : List ProjectSummary) :
    gatewaySpec org pss = (deployedSpec org pss).apply := by
  simp only [gatewaySpec, deployedSpec, MCPGatewaySpec.apply, List.map_filterMap,
    MCPGatewaySpecApplyConfiguration.mk.injEq, true_and]
  exact List.filterMap_congr (fun ps _ => projectSpec_eq ps)

theorem project_admitted (p : ProjectSpec) :
    (projectSchema.accept p.apply.json).bind decodeProjectSpec = some p := by
  obtain ⟨id, name, revision, authenticated, telemetry, proxyURL⟩ := p
  cases proxyURL <;> rfl

theorem projects_admitted (ps : List ProjectSpec) :
    ((ps.map (fun p => p.apply.json)).mapM (fun j => projectSchema.accept j)).bind
      (fun js => js.mapM decodeProjectSpec) = some ps := by
  induction ps with
  | nil => rfl
  | cons p ps ih =>
    have hp := project_admitted p
    simp only [List.map_cons, List.mapM_cons]
    cases hj : projectSchema.accept p.apply.json with
    | none => simp [hj] at hp
    | some j =>
      cases hjs : (ps.map (fun p => p.apply.json)).mapM (fun j => projectSchema.accept j) with
      | none => simp [hjs] at ih
      | some js =>
        simp only [hj, Option.bind_some] at hp
        simp only [hjs, Option.bind_some] at ih
        simp [hp, ih]

theorem served_apply (s : MCPGatewaySpec) : served s.apply = some s := by
  obtain ⟨id, name, domain, client, ps⟩ := s
  have hps := projects_admitted ps
  cases hjs : (ps.map (fun p => p.apply.json)).mapM (fun j => projectSchema.accept j) with
  | none => simp [hjs] at hps
  | some js =>
    rw [hjs, Option.bind_some] at hps
    cases ps with
    | nil => cases domain <;> rfl
    | cons p ps =>
      have haccept : (OpenAPI.array projectSchema).accept
          (.array ((p::ps).map (fun p => p.apply.json))) = some (.array js) := by
        rw [OpenAPI.accept, hjs]
        rfl
      rw [served, specSchema, MCPGatewaySpecApplyConfiguration.json]
      simp only [MCPGatewaySpec.apply, List.map_map, Function.comp_def]
      rw [List.map_cons] at haccept
      generalize OpenAPI.array projectSchema = items at haccept ⊢
      cases domain <;>
        simp [OpenAPI.accept, OpenAPI.acceptFields, omitEmpty, field, List.lookup_cons, haccept,
          decodeSpec, decodeString, decodeStringPtr, decodePublicClient, decodeProjects,
          decodeBool, fieldOf, hps]

/-- Admission and decoding lose nothing of what is applied for an organization. -/
theorem served_gatewaySpec (org : Organization) (pss : List ProjectSummary) :
    served (gatewaySpec org pss) = some (deployedSpec org pss) := by
  rw [gatewaySpec_eq, served_apply]

end Jetski.Gateway
