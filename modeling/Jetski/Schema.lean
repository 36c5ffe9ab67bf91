import Jetski.Relational.Constraints
import Jetski.Relational.CascadeOutcome

/-!
# The database schema

The tables of all migrations up to the newest one, with their unique and
foreign keys. A row holds the columns besides its primary key. Row identifiers
are numbers; zero is the nil UUID, which no generated identifier equals.
-/

set_option autoImplicit false

namespace Jetski.Schema

open Relational

abbrev UUID := ℕ
abbrev Time := ℤ
abbrev Duration := Int64

inductive Json where
  | null
  | bool (b : Bool)
  | number (text : String)
  | string (s : String)
  | array (items : List Json)
  | object (fields : List (String × Json))

/-- The value of a field; of fields with the same name the last one counts. -/
def field (fields : List (String × Json)) (name : String) : Option Json :=
  fields.reverse.lookup name

/-- `jsonrpc2.ID` -/
inductive RequestID where
  | num (n : UInt64)
  | str (s : String)

/-- `jsonrpc2.Request`. A notification has no identifier. -/
structure Request where
  method : String
  params : Option Json
  id : Option RequestID

structure RPCError where
  code : ℤ
  message : String
  data : Option Json

structure Response where
  result : Option Json
  error : Option RPCError

structure OrganizationAuthorizationSettings where
  dcrPublicClient : Bool
  deriving DecidableEq, Repr

structure OrganizationSettings where
  customDomain : Option String
  authorization : OrganizationAuthorizationSettings
  deriving DecidableEq, Repr

structure OrganizationRow where
  createdAt : Time
  name : String
  settings : OrganizationSettings
  deriving DecidableEq, Repr

structure UserAccountRow where
  createdAt : Time
  email : String
  deriving DecidableEq, Repr

structure OrganizationUserAccountRow where
  createdAt : Time
  deriving DecidableEq, Repr

structure ProjectRow where
  createdAt : Time
  createdBy : UUID
  organizationID : UUID
  name : String
  latestDeploymentRevisionID : Option UUID
  latestDeploymentRevisionEventID : Option UUID
  deriving DecidableEq, Repr

structure DeploymentRevisionRow where
  createdAt : Time
  createdBy : UUID
  projectID : UUID
  port : Option ℤ
  ociURL : Option String
  authenticated : Bool
  proxyURL : Option String
  telemetry : Bool
  deriving DecidableEq, Repr

inductive DeploymentRevisionEventType where
  | ok
  | error
  | progressing
  deriving DecidableEq, Repr

structure DeploymentRevisionEventRow where
  createdAt : Time
  deploymentRevisionID : UUID
  type : DeploymentRevisionEventType
  deriving DecidableEq, Repr

/-- A server log at schema version 5. -/
structure MCPServerLogRow5 where
  userAccountID : Option UUID
  mcpSessionID : Option String
  startedAt : Time
  duration : Duration
  deploymentRevisionID : UUID
  authTokenDigest : Option String
  mcpRequest : Option Request
  mcpResponse : Option Response
  userAgent : Option String
  httpStatusCode : Option ℤ
  httpError : Option String

structure MCPServerLogRow extends MCPServerLogRow5 where
  projectID : UUID

inductive ContextPropertyType where
  | string
  | number
  | boolean
  deriving DecidableEq, Repr

structure ContextPropertyRow where
  createdAt : Time
  projectID : UUID
  type : ContextPropertyType
  name : String
  required : Bool
  deriving DecidableEq, Repr

structure ContextRow where
  createdAt : Time
  authTokenDigest : String
  userAccountID : UUID
  contextPropertyID : UUID
  contextPropertyValue : Option Json

inductive Table where
  | organization
  | userAccount
  | organizationUserAccount
  | project
  | deploymentRevision
  | deploymentRevisionEvent
  | mcpServerLog
  | contextProperty
  | context
  deriving DecidableEq, Repr

@[reducible] def Key : Table → Type
  | .organizationUserAccount => UUID × UUID
  | _ => UUID

instance : ∀ t, DecidableEq (Key t)
  | .organization => inferInstanceAs (DecidableEq UUID)
  | .userAccount => inferInstanceAs (DecidableEq UUID)
  | .organizationUserAccount => inferInstanceAs (DecidableEq (UUID × UUID))
  | .project => inferInstanceAs (DecidableEq UUID)
  | .deploymentRevision => inferInstanceAs (DecidableEq UUID)
  | .deploymentRevisionEvent => inferInstanceAs (DecidableEq UUID)
  | .mcpServerLog => inferInstanceAs (DecidableEq UUID)
  | .contextProperty => inferInstanceAs (DecidableEq UUID)
  | .context => inferInstanceAs (DecidableEq UUID)

@[reducible] def Row : Table → Type
  | .organization => OrganizationRow
  | .userAccount => UserAccountRow
  | .organizationUserAccount => OrganizationUserAccountRow
  | .project => ProjectRow
  | .deploymentRevision => DeploymentRevisionRow
  | .deploymentRevisionEvent => DeploymentRevisionEventRow
  | .mcpServerLog => MCPServerLogRow
  | .contextProperty => ContextPropertyRow
  | .context => ContextRow

abbrev Db := Store Key Row
abbrev Image := Write Key Row
abbrev ForeignKey := Relational.ForeignKey Key Row

/-! ## Foreign keys after migration 6 -/

def membershipOrganization : ForeignKey where
  name := "organization_useraccount_organization_id_fkey"
  child := .organizationUserAccount
  parent := .organization
  column k _ := some k.1

def membershipUser : ForeignKey where
  name := "organization_useraccount_user_account_id_fkey"
  child := .organizationUserAccount
  parent := .userAccount
  column k _ := some k.2

def projectCreatedBy : ForeignKey where
  name := "project_created_by_fkey"
  child := .project
  parent := .userAccount
  column _ v := some v.createdBy

def projectOrganization : ForeignKey where
  name := "project_organization_id_fkey"
  child := .project
  parent := .organization
  column _ v := some v.organizationID

def revisionCreatedBy : ForeignKey where
  name := "deploymentrevision_created_by_fkey"
  child := .deploymentRevision
  parent := .userAccount
  column _ v := some v.createdBy

def logUser : ForeignKey where
  name := "mcpserverlog_user_account_id_fkey"
  child := .mcpServerLog
  parent := .userAccount
  column _ v := v.userAccountID

def contextUser : ForeignKey where
  name := "context_user_account_id_fkey"
  child := .context
  parent := .userAccount
  column _ v := some v.userAccountID

/-! Migration 5 gives the following keys their actions. -/

def revisionProject : ForeignKey where
  name := "deploymentrevision_project_id_fkey"
  child := .deploymentRevision
  parent := .project
  column _ v := some v.projectID
  onDelete := .cascade

def eventRevision : ForeignKey where
  name := "deploymentrevisionevent_deployment_revision_id_fkey"
  child := .deploymentRevisionEvent
  parent := .deploymentRevision
  column _ v := some v.deploymentRevisionID
  onDelete := .cascade

def logRevision : ForeignKey where
  name := "mcpserverlog_deployment_revision_id_fkey"
  child := .mcpServerLog
  parent := .deploymentRevision
  column _ v := some v.deploymentRevisionID
  onDelete := .cascade

def propertyProject : ForeignKey where
  name := "contextproperty_project_id_fkey"
  child := .contextProperty
  parent := .project
  column _ v := some v.projectID
  onDelete := .cascade

def contextProperty : ForeignKey where
  name := "context_context_property_id_fkey"
  child := .context
  parent := .contextProperty
  column _ v := some v.contextPropertyID
  onDelete := .cascade

def projectLatestRevision : ForeignKey where
  name := "project_latest_deployment_revision_id_fkey"
  child := .project
  parent := .deploymentRevision
  column _ v := v.latestDeploymentRevisionID
  clear v := { v with latestDeploymentRevisionID := none }
  onDelete := .setNull

def projectLatestEvent : ForeignKey where
  name := "project_latest_deployment_revision_event_id_fkey"
  child := .project
  parent := .deploymentRevisionEvent
  column _ v := v.latestDeploymentRevisionEventID
  clear v := { v with latestDeploymentRevisionEventID := none }
  onDelete := .setNull

/-- Added by migration 6, without an action. -/
def logProject : ForeignKey where
  name := "mcpserverlog_project_id_fkey"
  child := .mcpServerLog
  parent := .project
  column _ v := some v.projectID

def foreignKeys : List ForeignKey :=
  [membershipOrganization, membershipUser, projectCreatedBy, projectOrganization,
    revisionCreatedBy, logUser, contextUser, revisionProject, eventRevision, logRevision,
    propertyProject, contextProperty, projectLatestRevision, projectLatestEvent, logProject]

def tables : List Table :=
  [.organization, .userAccount, .organizationUserAccount, .project, .deploymentRevision,
    .deploymentRevisionEvent, .mcpServerLog, .contextProperty, .context]

def uniques : List (Unique Key Row (UUID × String)) :=
  [⟨"organization_name_key", .organization, fun _ v => (0, v.name)⟩,
    ⟨"useraccount_email_key", .userAccount, fun _ v => (0, v.email)⟩,
    ⟨"project_name_unique", .project, fun _ v => (v.organizationID, v.name)⟩]

def schema : Constraints Key Row (UUID × String) := ⟨tables, uniques, foreignKeys⟩

/-! ## Schema version 5 -/

@[reducible] def Row5 : Table → Type
  | .mcpServerLog => MCPServerLogRow5
  | t => Row t

end Jetski.Schema
