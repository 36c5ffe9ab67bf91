import Mathlib.Data.List.Sort
import Jetski.Schema

/-!
# API types and the environment

The values that queries return and handlers respond with: a row together with
its identifier, and the summaries joined from several tables. The environment
holds the configured formats and what the program takes from libraries outside
of it: URL parsing, the collation of the database, letter case and decoders.
-/

set_option autoImplicit false

namespace Jetski.Types

open Relational Schema

/-- A format string with exactly one `%v`. -/
structure Format where
  before : String
  after : String
  deriving DecidableEq, Repr

def Format.sprintf (f : Format) (s : String) : String := f.before++s++f.after

theorem sprintf_injective (f : Format) (s s' : String) (h : f.sprintf s = f.sprintf s') :
    s = s' := by
  have hl := congrArg String.toList h
  simp only [Format.sprintf, String.toList_append] at hl
  exact String.toList_inj.mp (List.append_cancel_left (List.append_cancel_right hl))

/-- `url.URL`, with what follows the path kept as one text. -/
structure URL where
  scheme : String
  host : String
  path : String
  rest : String := ""
  deriving DecidableEq, Repr

/-- The rendering of URLs without special characters. -/
def URL.string (u : URL) : String := u.scheme++"://"++u.host++u.path++u.rest

structure Env where
  gatewayHostFormat : Format := ⟨"", ".hyprmcp.cloud"⟩
  gatewayPathFormat : Format := ⟨"/", "/mcp"⟩
  gatewayHostScheme : String := "https"
  gatewayNamespace : String
  hostScheme : String
  host : String
  oidcUrl : String
  dexGRPCAddr : String
  /-- `url.Parse` -/
  parse : String → Option URL
  /-- The order of texts under the collation of the database. -/
  collate : String → String → Bool
  /-- `strings.ToLower` -/
  toLower : String → String
  /-- The text of a JSON value in the database. -/
  jsonText : Json → String
  /-- `json.Marshal` of a decoded value. -/
  marshal : Json → String
  /-- `jsonrpc2.Request` as it is decoded from the JSON that it was stored as. -/
  unmarshalRequest : Request → Option Request
  /-- `jsonrpc2.Response` as it is decoded from the JSON that it was stored as. -/
  unmarshalResponse : Response → Option Response
  /-- The name and the arguments of an `mcp.CallToolParams`. -/
  callToolParams : Json → Option (String × Json)
  /-- The error flag of an `mcp.CallToolResult`. -/
  callToolResult : Json → Option Bool
  /-- The status code and text with which a URL answers. -/
  probe : String → Except String (ℕ × String)
  /-- The order in which the database visits rows with equal sort keys. -/
  arrange : List (UUID × MCPServerLogRow) → List (UUID × MCPServerLogRow)
  arrange_perm : ∀ rows, (arrange rows).Perm rows

/-- An identifier is stored as an unsigned number and decoded as a signed one. -/
def signedID (r : Request) : Option Request :=
  match r.id with
  | some (.num n) => if n < 9223372036854775808 then some r else none
  | _ => some r

/-- The default formats, with one proxy URL that parses. -/
def Env.demo : Env where
  gatewayNamespace := "default"
  hostScheme := "http"
  host := "localhost:8085"
  oidcUrl := "http://localhost:5556/dex"
  dexGRPCAddr := "localhost:5557"
  parse s := if s = "https://mcp.acme.dev/api" then some ⟨"https", "mcp.acme.dev", "/api", ""⟩
    else none
  collate s s' := s ≤ s'
  toLower s := s
  jsonText _ := ""
  marshal _ := ""
  unmarshalRequest := signedID
  unmarshalResponse r := some r
  callToolParams _ := none
  callToolResult _ := some false
  probe _ := .error "connection refused"
  arrange rows := rows
  arrange_perm _ := .refl _

structure Organization extends OrganizationRow where
  id : UUID
  deriving DecidableEq, Repr

structure UserAccount extends UserAccountRow where
  id : UUID
  deriving DecidableEq, Repr

def UserAccount.demo : UserAccount := ⟨⟨0, "ada@acme.com"⟩, 1⟩

structure Project extends ProjectRow where
  id : UUID
  deriving DecidableEq, Repr

structure DeploymentRevision extends DeploymentRevisionRow where
  id : UUID
  buildNumber : ℕ
  deriving DecidableEq, Repr

structure DeploymentRevisionEvent extends DeploymentRevisionEventRow where
  id : UUID
  deriving DecidableEq, Repr

structure MCPServerLog extends MCPServerLogRow where
  id : UUID

structure MCPServerLogPromptData where
  id : UUID
  startedAt : Time
  method : String
  toolName : String
  prompt : String
  deriving DecidableEq, Repr

structure ProjectSummary extends Project where
  organization : Organization
  latestDeploymentRevision : Option DeploymentRevision
  latestDeploymentRevisionEvent : Option DeploymentRevisionEvent
  deriving DecidableEq, Repr

structure DeploymentRevisionSummary extends DeploymentRevision where
  project : Project
  author : UserAccount
  projectLatestDeploymentRevisionEvent : Option DeploymentRevisionEvent
  deriving DecidableEq, Repr

structure OrganizationDashboardUsage where
  counted : List MCPServerLog

def OrganizationDashboardUsage.sessionCount (u : OrganizationDashboardUsage) : ℕ :=
  (u.counted.filterMap (fun l => l.mcpSessionID)).dedup.length

def OrganizationDashboardUsage.requestCount (u : OrganizationDashboardUsage) : ℕ :=
  u.counted.length

/-- `ProjectSummary.GetMCPURL` -/
def ProjectSummary.getMCPURL (env : Env) (ps : ProjectSummary) : String :=
  let u : URL := {
    scheme := env.gatewayHostScheme
    host := env.gatewayHostFormat.sprintf ps.organization.name
    path := env.gatewayPathFormat.sprintf ps.name }
  match ps.organization.settings.customDomain with
  | some customDomain => { u with host := customDomain }.string
  | none => u.string

inductive DbError where
  | violation (v : Violation)
  | notNull (column : String)
  | invalid
  | noRows
  | tooManyRows
  | refused
  | notFound
  | alreadyExists
  | deletion (e : DeleteError)
  deriving DecidableEq, Repr

/-! ## Lists and paging -/

inductive SortOrder where
  | asc
  | desc
  deriving DecidableEq, Repr

structure Pagination where
  count : Int64
  page : Int64

structure Sorting where
  sortBy : String
  sortOrder : SortOrder
  deriving DecidableEq, Repr

/-- A path or query parameter: missing, not parsable, or parsed. -/
inductive Param (α : Type) where
  | absent
  | invalid
  | value (a : α)
  deriving DecidableEq, Repr

structure SortingOptions where
  defaultSortBy : String
  defaultSortOrder : SortOrder
  allowedSortBy : List String

def parsePaginationOrDefault (count page : Param Int64) (fallback : Pagination) :
    Option Pagination := do
  let c ← match count with
    | .absent => some fallback.count
    | .invalid => none
    | .value c => if 0 ≤ c then some c else none
  let p ← match page with
    | .absent => some fallback.page
    | .invalid => none
    | .value p => if 0 ≤ p then some p else none
  return ⟨c, p⟩

def parseSortOrder (env : Env) (trimSpace : String → String) (raw : String) : Option SortOrder :=
  let sortOrder := trimSpace (env.toLower raw)
  if raw = "" then none
  else if sortOrder = "desc" then some .desc
  else if sortOrder = "asc" then some .asc
  else none

def parseSortingOrDefault (env : Env) (trimSpace : String → String) (sortBy sortOrder : String)
    (options : SortingOptions) : Sorting where
  sortBy := if sortBy ≠ "" ∧ sortBy ∈ options.allowedSortBy then sortBy else options.defaultSortBy
  sortOrder := (parseSortOrder env trimSpace sortOrder).getD options.defaultSortOrder

end Jetski.Types
