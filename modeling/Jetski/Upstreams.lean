import Jetski.GatewayConfig
import Jetski.RowChecks

/-!
# Proxy URLs

A proxy URL enters the database with the first revision of a project or with
its settings. Only the settings are checked against the parser that the sync
webhook uses. If every project is created with a proxy URL that passes the same
check, then the resource of every organization can be synced in every state.
-/

set_option autoImplicit false

namespace Jetski.Upstreams

open Relational Schema Jetski.Types Database Handlers Routes Validation Gateway GatewayConfig
open Reachability RowChecks
open ApiRuns (demoServe demoFounding demoOpening demoCreation)

section
variable (env : Env)

/-- The parser accepts the text and finds a scheme and a host. -/
def ValidProxyURL (proxyURL : String) : Prop :=
  ∃ u, env.parse proxyURL = some u ∧ u.scheme ≠ "" ∧ u.host ≠ ""

def ValidUpstream (v : DeploymentRevisionRow) : Prop :=
  ∀ proxyURL, v.proxyURL = some proxyURL → ValidProxyURL env proxyURL

/-- The proxy URLs of a state are valid, and what is applied for any
organization in it is turned into children. -/
structure Syncs (db : Db) : Prop where
  stored : ∀ d v, db.row .deploymentRevision d = some v → ValidUpstream env v
  children : ∀ (org : Organization) (t : Tick), ∃ pss spec,
    Queries.getProjectSummaries env org.id t db = .ok (pss, []) ∧
    served (gatewaySpec org pss) = some spec ∧
    (getDesiredChildren env ⟨org.name, spec⟩).isSome

/-- A request that stores the first revision of a project names a valid proxy URL. -/
def CreatesValid : Route → Prop
  | .postProject (some req) => validateName req.name = .ok () → ∀ proxyURL,
    req.proxyURL = some proxyURL → Queries.storable proxyURL = true → ValidProxyURL env proxyURL
  | _ => True

/-! ## The checks of the settings -/

theorem checkSettings_valid (req : SettingsRequest) (h : checkSettings env req = .ok ())
    (proxyURL : String) (hu : req.proxyURL = some proxyURL) : ValidProxyURL env proxyURL := by
  rw [checkSettings, hu] at h
  cases ho : req.ociURL with
  | some ociURL =>
    rw [ho] at h
    cases h
  | none =>
    simp only [ho] at h
    split at h
    · cases h
    · split at h
      · cases h
      · next u hparse =>
        split at h
        · cases h
        · next hparts =>
          rw [not_or] at hparts
          exact ⟨u, hparse, hparts.1, hparts.2⟩

theorem merge_valid (user : UserAccount) (req : SettingsRequest) (projectID : UUID)
    (latest : Option DeploymentRevision) (createdAt : Time)
    (hreq : checkSettings env req = .ok ())
    (hlatest : ∀ dr, latest = some dr → ValidUpstream env dr.toDeploymentRevisionRow) :
    ValidUpstream env (Ownership.rowOf (mergeSettings user req projectID latest) createdAt) := by
  intro proxyURL hu
  change (if req.proxyURL.isSome then req.proxyURL else
    latest.bind (fun dr => dr.proxyURL)) = some proxyURL at hu
  split at hu
  · exact checkSettings_valid env req hreq proxyURL hu
  · obtain ⟨dr, hdr, hproxy⟩ := Option.bind_eq_some_iff.mp hu
    exact hlatest dr hdr proxyURL hproxy

theorem upstream_checks : Checks (fun _ => True) (ValidUpstream env) env where
  new _ _ _ := trivial
  settings _ _ _ _ _ _ _ := trivial
  merge := merge_valid env

theorem first_valid (route : Route) (h : CreatesValid env route) :
    FirstChecked (ValidUpstream env) route := by
  cases route with
  | postProject body =>
    cases body with
    | none => trivial
    | some req =>
      intro user projectID createdAt u hvalid hu hfits proxyURL hproxy
      cases hproxy
      have hstorable : Queries.storable u = true := by
        simp only [Queries.NewRevision.fits, Bool.and_eq_true] at hfits
        exact hfits.2
      exact h hvalid u hu hstorable
  | _ => trivial

/-! ## The sync -/

theorem syncs_of_stored (db : Db)
    (h : ∀ d v, db.row .deploymentRevision d = some v → ValidUpstream env v) : Syncs env db where
  stored := h
  children org t := by
    have hentry : ∀ s ∈ (Queries.projectSummaries env db org.id).filterMap deployedProject,
        ∃ e, proxyEntry env s = some e := by
      intro s hs
      obtain ⟨id, p, d, dr, ps, hd, hps, hds⟩ := deployed_of_spec env db org.id s hs
      cases hds.symm.trans (deployedProject_of_deployed db org.id id p d dr hd ps hps)
      have hparse : ∀ u, dr.proxyURL = some u → (env.parse u).isSome := by
        intro u hu
        obtain ⟨url, hurl, -⟩ := h d dr hd.revision u hu
        rw [hurl]
        rfl
      obtain ⟨e, he, -⟩ := proxyEntry_parses env
        ⟨uuidString id, p.name, uuidString d, dr.authenticated, dr.telemetry, dr.proxyURL⟩ hparse
      exact ⟨e, he⟩
    have hcfg := getGatewayConfig_parses env
      ⟨org.name, deployedSpec org (Queries.projectSummaries env db org.id)⟩ hentry
    refine ⟨_, _, rfl, served_gatewaySpec org _, ?_⟩
    simp only [getDesiredChildren, hcfg]
    rfl

/-- No project makes the sync of its organization fail, unless it was created
with an invalid proxy URL. -/
theorem requests_sync {σ : Type} [DecidableEq σ] (rt : Analytics.Runtime) (w₀ w : ApiWorld σ)
    (h₀ : Initial w₀)
    (hp : ∀ i, (∃ email route, (email.isSome → CreatesValid env route) ∧
        w₀.prog i = serve rt env email route) ∨
      ∃ id body, w₀.prog i = gatewayWebhook env id body)
    (h : Run backend postgres w₀ w) : Syncs env w.cfg.srv.db := by
  have hfirst : ∀ i, (∃ email route, FirstChecked (ValidUpstream env) route ∧
      w₀.prog i = serve rt env email route) ∨
      ∃ id body, w₀.prog i = gatewayWebhook env id body := by
    intro i
    rcases hp i with ⟨email, route, hroute, hi⟩ | hi
    · left
      cases email with
      | none => exact ⟨none, .getContext, trivial, hi⟩
      | some email => exact ⟨some email, route, first_valid env route (hroute rfl), hi⟩
    · exact Or.inr hi
  have hrows := run_checked (fun _ => True) (ValidUpstream env) env (upstream_checks env) rt w₀ w h₀
    hfirst h
  apply syncs_of_stored
  intro d v hv
  exact hrows .deploymentRevision d v (Or.inl hv)

end

/-! ## A project created with a proxy URL -/

def demoRoute (proxyURL : String) : Bool → Route
  | false => demoFounding
  | true => demoOpening proxyURL

def demoStart (proxyURL : String) : ApiWorld Bool := start fun i => demoServe (demoRoute proxyURL i)

def demoRun (proxyURL : String) : Option (ApiWorld Bool) :=
  played (demoCreation false true) (demoStart proxyURL)

/-- With a proxy URL that the settings would accept as well. -/
theorem requests_sync_demo : ∃ w, demoRun "https://mcp.acme.dev/api" = some w ∧
    Syncs Env.demo w.cfg.srv.db := by
  have hsome : (demoRun "https://mcp.acme.dev/api").isSome := by decide
  obtain ⟨w, hw⟩ := Option.isSome_iff_exists.mp hsome
  have hvalid : ∀ i, CreatesValid Env.demo (demoRoute "https://mcp.acme.dev/api" i) := by
    intro i
    cases i with
    | false => trivial
    | true =>
      intro _ proxyURL hu _
      cases hu
      exact ⟨⟨"https", "mcp.acme.dev", "/api", ""⟩, rfl, by decide, by decide⟩
  exact ⟨w, hw, requests_sync Env.demo Analytics.Runtime.stable (demoStart _) w (start_initial _)
    (fun i => Or.inl ⟨some "ada@acme.com", _, fun _ => hvalid i, rfl⟩) (played_run _ _ w hw)⟩

/-- The project is created and answered, and the gateway can no longer be synced. -/
theorem invalid_upstream : ∃ w₀ w : ApiWorld Bool, Initial w₀ ∧
    (∀ i, ∃ email route, w₀.prog i = serve Analytics.Runtime.stable Env.demo email route) ∧
    Run backend postgres w₀ w ∧ ¬ Syncs Env.demo w.cfg.srv.db ∧
    ∃ spec, w.cfg.srv.ext "acme" = some spec ∧
      getDesiredChildren Env.demo ⟨"acme", spec⟩ = none := by
  have h : (demoRun "http://[::1").any (fun w =>
      (w.cfg.srv.db.row .deploymentRevision 9).any (fun v => v.proxyURL = some "http://[::1") ∧
      (w.cfg.srv.ext "acme").any (fun spec =>
        (getDesiredChildren Env.demo ⟨"acme", spec⟩).isNone)) = true := by
    decide
  obtain ⟨w, hw, hall⟩ := (Option.any_eq_true _ _).mp h
  obtain ⟨hrow, hext⟩ := of_decide_eq_true hall
  obtain ⟨v, hv, hproxy⟩ := (Option.any_eq_true _ _).mp hrow
  obtain ⟨spec, hspec, hnone⟩ := (Option.any_eq_true _ _).mp hext
  refine ⟨demoStart _, w, start_initial _,
    fun i => ⟨some "ada@acme.com", demoRoute "http://[::1" i, rfl⟩, played_run _ _ w hw, ?_, spec,
    hspec, Option.isNone_iff_eq_none.mp hnone⟩
  intro hsync
  obtain ⟨u, hu, -⟩ := hsync.stored 9 v hv _ (of_decide_eq_true hproxy)
  cases hu

end Jetski.Upstreams
