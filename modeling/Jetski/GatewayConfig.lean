import Jetski.Gateway
import Jetski.Summaries

/-!
# The sync webhook

The webhook turns an MCPGateway into the objects that run a gateway. The
configuration has one proxy entry for every project of the resource, and the
Ingress serves the host of the configuration. Started from what is applied for
an organization, every deployed project is routed at the address that its
summary names.
-/

set_option autoImplicit false

namespace Jetski.GatewayConfig

open Relational Schema Jetski.Types Gateway Queries Summaries

structure DynamicClientRegistration where
  enabled : Bool
  publicClient : Bool
  deriving DecidableEq, Repr

structure Authorization where
  server : String
  serverMetadataProxyEnabled : Bool
  authorizationProxyEnabled : Bool
  dynamicClientRegistrationEnabled : Option Bool
  dynamicClientRegistration : Option DynamicClientRegistration
  deriving DecidableEq, Repr

structure Webhook where
  method : String
  url : URL
  deriving DecidableEq, Repr

structure Proxy where
  path : String
  http : Option URL
  authentication : Bool
  telemetry : Bool
  webhook : Option Webhook
  deriving DecidableEq, Repr

structure Config where
  host : URL
  authorization : Authorization
  dexGRPCClient : String
  proxy : List Proxy
  deriving DecidableEq, Repr

structure MCPGateway where
  name : String
  spec : MCPGatewaySpec
  deriving DecidableEq, Repr

def getEffectiveGatewayHost (env : Env) (parent : MCPGateway) : String :=
  match parent.spec.customDomain with
  | some customDomain => customDomain
  | none => env.gatewayHostFormat.sprintf parent.spec.organizationName

/-- The proxy entry of a project, unless its proxy URL does not parse. -/
def proxyEntry (env : Env) (project : ProjectSpec) : Option Proxy := do
  let http ← match project.proxyURL with
    | none => some none
    | some proxyURL => (env.parse proxyURL).map some
  return {
    path := env.gatewayPathFormat.sprintf project.projectName
    http := http
    authentication := project.authenticated
    telemetry := project.telemetry
    webhook := some ⟨"POST",
      ⟨env.hostScheme, env.host, "/webhook/proxy/"++project.deploymentRevisionID, ""⟩⟩ }

def getGatewayConfig (env : Env) (parent : MCPGateway) : Option Config := do
  let proxy ← parent.spec.projects.mapM (proxyEntry env)
  return {
    host := ⟨env.gatewayHostScheme, getEffectiveGatewayHost env parent, "", ""⟩
    authorization := {
      server := env.oidcUrl
      serverMetadataProxyEnabled := true
      authorizationProxyEnabled := true
      dynamicClientRegistrationEnabled := some true
      dynamicClientRegistration := some ⟨true, parent.spec.publicClient⟩ }
    dexGRPCClient := env.dexGRPCAddr
    proxy := proxy }

structure ConfigMap where
  name : String
  config : Config
  deriving DecidableEq, Repr

/-- The labels select the pods of the gateway. -/
structure Deployment where
  name : String
  labels : List (String × String)
  volumeConfig : String
  deriving DecidableEq, Repr

structure Service where
  name : String
  selector : List (String × String)
  port : ℕ
  deriving DecidableEq, Repr

structure Ingress where
  name : String
  host : String
  path : String
  backendName : String
  backendPort : ℕ
  deriving DecidableEq, Repr

structure Children where
  configMap : ConfigMap
  deployment : Deployment
  service : Service
  ingress : Ingress
  deriving DecidableEq, Repr

def getDesiredChildren (env : Env) (parent : MCPGateway) : Option Children := do
  let configName := parent.name++"-config"
  let gatewayName := parent.name++"-gateway"
  let gatewayLabels := [("app", "mcp-gateway"),
    ("jetskiOrganization", parent.spec.organizationID)]
  let gatewayConfig ← getGatewayConfig env parent
  return {
    configMap := ⟨configName, gatewayConfig⟩
    deployment := ⟨gatewayName, gatewayLabels, configName⟩
    service := ⟨gatewayName, gatewayLabels, 9000⟩
    ingress := ⟨parent.name, getEffectiveGatewayHost env parent, "/", gatewayName, 9000⟩ }

/-! ## Every deployed project is routed -/

theorem mapM_filterMap {α β : Type} (f : α → Option β) (as : List α)
    (h : ∀ a ∈ as, ∃ b, f a = some b) : as.mapM f = some (as.filterMap f) := by
  induction as with
  | nil => rfl
  | cons a as ih =>
    obtain ⟨b, hb⟩ := h a (by simp)
    rw [List.mapM_cons, hb, ih (fun a' ha => h a' (by simp [ha])), List.filterMap_cons_some hb]
    rfl

theorem proxyEntry_path (env : Env) (project : ProjectSpec) (e : Proxy)
    (h : proxyEntry env project = some e) :
    e.path = env.gatewayPathFormat.sprintf project.projectName := by
  obtain ⟨_, _, _, _, _, proxyURL⟩ := project
  cases proxyURL with
  | none =>
    cases h
    rfl
  | some u =>
    simp only [proxyEntry] at h
    cases hu : env.parse u with
    | none => simp [hu] at h
    | some url =>
      simp only [hu] at h
      cases h
      rfl

theorem deployedProject_name (ps : ProjectSummary) (p : ProjectSpec)
    (h : deployedProject ps = some p) : p.projectName = ps.name := by
  simp only [deployedProject] at h
  cases hid : ps.latestDeploymentRevisionID with
  | none => simp [hid] at h
  | some d =>
    cases hdr : ps.latestDeploymentRevision with
    | none => simp [hid, hdr] at h
    | some dr =>
      simp only [hid, hdr] at h
      cases h
      rfl

theorem filterMap_map_sublist {α β γ : Type} (f : α → Option β) (g : β → γ) (g' : α → γ)
    (h : ∀ a b, f a = some b → g b = g' a) (as : List α) :
    ((as.filterMap f).map g).Sublist (as.map g') := by
  induction as with
  | nil => exact List.Sublist.slnil
  | cons a as ih =>
    cases hf : f a with
    | none =>
      rw [List.filterMap_cons_none hf]
      exact ih.cons _
    | some b =>
      rw [List.filterMap_cons_some hf, List.map_cons, List.map_cons, h a b hf]
      exact ih.cons_cons _

/-- Distinct project names have distinct paths. -/
theorem paths_nodup (env : Env) (pss : List ProjectSummary)
    (hn : (pss.map (fun ps => ps.name)).Nodup) :
    (((pss.filterMap deployedProject).filterMap (proxyEntry env)).map (fun e => e.path)).Nodup := by
  have hsub := filterMap_map_sublist (proxyEntry env) (fun e => e.path)
    (fun p => env.gatewayPathFormat.sprintf p.projectName)
    (fun p e h => proxyEntry_path env p e h) (pss.filterMap deployedProject)
  have hsub' := filterMap_map_sublist deployedProject (fun p => p.projectName)
    (fun ps => ps.name) (fun ps p h => deployedProject_name ps p h) pss
  apply hsub.nodup
  rw [← Function.comp_def, ← List.map_map]
  exact (hn.sublist hsub').map (fun _ _ h => sprintf_injective env.gatewayPathFormat _ _ h)

structure Deployed (db : Db) (orgID id : UUID) (p : ProjectRow) (d : UUID)
    (dr : DeploymentRevisionRow) : Prop where
  project : db.row .project id = some p
  organization : p.organizationID = orgID
  latest : p.latestDeploymentRevisionID = some d
  revision : db.row .deploymentRevision d = some dr

/-- An entry of a configuration routes to a project as its latest revision demands. -/
structure Routes (env : Env) (cfg : Config) (db : Db) (id : UUID) (p : ProjectRow)
    (dr : DeploymentRevisionRow) (e : Proxy) : Prop where
  path : e.path = env.gatewayPathFormat.sprintf p.name
  url : ∀ ps, summary db id p = some ps →
    (⟨cfg.host.scheme, cfg.host.host, e.path, ""⟩ : URL).string = ps.getMCPURL env
  authentication : e.authentication = dr.authenticated
  telemetry : e.telemetry = dr.telemetry
  upstream : e.http = dr.proxyURL.bind env.parse

theorem deployedProject_of_deployed (db : Db) (orgID id : UUID) (p : ProjectRow) (d : UUID)
    (dr : DeploymentRevisionRow) (h : Deployed db orgID id p d dr) (ps : ProjectSummary)
    (hps : summary db id p = some ps) : deployedProject ps =
      some ⟨uuidString id, p.name, uuidString d, dr.authenticated, dr.telemetry, dr.proxyURL⟩ := by
  obtain ⟨o, -, rfl⟩ := (summary_some db id p ps).mp hps
  simp only [deployedProject, latestRevision, h.latest, h.revision, Option.bind_eq_bind,
    Option.bind_some]
  rfl

theorem deployed_of_deployedProject (db : Db) (orgID id : UUID) (p : ProjectRow)
    (hp : db.row .project id = some p) (ho : p.organizationID = orgID) (ps : ProjectSummary)
    (hps : summary db id p = some ps) (s : ProjectSpec) (hs : deployedProject ps = some s) :
    ∃ d dr, Deployed db orgID id p d dr := by
  obtain ⟨o, -, rfl⟩ := (summary_some db id p ps).mp hps
  simp only [deployedProject, latestRevision] at hs
  cases hd : p.latestDeploymentRevisionID with
  | none => simp [hd] at hs
  | some d =>
    cases hr : db.row .deploymentRevision d with
    | none => simp [hd, hr] at hs
    | some dr => exact ⟨d, dr, hp, ho, hd, hr⟩

theorem proxyEntry_parses (env : Env) (s : ProjectSpec)
    (h : ∀ u, s.proxyURL = some u → (env.parse u).isSome) : ∃ e, proxyEntry env s = some e ∧
      e.authentication = s.authenticated ∧ e.telemetry = s.telemetry ∧
      e.http = s.proxyURL.bind env.parse := by
  obtain ⟨_, _, _, _, _, proxyURL⟩ := s
  cases proxyURL with
  | none => exact ⟨_, rfl, rfl, rfl, rfl⟩
  | some u =>
    obtain ⟨url, hu⟩ := Option.isSome_iff_exists.mp (h u rfl)
    simp only [proxyEntry, hu, Option.bind_some]
    exact ⟨_, rfl, rfl, rfl, rfl⟩

/-- The configuration that the webhook builds from a specification all of whose
proxy URLs parse. -/
def config (env : Env) (parent : MCPGateway) : Config where
  host := ⟨env.gatewayHostScheme, getEffectiveGatewayHost env parent, "", ""⟩
  authorization := ⟨env.oidcUrl, true, true, some true, some ⟨true, parent.spec.publicClient⟩⟩
  dexGRPCClient := env.dexGRPCAddr
  proxy := parent.spec.projects.filterMap (proxyEntry env)

theorem getGatewayConfig_parses (env : Env) (parent : MCPGateway)
    (h : ∀ s ∈ parent.spec.projects, ∃ e, proxyEntry env s = some e) :
    getGatewayConfig env parent = some (config env parent) := by
  simp only [getGatewayConfig, mapM_filterMap _ _ h]
  rfl

theorem deployed_url (env : Env) (name : String) (org : Organization) (pss : List ProjectSummary)
    (ps : ProjectSummary) (ho : ps.organization = org) :
    (⟨(config env ⟨name, deployedSpec org pss⟩).host.scheme,
      (config env ⟨name, deployedSpec org pss⟩).host.host,
      env.gatewayPathFormat.sprintf ps.name, ""⟩ : URL).string = ps.getMCPURL env := by
  subst ho
  simp only [config, getEffectiveGatewayHost, deployedSpec, ProjectSummary.getMCPURL]
  cases ps.organization.settings.customDomain <;> rfl

theorem deployed_route (env : Env) (db : Db) (org : Organization)
    (horg : organization db org.id = some org) (id : UUID) (p : ProjectRow) (d : UUID)
    (dr : DeploymentRevisionRow) (hd : Deployed db org.id id p d dr) (ps : ProjectSummary)
    (hps : summary db id p = some ps)
    (hparse : ∀ u, dr.proxyURL = some u → (env.parse u).isSome) (s : ProjectSpec)
    (hds : deployedProject ps = some s) (pss : List ProjectSummary) :
    ∃ e, proxyEntry env s = some e ∧
      Routes env (config env ⟨org.name, deployedSpec org pss⟩) db id p dr e := by
  cases hds.symm.trans (deployedProject_of_deployed db org.id id p d dr hd ps hps)
  obtain ⟨e, he, ha, ht, hu⟩ := proxyEntry_parses env
    ⟨uuidString id, p.name, uuidString d, dr.authenticated, dr.telemetry, dr.proxyURL⟩ hparse
  have hpath := proxyEntry_path env _ e he
  refine ⟨e, he, hpath, fun ps' hps' => ?_, ha, ht, hu⟩
  cases hps.symm.trans hps'
  obtain ⟨o, ho, rfl⟩ := (summary_some db id p ps).mp hps
  rw [hd.organization, horg] at ho
  rw [hpath, ← deployed_url env org.name org pss _ (Option.some.inj ho).symm]

theorem deployed_of_spec (env : Env) (db : Db) (orgID : UUID) (s : ProjectSpec)
    (h : s ∈ (projectSummaries env db orgID).filterMap deployedProject) :
    ∃ id p d dr ps, Deployed db orgID id p d dr ∧ summary db id p = some ps ∧
      deployedProject ps = some s := by
  obtain ⟨ps, hmem, hds⟩ := List.mem_filterMap.mp h
  obtain ⟨id, p, hp, ho, hps⟩ := (mem_projectSummaries env db orgID ps).mp hmem
  obtain ⟨d, dr, hd⟩ := deployed_of_deployedProject db orgID id p hp ho ps hps s hds
  exact ⟨id, p, d, dr, ps, hd, hps, hds⟩

/-- The configuration and the Ingress made from what is applied for an
organization route each of its deployed projects, and nothing else, at the URL
that the summary of the project names. -/
theorem gateway_routes (env : Env) (t : Tick) (db : Db) (org : Organization)
    (hs : Sound schema db) (horg : organization db org.id = some org)
    (hparse : ∀ id p d dr u, Deployed db org.id id p d dr → dr.proxyURL = some u →
      (env.parse u).isSome) :
    ∃ pss spec children cfg, getProjectSummaries env org.id t db = .ok (pss, []) ∧
      served (gatewaySpec org pss) = some spec ∧
      getDesiredChildren env ⟨org.name, spec⟩ = some children ∧ children.configMap.config = cfg ∧
      (cfg.proxy.map (fun e => e.path)).Nodup ∧ children.ingress.host = cfg.host.host ∧
      (∀ id p d dr, Deployed db org.id id p d dr →
        ∃! e, e ∈ cfg.proxy ∧ Routes env cfg db id p dr e) ∧
      (∀ e ∈ cfg.proxy, ∃ id p d dr, Deployed db org.id id p d dr ∧
        Routes env cfg db id p dr e) := by
  have hnodup := paths_nodup env (projectSummaries env db org.id)
    (projectSummaries_names env db org.id hs)
  have hall : ∀ s ∈ (projectSummaries env db org.id).filterMap deployedProject,
      ∃ id p d dr e, Deployed db org.id id p d dr ∧ proxyEntry env s = some e ∧ Routes env
        (config env ⟨org.name, deployedSpec org (projectSummaries env db org.id)⟩)
        db id p dr e := by
    intro s hmem
    obtain ⟨id, p, d, dr, ps, hd, hps, hds⟩ := deployed_of_spec env db org.id s hmem
    obtain ⟨e, he, hr⟩ := deployed_route env db org horg id p d dr hd ps hps
      (fun u hu => hparse id p d dr u hd hu) s hds (projectSummaries env db org.id)
    exact ⟨id, p, d, dr, e, hd, he, hr⟩
  have hcfg := getGatewayConfig_parses env
    ⟨org.name, deployedSpec org (projectSummaries env db org.id)⟩
    (fun s hmem => let ⟨_, _, _, _, e, _, he, _⟩ := hall s hmem; ⟨e, he⟩)
  refine ⟨_, _, _, _, rfl, served_gatewaySpec org _, by simp only [getDesiredChildren, hcfg]; rfl,
    rfl, hnodup, rfl, fun id p d dr hd => ?_, fun e he => ?_⟩
  · obtain ⟨ps, hps⟩ := sound_summary db hs id p hd.project
    have hds := deployedProject_of_deployed db org.id id p d dr hd ps hps
    obtain ⟨e, he, hr⟩ := deployed_route env db org horg id p d dr hd ps hps
      (fun u hu => hparse id p d dr u hd hu) _ hds (projectSummaries env db org.id)
    have hmem := (mem_projectSummaries env db org.id ps).mpr
      ⟨id, p, hd.project, hd.organization, hps⟩
    refine ⟨e, ⟨List.mem_filterMap.mpr ⟨_, List.mem_filterMap.mpr ⟨ps, hmem, hds⟩, he⟩, hr⟩, ?_⟩
    rintro e' ⟨hmem', hr'⟩
    exact List.inj_on_of_nodup_map hnodup hmem'
      (List.mem_filterMap.mpr ⟨_, List.mem_filterMap.mpr ⟨ps, hmem, hds⟩, he⟩)
      (hr'.path.trans hr.path.symm)
  · obtain ⟨s, hmem, hs'⟩ := List.mem_filterMap.mp he
    obtain ⟨id, p, d, dr, e', hd, he', hr⟩ := hall s hmem
    cases hs'.symm.trans he'
    exact ⟨id, p, d, dr, hd, hr⟩

def demoDb : Db := Store.empty.replay [
  ⟨.organization, 1, some ⟨0, "acme", ⟨some "mcp.acme.com", ⟨true⟩⟩⟩⟩,
  ⟨.userAccount, 2, some ⟨0, "ada@acme.com"⟩⟩,
  ⟨.project, 3, some ⟨0, 2, 1, "docs", none, none⟩⟩,
  ⟨.project, 4, some ⟨0, 2, 1, "wiki", none, none⟩⟩,
  ⟨.deploymentRevision, 5,
    some ⟨0, 2, 3, none, none, true, some "https://mcp.acme.dev/api", false⟩⟩,
  ⟨.project, 3, some ⟨0, 2, 1, "docs", some 5, none⟩⟩]

theorem gateway_routes_demo : ∃ cfg : Config,
    ∃! e, e ∈ cfg.proxy ∧ Routes Env.demo cfg demoDb 3 ⟨0, 2, 1, "docs", some 5, none⟩
      ⟨0, 2, 3, none, none, true, some "https://mcp.acme.dev/api", false⟩ e := by
  have hparse : ∀ r ∈ demoDb.scan .deploymentRevision, ∀ u ∈ r.2.proxyURL,
      (Env.demo.parse u).isSome := by decide
  obtain ⟨_, _, _, cfg, -, -, -, -, -, -, hall, -⟩ := gateway_routes Env.demo ⟨9, 9, 9⟩ demoDb
    ⟨⟨0, "acme", ⟨some "mcp.acme.com", ⟨true⟩⟩⟩, 1⟩ (by decide) rfl
    (fun _ _ d dr u hd hu => hparse (d, dr) ((demoDb.mem_scan _ _ _).mpr hd.revision) u hu)
  exact ⟨cfg, hall 3 _ 5 _ ⟨rfl, rfl, rfl, rfl⟩⟩

end Jetski.GatewayConfig
