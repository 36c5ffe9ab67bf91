import Jetski.GatewayConfig
import Jetski.Kubernetes
import Jetski.Validation

/-!
# The objects of a gateway

What the sync webhook answers with, as objects of the cluster. The objects of
two gateways are told apart by their names and by the organization in their
labels, and the names of all of them come from the name of the organization.
-/

set_option autoImplicit false

namespace Jetski.Children

open Schema Jetski.Types Gateway GatewayConfig Kubernetes Validation

/-- The configured image and Ingress, and the texts made of a configuration. -/
structure GatewayEnv extends Env where
  gatewayContainerImageTag : String
  gatewayIngressAnnotations : StringMap
  gatewayIngressClass : String
  /-- `yaml.Marshal` -/
  yamlString : Config → Option String
  /-- `hex.EncodeToString` of `sha256.Sum256` -/
  sha256 : String → String

/-- `request.Parent` -/
structure Parent extends MCPGateway where
  «namespace» : String

def configName (parent : Parent) : String := parent.name++"-config"

def gatewayName (parent : Parent) : String := parent.name++"-gateway"

def gatewayLabels (parent : Parent) : StringMap :=
  [("app", "mcp-gateway"), ("jetskiOrganization", parent.spec.organizationID)]

def configMap (parent : Parent) (gatewayConfigStr : String) : Object :=
  .configMap { name := configName parent, «namespace» := parent.namespace }
    [("config.yaml", gatewayConfigStr)]

def gatewayContainer (env : GatewayEnv) : Container where
  name := "gateway"
  image := env.gatewayContainerImageTag
  imagePullPolicy := "IfNotPresent"
  args := ["--config", "/opt/config.yaml"]
  resources := {
    limits := [("memory", "128Mi"), ("cpu", "500m")]
    requests := [("memory", "16Mi"), ("cpu", "5m")] }
  ports := [("http", 9000)]
  volumeMounts := [⟨"config", "config.yaml", "/opt/config.yaml"⟩]

def deployment (env : GatewayEnv) (parent : Parent) (gatewayConfigStr : String) : Object :=
  .deployment { name := gatewayName parent, «namespace» := parent.namespace } {
    matchLabels := gatewayLabels parent
    template := {
      labels := gatewayLabels parent
      annotations := [("gatewayConfigHash", env.sha256 gatewayConfigStr)]
      spec := {
        imagePullSecrets := ["image-pull-secret"]
        containers := [gatewayContainer env]
        volumes := [⟨"config", configName parent⟩] } } }

def service (parent : Parent) : Object :=
  .service { name := gatewayName parent, «namespace» := parent.namespace }
    { selector := gatewayLabels parent, ports := [("http", 9000)] }

def ingress (env : GatewayEnv) (parent : Parent) : Object :=
  .ingress {
    name := parent.name
    «namespace» := parent.namespace
    annotations := env.gatewayIngressAnnotations } {
    ingressClassName := if env.gatewayIngressClass ≠ "" then some env.gatewayIngressClass else none
    rules := [{
      host := getEffectiveGatewayHost env.toEnv parent.toMCPGateway
      paths := [⟨"/", "Prefix", ⟨gatewayName parent, 9000⟩⟩] }] }

def objects (env : GatewayEnv) (parent : Parent) (gatewayConfigStr : String) : List Object :=
  [configMap parent gatewayConfigStr, deployment env parent gatewayConfigStr, service parent,
    ingress env parent]

/-- `request.GetDesiredChildren`, unless it fails. -/
def getDesiredChildren (env : GatewayEnv) (parent : Parent) : Option (List Object) := do
  let gatewayConfig ← getGatewayConfig env.toEnv parent.toMCPGateway
  let gatewayConfigStr ← env.yamlString gatewayConfig
  return objects env parent gatewayConfigStr

theorem getDesiredChildren_some (env : GatewayEnv) (parent : Parent) (os : List Object)
    (h : getDesiredChildren env parent = some os) : ∃ gatewayConfig gatewayConfigStr,
      getGatewayConfig env.toEnv parent.toMCPGateway = some gatewayConfig ∧
      env.yamlString gatewayConfig = some gatewayConfigStr ∧
      os = objects env parent gatewayConfigStr := by
  unfold getDesiredChildren at h
  cases hc : getGatewayConfig env.toEnv parent.toMCPGateway with
  | none => simp [hc] at h
  | some gatewayConfig =>
    cases hy : env.yamlString gatewayConfig with
    | none => simp [hc, hy] at h
    | some gatewayConfigStr =>
      simp only [hc, hy, Option.bind_eq_bind, Option.bind_some] at h
      exact ⟨gatewayConfig, gatewayConfigStr, rfl, hy, (Option.some.inj h).symm⟩

theorem deployment_mem (env : GatewayEnv) (parent : Parent) (s : String) (m : ObjectMeta)
    (spec : DeploymentSpec) (h : Object.deployment m spec ∈ objects env parent s) :
    Object.deployment m spec = deployment env parent s := by
  simpa [objects, configMap, service, ingress] using h

theorem service_mem (env : GatewayEnv) (parent : Parent) (s : String) (m : ObjectMeta)
    (spec : ServiceSpec) (h : Object.service m spec ∈ objects env parent s) :
    Object.service m spec = service parent := by
  simpa [objects, configMap, deployment, ingress] using h

theorem ingress_mem (env : GatewayEnv) (parent : Parent) (s : String) (m : ObjectMeta)
    (spec : IngressSpec) (h : Object.ingress m spec ∈ objects env parent s) :
    Object.ingress m spec = ingress env parent := by
  simpa [objects, configMap, deployment, service] using h

structure Outlined (env : GatewayEnv) (children : GatewayConfig.Children)
    (os : List Object) : Prop where
  configMap : ∃ m data, Object.configMap m data ∈ os ∧ m.name = children.configMap.name ∧
    data.lookup "config.yaml" = env.yamlString children.configMap.config
  deployment : ∃ m spec, Object.deployment m spec ∈ os ∧
    m.name = children.deployment.name ∧ spec.template.labels = children.deployment.labels ∧
    spec.template.spec.mounted "config.yaml" = [children.deployment.volumeConfig]
  service : ∃ m spec, Object.service m spec ∈ os ∧ m.name = children.service.name ∧
    spec.selector = children.service.selector
  ingress : ∃ m spec, Object.ingress m spec ∈ os ∧ m.name = children.ingress.name ∧
    spec.rules.map (fun rule => rule.host) = [children.ingress.host] ∧
    spec.backends = [⟨children.ingress.backendName, children.ingress.backendPort⟩]

theorem getDesiredChildren_outlined (env : GatewayEnv) (parent : Parent) (os : List Object)
    (h : getDesiredChildren env parent = some os) :
    ∃ children, GatewayConfig.getDesiredChildren env.toEnv parent.toMCPGateway = some children ∧
      Outlined env children os := by
  obtain ⟨gatewayConfig, gatewayConfigStr, hc, hy, rfl⟩ := getDesiredChildren_some env parent _ h
  have houtline : GatewayConfig.getDesiredChildren env.toEnv parent.toMCPGateway = some
      ⟨⟨configName parent, gatewayConfig⟩, ⟨gatewayName parent, gatewayLabels parent,
        configName parent⟩, ⟨gatewayName parent, gatewayLabels parent, 9000⟩,
        ⟨parent.name, getEffectiveGatewayHost env.toEnv parent.toMCPGateway, "/",
          gatewayName parent, 9000⟩⟩ := by
    simp only [GatewayConfig.getDesiredChildren, hc]
    rfl
  refine ⟨_, houtline, ?_, ?_, ?_, ?_⟩
  · exact ⟨_, _, .head _, rfl, hy.symm⟩
  · exact ⟨_, _, .tail _ (.head _), rfl, rfl, rfl⟩
  · exact ⟨_, _, .tail _ (.tail _ (.head _)), rfl, rfl⟩
  · exact ⟨_, _, .tail _ (.tail _ (.tail _ (.head _))), rfl, rfl, rfl⟩

/-! ## Two gateways -/

/-- The objects of one gateway refer to each other, and not to those of another one. -/
structure Wired (env : GatewayEnv) (own other : List Object) : Prop where
  kinds : own.map (fun o => o.typeMeta.kind) = ["ConfigMap", "Deployment", "Service", "Ingress"]
  backend : ∀ m spec, Object.ingress m spec ∈ own → ∃ m' spec' port,
    Object.service m' spec' ∈ own ∧ spec.backends = [⟨m'.name, port⟩] ∧
      port ∈ spec'.ports.map Prod.snd
  selector : ∀ m spec m' spec', Object.service m spec ∈ own →
    Object.deployment m' spec' ∈ own → selects spec.selector spec'.template.labels
  selectorOther : ∀ m spec m' spec', Object.service m spec ∈ own →
    Object.deployment m' spec' ∈ other → ¬ selects spec.selector spec'.template.labels
  config : ∀ m spec, Object.deployment m spec ∈ own → ∃ m' data content,
    Object.configMap m' data ∈ own ∧ spec.template.spec.mounted "config.yaml" = [m'.name] ∧
      data = [("config.yaml", content)] ∧
      spec.template.annotations.lookup "gatewayConfigHash" = some (env.sha256 content)

theorem gatewayLabels_selects (a b : Parent) :
    selects (gatewayLabels a) (gatewayLabels b) ↔
      a.spec.organizationID = b.spec.organizationID := by
  have happ : (gatewayLabels b).lookup "app" = some "mcp-gateway" := rfl
  have hid : (gatewayLabels b).lookup "jetskiOrganization" = some b.spec.organizationID := rfl
  constructor
  · intro h
    have ha := selects_lookup _ _ "jetskiOrganization" a.spec.organizationID h (.tail _ (.head _))
    exact Option.some.inj (ha.symm.trans hid)
  · intro h
    simp only [selects, gatewayLabels, List.all_cons, List.all_nil] at happ hid ⊢
    simp [happ, hid, h]

theorem objects_wired (env : GatewayEnv) (a b : Parent) (s s' : String)
    (horg : a.spec.organizationID ≠ b.spec.organizationID) :
    Wired env (objects env a s) (objects env b s') := by
  constructor
  · rfl
  · intro m spec h
    cases ingress_mem env a s m spec h
    exact ⟨_, _, 9000, .tail _ (.tail _ (.head _)), rfl, .head _⟩
  · intro m spec m' spec' h h'
    cases service_mem env a s m spec h
    cases deployment_mem env a s m' spec' h'
    exact (gatewayLabels_selects a a).mpr rfl
  · intro m spec m' spec' h h' hs
    cases service_mem env a s m spec h
    cases deployment_mem env b s' m' spec' h'
    exact horg ((gatewayLabels_selects a b).mp hs)
  · intro m spec h
    cases deployment_mem env a s m spec h
    exact ⟨_, _, s, .head _, rfl, rfl, rfl⟩

def ending (kind : String) : String :=
  if kind = "ConfigMap" then "-config" else if kind = "Ingress" then "" else "-gateway"

theorem objects_meta (env : GatewayEnv) (parent : Parent) (s : String) (o : Object)
    (h : o ∈ objects env parent s) : o.objectMeta.namespace = parent.namespace ∧
      o.objectMeta.name = parent.name++ending o.typeMeta.kind := by
  simp only [objects, List.mem_cons, List.not_mem_nil, or_false] at h
  rcases h with rfl | rfl | rfl | rfl
  · exact ⟨rfl, rfl⟩
  · exact ⟨rfl, rfl⟩
  · exact ⟨rfl, rfl⟩
  · exact ⟨rfl, String.append_empty.symm⟩

/-- The objects of two gateways differ in kind or name, and each gateway is
made of its own. -/
theorem gateways_isolated (env : GatewayEnv) (a b : Parent) (as bs : List Object)
    (hns : a.namespace = b.namespace) (hname : a.name ≠ b.name)
    (horg : a.spec.organizationID ≠ b.spec.organizationID)
    (ha : getDesiredChildren env a = some as) (hb : getDesiredChildren env b = some bs) :
    (∀ x ∈ as++bs, x.objectMeta.namespace = a.namespace) ∧
      (∀ x ∈ as, ∀ y ∈ bs, x.typeMeta.kind = y.typeMeta.kind →
        x.objectMeta.name ≠ y.objectMeta.name) ∧
      Wired env as bs ∧ Wired env bs as := by
  obtain ⟨_, s, -, -, rfl⟩ := getDesiredChildren_some env a as ha
  obtain ⟨_, s', -, -, rfl⟩ := getDesiredChildren_some env b bs hb
  refine ⟨?_, ?_, objects_wired env a b s s' horg, objects_wired env b a s' s horg.symm⟩
  · intro x hx
    rcases List.mem_append.mp hx with h | h
    · exact (objects_meta env a s x h).1
    · exact (objects_meta env b s' x h).1.trans hns.symm
  · intro x hx y hy hkind heq
    rw [(objects_meta env a s x hx).2, (objects_meta env b s' y hy).2, hkind] at heq
    exact hname ((String.append_left_inj _).mp heq)

def demoYAML (cfg : Config) : Option String :=
  if cfg.proxy = [] then some (
    "host: "++cfg.host.string++"\nauthorization:\n    server: "++cfg.authorization.server++
    "\n    serverMetadataProxyEnabled: true\n    authorizationProxyEnabled: true\n"++
    "    dynamicClientRegistrationEnabled: true\n    dynamicClientRegistration:\n"++
    "        enabled: true\n        publicClient: true\ndexGRPCClient:\n    addr: "++
    cfg.dexGRPCClient++"\nproxy: []\n")
  else none

def demoParent (name organizationID : String) : Parent where
  name := name
  spec := ⟨organizationID, name, none, true, []⟩
  «namespace» := "default"

def demoEnv : GatewayEnv where
  toEnv := Env.demo
  gatewayContainerImageTag := "ghcr.io/jrmatherly/mcp-gateway:latest"
  gatewayIngressAnnotations := []
  gatewayIngressClass := "nginx"
  yamlString := demoYAML
  sha256 content :=
    if some content = demoYAML (config Env.demo (demoParent "acme" "1").toMCPGateway) then
      "13f7f7f76ba35aed4aa73e8192b5c9affe81aec316c7d0e5dcc30f8840bf644c"
    else if some content =
        demoYAML (config Env.demo (demoParent "acme-gateway" "2").toMCPGateway) then
      "5531da7f806fe4e469bd86f544116770a3ceedc312e1ca61893dec625428d93c"
    else ""

/-- One name is the other with the ending of a Service. -/
theorem gateways_isolated_demo : ∃ as bs,
    getDesiredChildren demoEnv (demoParent "acme" "1") = some as ∧
      getDesiredChildren demoEnv (demoParent "acme-gateway" "2") = some bs ∧
      Wired demoEnv as bs := by
  have h := gateways_isolated demoEnv (demoParent "acme" "1") (demoParent "acme-gateway" "2") _ _
    rfl (by decide) (by decide) rfl rfl
  exact ⟨_, _, rfl, rfl, h.2.2.1⟩

end Jetski.Children
