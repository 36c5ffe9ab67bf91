import Jetski.GatewayConfig
import Jetski.Isolation

/-!
# Gateway hosts

An organization is reached under its custom domain or else under the host made
of its name. Names are unique, but no query compares a custom domain with the
domains and names of other organizations. Hosts stay distinct as long as no
request takes one that is in use.
-/

set_option autoImplicit false

namespace Jetski.Hosts

open Relational Schema Jetski.Types Database Handlers Reachability Routes Requests Validation
open GatewayConfig (getEffectiveGatewayHost)

def gatewayHost (env : Env) (v : OrganizationRow) : String :=
  getEffectiveGatewayHost env ⟨v.name, Gateway.deployedSpec { v with id := 0 } []⟩

theorem gatewayHost_named (env : Env) (v : OrganizationRow) (h : v.settings.customDomain = none) :
    gatewayHost env v = env.gatewayHostFormat.sprintf v.name := by
  simp [gatewayHost, getEffectiveGatewayHost, Gateway.deployedSpec, h]

theorem gatewayHost_domain (env : Env) (v : OrganizationRow) (domain : String)
    (h : v.settings.customDomain = some domain) : gatewayHost env v = domain := by
  simp [gatewayHost, getEffectiveGatewayHost, Gateway.deployedSpec, h]

/-- What is applied for an organization has its host, whatever projects it has. -/
theorem gatewayHost_applied (env : Env) (org : Organization) (pss : List ProjectSummary) :
    getEffectiveGatewayHost env ⟨org.name, Gateway.deployedSpec org pss⟩ =
      gatewayHost env org.toOrganizationRow := rfl

def HostsDistinct (env : Env) (db : Db) : Prop :=
  ∀ o o' v v', db.row .organization o = some v → db.row .organization o' = some v' →
    gatewayHost env v = gatewayHost env v' → o = o'

/-- The request neither creates an organization under the custom domain of
another one nor gives an organization a host that is in use. -/
structure KeepsHosts (env : Env) (db : Db) (req : ApiRequest) : Prop where
  created : ∀ email name, req.email = some email → req.route = .postOrganization (some name) →
    validateName (trimSpace name) = .ok () →
    ∀ o v, db.row .organization o = some v →
      v.settings.customDomain ≠ some (env.gatewayHostFormat.sprintf (trimSpace name))
  updated : ∀ email o request, req.email = some email →
    req.route = .putOrganization (.value o) (some request) →
    ∀ u, ActsFor db env email u → Queries.isMember db u o = true →
    ∀ org org', Queries.organization db o = some org → requestedSettings org request = .ok org' →
    ∀ o' v, o' ≠ o → db.row .organization o' = some v →
      gatewayHost env v ≠ gatewayHost env org'.toOrganizationRow

section Step
variable {env : Env} {base db : Db}

theorem same_hosts (hs : Same base db) (h : HostsDistinct env base) : HostsDistinct env db :=
  fun o o' v v' hv hv' => h o o' v v' ((hs _ (by decide) o).symm.trans hv)
    ((hs _ (by decide) o').symm.trans hv')

theorem table_hosts (h : HostsDistinct env db) (ws : List Image)
    (hw : ∀ w ∈ ws, w.table ≠ .organization) : HostsDistinct env (db.replay ws) := by
  have hrow : ∀ o, (db.replay ws).row .organization o = db.row .organization o := fun o =>
    Store.replay_untouched db ws _ o fun w hm ht => hw w hm (congrArg Sigma.fst ht)
  intro o o' v v' hv hv'
  rw [hrow] at hv hv'
  exact h o o' v v' hv hv'

/-- Putting an organization under a host that no other one has. -/
theorem put_hosts {β : Type} (h : HostsDistinct env db) (o : UUID) (v : OrganizationRow) (b b' : β)
    (ws : List Image) (hp : Queries.putRow db .organization o v b = .ok (b', ws))
    (hv : ∀ o' v', o' ≠ o → db.row .organization o' = some v' →
      gatewayHost env v' ≠ gatewayHost env v) : HostsDistinct env (db.replay ws) := by
  rw [(Ownership.putRow_ok db .organization o v b b' ws hp).2]
  intro o₁ o₂ v₁ v₂ h₁ h₂ he
  simp only [Store.replay_cons, Store.replay_nil, Store.write] at h₁ h₂
  rw [db.set_row] at h₁ h₂
  split at h₁ <;> split at h₂
  · next e₁ e₂ => exact e₁.trans e₂.symm
  · next e₁ e₂ =>
    cases h₁
    exact absurd he.symm (hv o₂ v₂ e₂ h₂)
  · next e₁ e₂ =>
    cases h₂
    exact absurd he (hv o₁ v₁ e₁ h₁)
  · exact h o₁ o₂ v₁ v₂ h₁ h₂ he

/-- A new name differs from all others, so only custom domains can be in the way. -/
theorem createOrganization_hosts (h : HostsDistinct env db) (name : String)
    (hfree : ∀ o v, db.row .organization o = some v →
      v.settings.customDomain ≠ some (env.gatewayHostFormat.sprintf name))
    (t : Tick) (org : Organization) (ws : List Image)
    (hf : Queries.createOrganization name t db = .ok (org, ws)) :
    HostsDistinct env (db.replay ws) := by
  have habs := insertRow_absent _ _ _ _ _ _ _ hf
  rw [Queries.createOrganization, Queries.insertRow, habs] at hf
  refine put_hosts h _ _ _ _ ws hf fun o v ho hv => ?_
  rw [gatewayHost_named env ⟨t.start, name, ⟨none, ⟨true⟩⟩⟩ rfl]
  cases hd : v.settings.customDomain with
  | none =>
    rw [gatewayHost_named env v hd]
    intro he
    exact ho (Isolation.putRow_name _ _ _ _ _ hf o v hv (sprintf_injective _ _ _ he))
  | some domain =>
    rw [gatewayHost_domain env v domain hd]
    intro he
    exact hfree o v hv (hd.trans (congrArg some he))

theorem updateOrganization_hosts (h : HostsDistinct env db) (org : Organization)
    (hname : ∀ v, db.row .organization org.id = some v → v.name = org.name)
    (hfree : ∀ o v, o ≠ org.id → db.row .organization o = some v →
      gatewayHost env v ≠ gatewayHost env org.toOrganizationRow)
    (t : Tick) (org' : Organization) (ws : List Image)
    (hf : Queries.updateOrganization org t db = .ok (org', ws)) :
    HostsDistinct env (db.replay ws) := by
  rw [Queries.updateOrganization] at hf
  split at hf
  · cases hf
  · next v hv =>
    refine put_hosts h _ _ _ _ ws hf fun o v' ho hv' he => hfree o v' ho hv' ?_
    rw [he, gatewayHost, gatewayHost, Gateway.deployedSpec, Gateway.deployedSpec, hname v hv]

variable (user : UserAccount)

theorem postOrganization_meets (h : HostsDistinct env base) (name : Option String)
    (hk : ∀ n, name = some n → validateName (trimSpace n) = .ok () →
      ∀ o v, base.row .organization o = some v →
        v.settings.customDomain ≠ some (env.gatewayHostFormat.sprintf (trimSpace n))) :
    Meets (Leaves (HostsDistinct env)) (postOrganizationHandler user name) false (Same base) := by
  have hend : Leaves (HostsDistinct env) () false (Same base) := ⟨rfl, fun _ hs => same_hosts hs h⟩
  have hend' : Leaves (HostsDistinct env) () false (HostsDistinct env) := ⟨rfl, fun _ h => h⟩
  cases name with
  | none => exact ⟨trivial, hend⟩
  | some name =>
    have hfree := hk name rfl
    simp only [postOrganizationHandler, Prog.bind_eq]
    generalize validateName (trimSpace name) = valid at hfree
    refine meets_bind _ _ _ _ _ false _ (meets_validate _ _ false _ _ _ (fun _ _ => trivial) hend
      fun hok => ?_)
    refine meets_bind _ _ _ _ _ false _ (meets_mapError _ _ false _ _ _ _ _ _ (HostsDistinct env)
      (fun _ => rfl) (fun e => ?_) (fun _ hs => same_hosts hs h) fun t db org ws hs hf => ⟨?_, ?_⟩)
    · cases e <;> exact ⟨trivial, hend⟩
    · exact createOrganization_hosts (same_hosts hs h) _
        (fun o v hv => hfree hok o v ((hs _ (by decide) o).symm.trans hv)) t org ws hf
    · refine meets_bind _ _ _ _ _ false _ ⟨fun _ => rfl, fun e => ⟨trivial, hend'⟩,
        HostsDistinct env, fun _ h => h, fun t db b ws hd hf => ⟨?_, trivial, hend'⟩⟩
      rw [Queries.addUserToOrganization] at hf
      split at hf
      · cases hf
        exact hd
      · exact table_hosts hd ws (putRow_table (· ≠ .organization) _ _ _ _ _ _ _ (by decide) hf)

theorem putOrganization_meets (h : HostsDistinct env base) (organizationID : Param UUID)
    (body : Option OrganizationSettingsRequest)
    (hk : ∀ o request, organizationID = .value o → body = some request →
      Queries.isMember base user.id o = true → ∀ org org', Queries.organization base o = some org →
      requestedSettings org request = .ok org' → ∀ o' v, o' ≠ o →
      base.row .organization o' = some v →
        gatewayHost env v ≠ gatewayHost env org'.toOrganizationRow) :
    Meets (Leaves (HostsDistinct env)) (putOrganizationHandler env user organizationID body) false
      (Same base) := by
  have hend : Leaves (HostsDistinct env) () false (Same base) := ⟨rfl, fun _ hs => same_hosts hs h⟩
  have hend' : Leaves (HostsDistinct env) () false (HostsDistinct env) := ⟨rfl, fun _ h => h⟩
  refine meets_withOrganization _ _ _ user _ organizationID _ (fun _ _ => trivial) hend
    fun org horg ⟨db₀, hs₀, hrow, hm⟩ => ?_
  rw [Queries.organization, hs₀ _ (by decide), ← Queries.organization] at hrow
  rw [Queries.isMember, hs₀ _ (by decide), ← Queries.isMember] at hm
  cases body with
  | none => exact ⟨trivial, hend⟩
  | some request =>
    dsimp only
    split
    · exact ⟨trivial, hend⟩
    · next org' hreq =>
      obtain ⟨hid, hname⟩ := requestedSettings_org org org' request hreq
      have hfree := hk org.id request horg rfl hm org org' hrow hreq
      simp only [Prog.bind_eq]
      refine meets_bind _ _ _ _ _ false _ ?_
      split
      · refine meets_mapError _ _ false _ _ _ _ _ _ (HostsDistinct env) (fun _ => rfl)
          (fun e => ⟨trivial, hend⟩) (fun _ hs => same_hosts hs h) fun t db res ws hs hf => ⟨?_, ?_⟩
        · refine updateOrganization_hosts (same_hosts hs h) org' (fun v hv => ?_) (fun o v ho hv =>
            hfree o v (hid ▸ ho) ((hs .organization (by decide) o).symm.trans hv)) t res ws hf
          rw [hs .organization (by decide), hid] at hv
          rw [Queries.organization, hv] at hrow
          have hv : v.name = org.name := congrArg (fun org => org.name) (Option.some.inj hrow)
          exact hv.trans hname.symm
        · exact meets_bind _ _ _ _ _ false _ (meets_applyGateway _ _ false _ _ env .pool res
            (fun _ => rfl) trivial (fun _ => trivial) fun _ => ⟨trivial, hend'⟩)
      · exact meets_bind _ _ _ _ _ false _ (meets_applyGateway _ _ false _ _ env .pool org'
          (fun _ => rfl) trivial (fun _ => trivial) fun _ => ⟨trivial, hend⟩)

end Step

section Requests
variable (rt : Analytics.Runtime) (env : Env)

/-- One request keeps all hosts distinct, unless it takes one that is in use. -/
theorem perform_hosts (srv : Srv Unit) (req : ApiRequest) (h : HostsDistinct env srv.db)
    (hk : KeepsHosts env srv.db req) : HostsDistinct env (req.perform rt env srv).db := by
  by_cases ht : .organization ∈ ApiRuns.tablesOf req.route
  · obtain ⟨email, route, fails⟩ := req
    cases email with
    | none => exact h
    | some email =>
      cases route
      case postOrganization name =>
        refine perform_leaves _ rt env srv email _ fails h _ (fun _ hs => hs)
          fun user _ => postOrganization_meets user h name fun n hn => ?_
        exact hk.created email n rfl (by rw [hn])
      case putOrganization organizationID body =>
        refine perform_leaves _ rt env srv email _ fails h _ (fun _ hs => hs)
          fun user ha => putOrganization_meets user h organizationID body fun o request ho hb => ?_
        exact hk.updated email o request rfl (by rw [ho, hb]) user.id ha
      all_goals simp [ApiRuns.tablesOf, ownedTables] at ht
  · intro o o' v v' hv hv'
    rw [perform_quiet rt env srv req _ (by decide) ht] at hv hv'
    exact h o o' v v' hv hv'

/-- Along every history of requests none of which takes a host in use, distinct
organizations have distinct hosts. -/
theorem served_hosts_distinct (srv₀ srv : Srv Unit) (h₀ : srv₀.db = Store.empty)
    (h : Serves rt env (KeepsHosts env) srv₀ srv) : HostsDistinct env srv.db := by
  induction h with
  | refl =>
    intro o o' v v' hv
    rw [h₀] at hv
    cases hv
  | tail _ hs ih =>
    obtain ⟨req, hk, rfl⟩ := hs
    exact perform_hosts rt env _ req ih hk

def domained (domain : String) : List ApiRequest :=
  [⟨some "ada@acme.com", ApiRuns.demoFounding, fun _ => false⟩,
    ⟨some "bob@beta.com", .postOrganization (some "beta"), fun _ => false⟩,
    ⟨some "bob@beta.com", .putOrganization (.value 5) (some ⟨some domain, none⟩), fun _ => false⟩]

/-- A custom domain that nobody uses. -/
theorem served_hosts_distinct_demo : HostsDistinct Env.demo (performAll Analytics.Runtime.stable
    Env.demo (domained "mcp.beta.dev") fresh).db := by
  refine served_hosts_distinct Analytics.Runtime.stable Env.demo fresh _ rfl
    (serves_performAll _ _ _ _ _ ⟨⟨fun _ _ _ _ _ _ _ hv => ?_, nofun⟩,
      ⟨fun email name _ hroute _ o v hv => ?_, nofun⟩,
      ⟨nofun, fun email o request _ hroute u _ _ org org' horg hreq o' v ho hv => ?_⟩,
      trivial⟩)
  · cases hv
  · cases hroute
    have hall : ∀ x ∈ (performAll Analytics.Runtime.stable Env.demo
        ((domained "mcp.beta.dev").take 1) fresh).db.scan .organization,
        x.2.settings.customDomain ≠ some "beta.hyprmcp.cloud" := by
      decide
    exact hall (o, v) ((Store.mem_scan _ _ _ _).mpr hv)
  · cases hroute
    have hbeta : Queries.organization (performAll Analytics.Runtime.stable Env.demo
        ((domained "mcp.beta.dev").take 2) fresh).db 5 =
          some ⟨⟨4, "beta", ⟨none, ⟨true⟩⟩⟩, 5⟩ := by
      decide
    cases hbeta.symm.trans horg
    have hnew : requestedSettings ⟨⟨4, "beta", ⟨none, ⟨true⟩⟩⟩, 5⟩ ⟨some "mcp.beta.dev", none⟩ =
        .ok ⟨⟨4, "beta", ⟨some "mcp.beta.dev", ⟨true⟩⟩⟩, 5⟩ := by
      decide
    cases hnew.symm.trans hreq
    have hall : ∀ x ∈ (performAll Analytics.Runtime.stable Env.demo
        ((domained "mcp.beta.dev").take 2) fresh).db.scan .organization, x.1 ≠ 5 →
        gatewayHost Env.demo x.2 ≠ "mcp.beta.dev" := by
      decide
    exact hall (o', v) ((Store.mem_scan _ _ _ _).mpr hv) ho

/-- The host made of another organization's name is accepted as a custom domain. -/
theorem custom_domain_takes_host : ∃ srv, Serves Analytics.Runtime.stable Env.demo
    (fun _ _ => True) fresh srv ∧ ¬ HostsDistinct Env.demo srv.db := by
  refine ⟨_, serves_performAll _ _ _ (domained "acme.hyprmcp.cloud") fresh
    ⟨trivial, trivial, trivial, trivial⟩, fun h => ?_⟩
  have hboth : ∃ x ∈ (performAll Analytics.Runtime.stable Env.demo
      (domained "acme.hyprmcp.cloud") fresh).db.scan .organization,
      ∃ y ∈ (performAll Analytics.Runtime.stable Env.demo
        (domained "acme.hyprmcp.cloud") fresh).db.scan .organization,
        x.1 ≠ y.1 ∧ gatewayHost Env.demo x.2 = gatewayHost Env.demo y.2 := by
    decide
  obtain ⟨x, hx, y, hy, hne, he⟩ := hboth
  exact hne (h _ _ _ _ ((Store.mem_scan _ _ _ _).mp hx) ((Store.mem_scan _ _ _ _).mp hy) he)

end Requests
end Jetski.Hosts
