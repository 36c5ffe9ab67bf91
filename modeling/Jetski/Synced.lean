import Jetski.Settings
import Jetski.Duties
import Jetski.Existence
import Jetski.Relational.Mirror

/-!
# Gateways in step with the rows

What the gateway of an organization is to list, the call that `Apply` makes from
the rows, and the changes of rows that a gateway need not learn of.
-/

set_option autoImplicit false

namespace Jetski.GatewaySync

open Relational Schema Jetski.Types Database Gateway GatewayConfig Summaries Handlers Routes
open Duties Reachability

def entry (id : UUID) (p : ProjectRow) (d : UUID) (dr : DeploymentRevisionRow) : ProjectSpec :=
  ⟨uuidString id, p.name, uuidString d, dr.authenticated, dr.telemetry, dr.proxyURL⟩

/-- The specification has the settings of the organization and lists its deployed
projects, each once and as its latest revision demands. -/
structure Lists (db : Db) (org : Organization) (spec : MCPGatewaySpec) : Prop where
  organizationID : spec.organizationID = uuidString org.id
  organizationName : spec.organizationName = org.name
  customDomain : spec.customDomain = org.settings.customDomain
  publicClient : spec.publicClient = org.settings.authorization.dcrPublicClient
  nodup : (spec.projects.map (fun s => s.projectID)).Nodup
  projects : ∀ s, s ∈ spec.projects ↔
    ∃ id p d dr, Deployed db org.id id p d dr ∧ s = entry id p d dr

/-- The gateway of an organization with a deployed project exists and lists the
deployed projects; that of an organization without projects does not exist. -/
structure Synced (orgID : UUID) (g : Cluster) (db : Db) : Prop where
  listed : ∀ org, Queries.organization db orgID = some org →
    (∃ id p d dr, Deployed db orgID id p d dr) → ∃ spec, g org.name = some spec ∧ Lists db org spec
  absent : ∀ org, Queries.organization db orgID = some org →
    (∀ id p, db.row .project id = some p → p.organizationID ≠ orgID) → g org.name = none

/-- The call that `Apply` makes from the rows. -/
def gatewayCall (env : Env) (db : Db) (org : Organization) : KubeCall :=
  if Queries.projectSummaries env db org.id = [] then .delete org.name
  else .apply org.name (gatewaySpec org (Queries.projectSummaries env db org.id))

section Listed
variable (env : Env) (db : Db)

end Listed

/-! ## What the gateway need not learn of -/

/-- The images only add a project without a revision. -/
def AddsProject (ws : List Image) (db : Db) : Prop :=
  ∃ id v, ws = [(⟨.project, id, some v⟩ : Image)] ∧ v.latestDeploymentRevisionID = none ∧
    db.row .project id = none

/-- The gateway depends on the organization and its deployed projects alone. -/
theorem synced_same (orgID : UUID) (g : Cluster) (db db' : Db)
    (horg : Queries.organization db' orgID = Queries.organization db orgID)
    (hdeployed : ∀ o id p d dr, Deployed db' o id p d dr ↔ Deployed db o id p d dr)
    (hprojects : ∀ id p, db.row .project id = some p → db'.row .project id = some p)
    (h : Synced orgID g db) : Synced orgID g db' := by
  constructor
  · rintro org ho ⟨id, p, d, dr, hd⟩
    obtain ⟨spec, hspec, hl⟩ := h.listed org (horg ▸ ho) ⟨id, p, d, dr, (hdeployed _ _ _ _ _).mp hd⟩
    refine ⟨spec, hspec, { hl with projects := fun s => (hl.projects s).trans ?_ }⟩
    simp only [hdeployed]
  · exact fun org ho hno => h.absent org (horg ▸ ho) fun id p hp => hno id p (hprojects id p hp)

/-- The rows after an additional project without a revision. -/
theorem synced_added (orgID : UUID) (g : Cluster) (db db' : Db) (id : UUID) (v : ProjectRow)
    (hlatest : v.latestDeploymentRevisionID = none) (hnew : db.row .project id = none)
    (hadded : db'.row .project id = some v)
    (hprojects : ∀ id', id' ≠ id → db'.row .project id' = db.row .project id')
    (hrows : ∀ t k, t ≠ .project → db'.row t k = db.row t k) (h : Synced orgID g db) :
    Synced orgID g db' := by
  have horg : Queries.organization db' orgID = Queries.organization db orgID := by
    rw [Queries.organization, Queries.organization, hrows .organization orgID (by decide)]
  have hdeployed : ∀ o id' p d dr, Deployed db' o id' p d dr ↔ Deployed db o id' p d dr := by
    intro o id' p d dr
    have hrevision := hrows .deploymentRevision d (by decide)
    by_cases hid : id' = id
    · subst hid
      constructor
      · intro hd
        cases hadded.symm.trans hd.project
        cases hlatest.symm.trans hd.latest
      · intro hd
        cases hnew.symm.trans hd.project
    · have hproject := hprojects id' hid
      constructor
      · exact fun hd => ⟨hproject ▸ hd.project, hd.organization, hd.latest, hrevision ▸ hd.revision⟩
      · exact fun hd => ⟨hproject ▸ hd.project, hd.organization, hd.latest, hrevision ▸ hd.revision⟩
  refine synced_same orgID g db db' horg hdeployed (fun id' p hp => ?_) h
  by_cases hid : id' = id
  · subst hid
    cases hnew.symm.trans hp
  · exact (hprojects id' hid).trans hp

def mirror (orgID : UUID) : Mirror Key Row Cluster where
  shows := Synced orgID
  inert := AddsProject
  keeps g db ws pending hinert hfree h := by
    obtain ⟨id, v, rfl, hlatest, hnew⟩ := hinert
    have hlocked : ∀ w' ∈ pending, ¬ Store.Touches w' .project id := by
      intro w' hw' ht
      exact hfree _ (List.mem_singleton_self _) w' hw' (Eq.symm ht)
    refine synced_added orgID g _ _ id v hlatest ?_ ?_ (fun id' hid => ?_) (fun t k ht => ?_) h
    · rw [Store.replay_untouched db pending _ _ hlocked, hnew]
    · rw [Store.replay_untouched _ pending _ _ hlocked]
      exact db.set_same .project id (some v)
    · exact Store.replay_agrees _ _ pending _ _ (db.set_key .project id id' (some v) hid)
    · exact Store.replay_agrees _ _ pending _ _ (db.set_table .project t id k (some v) ht)

end Jetski.GatewaySync
