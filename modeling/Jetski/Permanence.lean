import Jetski.Requests
import Jetski.Relational.Lasting

/-!
# What lasts

No request changes an account, a revision, an event or a log once it is stored. Of
an organization only the settings change and of a project only its pointers.
Accounts and organizations are never removed. What is removed with a project never
comes back, since identifiers are drawn once and an update that still waits locks
the row against the deletion.
-/

set_option autoImplicit false

namespace Jetski.Permanence

open Relational Schema Jetski.Types Database Handlers Reachability Routes Ownership
open ApiRuns (demoServe demoFounding demoOpening demoCreation)

/-! ## Lasting columns -/

/-- The row with all its columns that statements change set to a fixed value. -/
def lasting : (t : Table) → Row t → Row t
  | .organization, v => { v with settings := ⟨none, ⟨true⟩⟩ }
  | .project, v => { v with
    latestDeploymentRevisionID := none
    latestDeploymentRevisionEventID := none }
  | .organizationUserAccount, _ => ⟨0⟩
  | .userAccount, v => v
  | .deploymentRevision, v => v
  | .deploymentRevisionEvent, v => v
  | .mcpServerLog, v => v
  | .contextProperty, v => v
  | .context, v => v

def contents : Labelling Key Row ((t : Table) × Row t) where
  label t v := ⟨t, lasting t v⟩
  born := born
  agrees _ _ _ _ := True
  mono _ _ _ _ _ _ := id

/-- Memberships are the only rows without an identifier of their own. -/
def Drawn (t : Table) : Prop := t ≠ .organizationUserAccount

theorem contents_eq (t : Table) (v v' : Row t) (h : lasting t v = lasting t v') :
    contents.label t v = contents.label t v' :=
  congrArg (Sigma.mk t) h

/-! ## Statements -/

section Statements
variable (R : Table → Prop) {β : Type}

abbrev Kept (f : Queries.Sql β) : Prop :=
  ∀ t db b ws, f t db = .ok (b, ws) → Lasts contents R t db ws

theorem lasting_query (name : Stmt) (db : Handle) (f : Queries.Sql β) (h : Kept R f) :
    (query name db f).Lasting contents R :=
  ⟨h, fun _ => trivial⟩

theorem insertRow_kept (t : Tick) (db : Db) (tb : Table) (k : Key tb) (v : Row tb) (b b' : β)
    (ws : List Image) (hb : born tb k = t.fresh)
    (h : Queries.insertRow db tb k v b = .ok (b', ws)) : Lasts contents R t db ws := by
  rw [(insertRow_ok _ _ _ _ _ _ _ h).2]
  exact lasts_some contents R t db tb k v (Or.inr (Or.inl hb))

theorem putRow_kept (t : Tick) (db : Db) (tb : Table) (k : Key tb) (v v' : Row tb) (b b' : β)
    (ws : List Image) (hv : db.row tb k = some v) (h : Queries.putRow db tb k v' b = .ok (b', ws))
    (hl : lasting tb v = lasting tb v') : Lasts contents R t db ws := by
  rw [(putRow_ok _ _ _ _ _ _ _ h).2]
  exact lasts_some contents R t db tb k v' (Or.inl ⟨v, hv, contents_eq tb v v' hl⟩)

theorem select_kept (rows : Db → Except DbError β) : Kept R (Queries.select rows) := by
  intro t db b ws hf
  rw [read_ok _ b ws hf]
  exact lasts_nil contents R t db

theorem updateOrganization_kept (org : Organization) : Kept R (Queries.updateOrganization org) := by
  intro t db b ws hf
  rw [Queries.updateOrganization] at hf
  split at hf
  · cases hf
  · next v hv => exact putRow_kept R t db _ _ v _ _ _ ws hv hf rfl

theorem addUserToOrganization_kept (userID orgID : UUID) :
    Kept R (Queries.addUserToOrganization userID orgID) := by
  intro t db b ws hf
  rw [Queries.addUserToOrganization] at hf
  split at hf
  · cases hf
    exact lasts_nil contents R t db
  · rw [(putRow_ok _ _ _ _ _ _ _ hf).2]
    exact lasts_some contents R t db _ _ _ (Or.inr (Or.inr ⟨rfl, fun _ => rfl⟩))

theorem removeUserFromOrganization_kept (hm : R .organizationUserAccount) (userID orgID : UUID) :
    Kept R (Queries.removeUserFromOrganization userID orgID) := by
  intro t db b ws hf
  rw [Queries.removeUserFromOrganization] at hf
  split at hf <;> cases hf
  · exact lasts_none contents R t db _ _ hm
  · exact lasts_nil contents R t db

theorem getUserByEmailOrCreate_kept (env : Env) (email : String) :
    Kept R (Queries.getUserByEmailOrCreate env email) := by
  intro t db b ws hf
  rw [Queries.getUserByEmailOrCreate] at hf
  split at hf
  · split at hf
    · exact insertRow_kept R t db _ _ _ _ _ ws rfl hf
    · rw [read_ok _ b ws hf]
      exact lasts_nil contents R t db
  · cases hf

/-- The referential actions of a deletion clear pointers of projects at most. -/
theorem clear_lasting (f : Schema.ForeignKey) (hf : f ∈ foreignKeys) (v : Row f.child) :
    lasting f.child (f.clear v) = lasting f.child v := by
  simp only [foreignKeys, List.mem_cons, List.not_mem_nil, or_false] at hf
  rcases hf with rfl | rfl | rfl | rfl | rfl | rfl | rfl | rfl | rfl | rfl | rfl | rfl | rfl |
    rfl | rfl <;> rfl

theorem deleteProject_kept (hR : ∀ t ∈ ownedTables, R t) (projectID : UUID) :
    Kept R (Queries.deleteProject projectID) := by
  intro t db n ws hf
  refine ⟨fun tb k v hw => Or.inl ?_, fun w hw _ => ?_⟩
  · rw [Queries.deleteProject] at hf
    split at hf
    · cases hf
      cases hw
    · split at hf
      · cases hf
      · next hd =>
        cases hf
        obtain ⟨v', hv', hl⟩ := deleteRow_images foreignKeys tables
          (fun tb k v => ∃ v', db.row tb k = some v' ∧ lasting tb v' = lasting tb v)
          (fun f hf k v h =>
            h.imp fun v' hv' => ⟨hv'.1, hv'.2.trans (clear_lasting f hf v).symm⟩) _ _ db ws
          (fun tb k v hv => ⟨v, hv, rfl⟩) hd tb k v hw
        exact ⟨v', hv', contents_eq tb v' v hl⟩
  · exact hR _ (Requests.deleteProject_tables (fun t => t ∈ ownedTables) projectID t db n ws
      (fun _ h => h) hf w hw)

theorem updateLatestDeploymentRevision_kept (revisionID projectID : UUID) :
    Kept R (Queries.updateLatestDeploymentRevision revisionID projectID) := by
  intro t db b ws hf
  rw [Queries.updateLatestDeploymentRevision] at hf
  split at hf
  · cases hf
    exact lasts_nil contents R t db
  · next v hv => exact putRow_kept R t db _ _ v _ _ _ ws hv hf rfl

theorem updateLatestDeploymentRevisionEvent_kept (eventID revisionID : UUID) :
    Kept R (Queries.updateLatestDeploymentRevisionEvent eventID revisionID) := by
  intro t db b ws hf
  rw [Queries.updateLatestDeploymentRevisionEvent] at hf
  split at hf
  · cases hf
    exact lasts_nil contents R t db
  · split at hf
    · cases hf
      exact lasts_nil contents R t db
    · next v hv => exact putRow_kept R t db _ _ v _ _ _ ws hv hf rfl

theorem insertDeploymentRevision_kept (dr : Queries.NewRevision) :
    Kept R (Queries.insertDeploymentRevision dr) := by
  intro t db b ws hf
  rw [(insertDeploymentRevision_ok dr t db b ws hf).2.2]
  exact lasts_some contents R t db _ _ _ (Or.inr (Or.inl rfl))

theorem createMCPServerLog_kept (data : MCPServerLogRow5) :
    Kept R (Logs.createMCPServerLog data) := by
  intro t db b ws hf
  rw [Logs.createMCPServerLog] at hf
  split at hf
  · split at hf
    · cases hf
    · exact insertRow_kept R t db _ _ _ _ _ ws rfl hf
  · cases hf

end Statements

/-! ## Programs -/

section Programs
variable (R : Table → Prop)

theorem lasting_runTx {α : Type} (db : Handle) (f : Handle → Api (Except DbError α))
    (hf : ∀ tx, (f tx).Lasting contents R) : (runTx db f).Lasting contents R := by
  refine ⟨trivial, fun r => ?_⟩
  cases r with
  | none => trivial
  | some tx =>
    change (Prog.bind (f tx) _).Lasting contents R
    refine lasting_bind contents R _ _ (hf tx) fun r => ?_
    cases r with
    | error e => exact ⟨trivial, fun _ => trivial⟩
    | ok a => exact ⟨trivial, fun ok => by cases ok <;> exact trivial⟩

theorem lasting_revision (db : Handle) (dr : Queries.NewRevision)
    (projectID : DeploymentRevision → UUID) :
    (show Api (Except DbError DeploymentRevision) from do
      match ← query .insertDeploymentRevision db (Queries.insertDeploymentRevision dr) with
      | .error e => return .error e
      | .ok res =>
        match ← query .updateLatestDeploymentRevision db
            (Queries.updateLatestDeploymentRevision res.id (projectID res)) with
        | .error e => return .error e
        | .ok () => return .ok res).Lasting contents R := by
  refine lasting_bind contents R _ _
    (lasting_query R _ _ _ (insertDeploymentRevision_kept R dr)) fun r => ?_
  cases r with
  | error e => trivial
  | ok res =>
    refine lasting_bind contents R _ _
      (lasting_query R _ _ _ (updateLatestDeploymentRevision_kept R _ _)) fun r => ?_
    cases r <;> trivial

theorem lasting_applyGateway (env : Env) (db : Handle) (org : Organization) :
    (applyGateway env db org).Lasting contents R := by
  refine lasting_bind contents R _ _ (lasting_query R _ _ _ (select_kept R _)) fun r => ?_
  cases r with
  | error e => trivial
  | ok pss => exact ⟨trivial, fun ok => by cases ok <;> trivial⟩

theorem built_lasting (env : Env) (T : Table → Prop) (hm : R .organizationUserAccount)
    (hR : (∀ t ∈ ownedTables, T t) → ∀ t ∈ ownedTables, R t) {α : Type}
    (p : Api α) (h : Built env T (fun _ => True) p) : p.Lasting contents R := by
  induction h with
  | ret a => trivial
  | bind _ _ ihp ihf => exact lasting_bind contents R _ _ ihp ihf
  | runTx db _ ih => exact lasting_runTx R db _ ih
  | call c => exact ⟨trivial, fun _ => trivial⟩
  | applyGateway db org => exact lasting_applyGateway R env db org
  | emit o => exact ⟨trivial, fun _ => trivial⟩
  | select name db rows => exact lasting_query R _ _ _ (select_kept R rows)
  | createOrganization _ db name =>
    exact lasting_query R _ _ _ fun t s b ws hf => insertRow_kept R t s _ _ _ _ _ ws rfl hf
  | updateOrganization _ db org => exact lasting_query R _ _ _ (updateOrganization_kept R org)
  | addUserToOrganization _ db userID orgID =>
    exact lasting_query R _ _ _ (addUserToOrganization_kept R userID orgID)
  | removeUserFromOrganization _ db userID orgID =>
    exact lasting_query R _ _ _ (removeUserFromOrganization_kept R hm userID orgID)
  | getUserByEmailOrCreate _ db email =>
    exact lasting_query R _ _ _ (getUserByEmailOrCreate_kept R env email)
  | createProject _ db orgID createdBy name =>
    exact lasting_query R _ _ _ fun t s b ws hf => insertRow_kept R t s _ _ _ _ _ ws rfl hf
  | deleteProject ht db projectID =>
    exact lasting_query R _ _ _ (deleteProject_kept R (hR ht) projectID)
  | createDeploymentRevision _ _ db dr =>
    exact lasting_runTx R db _ fun _ => lasting_revision R db dr (fun res => res.projectID)
  | createHostedDeploymentRevision _ _ db now projectID =>
    exact lasting_runTx R db _ fun _ => lasting_revision R db _ (fun _ => projectID)
  | addDeploymentRevisionEvent _ _ db revisionID type timestamp =>
    refine lasting_bind contents R _ _ (lasting_query R _ _ _
      fun t s b ws hf => insertRow_kept R t s _ _ _ _ _ ws rfl hf) fun r => ?_
    cases r with
    | error e => trivial
    | ok e => exact lasting_query R _ _ _ (updateLatestDeploymentRevisionEvent_kept R e revisionID)
  | createMCPServerLog _ db data => exact lasting_query R _ _ _ (createMCPServerLog_kept R data)
  | insertContextProperty _ db v =>
    exact lasting_query R _ _ _ fun t s b ws hf => insertRow_kept R t s _ _ _ _ _ ws rfl hf
  | insertContext _ db v =>
    exact lasting_query R _ _ _ fun t s b ws hf => insertRow_kept R t s _ _ _ _ _ ws rfl hf

end Programs

/-! ## Requests -/

section Unopened

theorem unopened_query {β : Type} (name : Stmt) (db : Handle) (f : Queries.Sql β) :
    (query name db f).Unopened :=
  ⟨trivial, fun _ => trivial⟩

theorem unopened_respond (status : ℕ) (body : Body) : (respond status body).Unopened :=
  ⟨trivial, fun _ => trivial⟩

theorem unopened_withProject (user : UserAccount) (projectID : Param UUID) (f : UUID → Api Unit)
    (hf : ∀ id, (f id).Unopened) : (withProject user projectID f).Unopened := by
  refine unopened_bind _ _ ?_ fun id => ?_
  · cases projectID with
    | absent => trivial
    | invalid => exact unopened_bind _ _ (unopened_respond _ _) fun _ => trivial
    | value id =>
      refine unopened_bind _ _ (unopened_query _ _ _) fun r => ?_
      match r with
      | .error _ | .ok false => exact unopened_bind _ _ (unopened_respond _ _) fun _ => trivial
      | .ok true => trivial
  · split
    · trivial
    · exact hf id

/-- The deletion of a project is one statement, outside of any transaction. -/
theorem unopened_deleteProject (rt : Analytics.Runtime) (env : Env) (email : Option String)
    (projectID : Param UUID) : (serve rt env email (.deleteProject projectID)).Unopened := by
  cases email with
  | none => exact unopened_respond _ _
  | some email =>
    refine unopened_bind _ _ (unopened_bind _ _ (unopened_query _ _ _) fun _ => trivial) fun r => ?_
    match r with
    | .error e => cases e <;> exact unopened_respond _ _
    | .ok user =>
      refine unopened_withProject user projectID _ fun id => ?_
      refine unopened_bind _ _ (unopened_query _ _ _) fun r => ?_
      match r with
      | .error e => cases e <;> exact unopened_respond _ _
      | .ok ps =>
        refine unopened_bind _ _ (unopened_bind _ _ (unopened_query _ _ _) fun r => ?_) fun r => ?_
        · cases r with
          | error e => trivial
          | ok n =>
            dsimp only
            split <;> trivial
        · match r with
          | .error _ => exact unopened_respond _ _
          | .ok () =>
            refine unopened_bind _ _ (unopened_bind _ _ (unopened_query _ _ _) fun r => ?_)
              fun _ => unopened_respond _ _
            cases r with
            | error e => trivial
            | ok pss => exact ⟨trivial, fun ok => by cases ok <;> trivial⟩

end Unopened

section Clients
variable (rt : Analytics.Runtime) (env : Env)

def Removable (t : Table) : Prop := t ∈ ownedTables ∨ t = .organizationUserAccount

abbrev Client (p : Api Unit) : Prop :=
  (∃ email route, p = serve rt env email route) ∨ ∃ id body, p = gatewayWebhook env id body

theorem client_lasting (p : Api Unit) (hp : Client rt env p) : p.Lasting contents Removable := by
  have hbuilt : Built env (fun _ => True) (fun _ => True) p := by
    rcases hp with ⟨email, route, rfl⟩ | ⟨id, body, rfl⟩
    · exact ApiRuns.serve_built rt env _ trivial email route fun _ _ => trivial
    · exact ApiRuns.gatewayWebhook_built env _ trivial id body
  exact built_lasting Removable env _ (Or.inr rfl) (fun _ t ht => Or.inl ht) p hbuilt

/-- No program removes rows with identifiers unless it writes all the tables of a project. -/
theorem drawn_spared (p : Api Unit)
    (hp : Built env (fun t => t ≠ .context) (fun _ => True) p) :
    p.Footprint (Spares Drawn) := by
  have hlast : p.Lasting contents (fun t => t = .organizationUserAccount) :=
    built_lasting (fun t => t = .organizationUserAccount) env _ rfl
      (fun hT => absurd rfl (hT .context (by decide))) p hp
  exact lasting_spares contents _ Drawn (fun t ht hd => hd ht) p hlast

theorem client_orderly (p : Api Unit) (hp : Client rt env p) (s : Ses) (hs : s.levels = []) :
    Orderly Drawn p s := by
  have hpending : ∀ w ∈ s.pending, Spares Drawn w := by simp [Session.pending, hs]
  rcases hp with ⟨email, route, rfl⟩ | ⟨id, body, rfl⟩
  · by_cases hr : .context ∈ ApiRuns.tablesOf route
    · cases route with
      | deleteProject projectID => exact Or.inr ⟨unopened_deleteProject rt env email projectID, hs⟩
      | _ => simp [ApiRuns.tablesOf] at hr
    · refine Or.inl ⟨drawn_spared env _
        (ApiRuns.serve_built rt env _ (by decide) email route ?_), hpending⟩
      exact fun t ht hc => hr (hc ▸ ht)
  · exact Or.inl ⟨drawn_spared env _
      (ApiRuns.gatewayWebhook_built env _ (by decide) id body), hpending⟩

variable {σ : Type} (w₀ w₁ w₂ : ApiWorld σ)

theorem initial_respects (h₀ : Initial w₀) (hp : ∀ i, Client rt env (w₀.prog i)) :
    Respects contents Removable Drawn w₀ where
  labelled := ⟨h₀.next, fun t k v hv => absurd hv (initial_empty w₀ h₀ t k v),
    fun t k v hv => absurd hv (initial_empty w₀ h₀ t k v)⟩
  lasting i := client_lasting rt env _ (hp i)
  orderly i := client_orderly rt env _ (hp i) _ (h₀.idle i)

/-- Every table of rows with identifiers has a lasting column. -/
theorem contents_differ (t : Table) (ht : Drawn t) (v : Row t) :
    ∃ v', contents.label t v ≠ contents.label t v' := by
  have hdiffer : ∀ v', lasting t v ≠ lasting t v' → contents.label t v ≠ contents.label t v' :=
    fun v' hne heq => hne (eq_of_heq (Sigma.mk.inj heq).2)
  have hstep : ∀ z : Time, z ≠ z+1 := fun z => (lt_add_one (z : ℤ)).ne
  cases t with
  | organizationUserAccount => exact absurd rfl ht
  | organization =>
    exact ⟨_, hdiffer { v with createdAt := v.createdAt+1 } fun h =>
      hstep _ (congrArg OrganizationRow.createdAt h)⟩
  | project =>
    exact ⟨_, hdiffer { v with createdAt := v.createdAt+1 } fun h =>
      hstep _ (congrArg ProjectRow.createdAt h)⟩
  | userAccount =>
    exact ⟨_, hdiffer { v with createdAt := v.createdAt+1 } fun h =>
      hstep _ (congrArg UserAccountRow.createdAt h)⟩
  | deploymentRevision =>
    exact ⟨_, hdiffer { v with createdAt := v.createdAt+1 } fun h =>
      hstep _ (congrArg DeploymentRevisionRow.createdAt h)⟩
  | deploymentRevisionEvent =>
    exact ⟨_, hdiffer { v with createdAt := v.createdAt+1 } fun h =>
      hstep _ (congrArg DeploymentRevisionEventRow.createdAt h)⟩
  | mcpServerLog =>
    exact ⟨_, hdiffer { v with startedAt := v.startedAt+1 } fun h =>
      hstep _ (congrArg (fun v : MCPServerLogRow => v.startedAt) h)⟩
  | contextProperty =>
    exact ⟨_, hdiffer { v with createdAt := v.createdAt+1 } fun h =>
      hstep _ (congrArg ContextPropertyRow.createdAt h)⟩
  | context =>
    exact ⟨_, hdiffer { v with createdAt := v.createdAt+1 } fun h =>
      hstep _ (congrArg ContextRow.createdAt h)⟩

variable [DecidableEq σ]

section Run
variable (h₀ : Initial w₀) (hp : ∀ i, Client rt env (w₀.prog i))
variable (h₁ : Run backend postgres w₀ w₁) (h₂ : Run backend postgres w₁ w₂)
variable (t : Table) (k : Key t) (v : Row t) (hv : w₁.cfg.srv.db.row t k = some v)
include h₀ hp h₁ h₂ hv

theorem contents_last (v' : Row t) (hv' : w₂.cfg.srv.db.row t k = some v') :
    lasting t v' = lasting t v := by
  obtain ⟨h, -⟩ := run_respects contents Removable Drawn backend postgres
    (fun _ _ _ _ => trivial) w₀ w₁ h₁ (initial_respects rt env w₀ h₀ hp)
  have hl := run_contents contents Removable Drawn backend postgres (fun _ _ _ _ => trivial)
    w₁ w₂ h₂ h t k v v' hv hv'
  exact eq_of_heq (Sigma.mk.inj hl).2

theorem kept_stays (ht : ¬ Removable t) : (w₂.cfg.srv.db.row t k).isSome := by
  have hstart : AllSpare (fun t => ¬ Removable t) w₀ := fun i =>
    ⟨lasting_spares contents Removable _ (fun t ht hn => hn ht) _ (client_lasting rt env _ (hp i)),
      by simp [Session.pending, h₀.idle i]⟩
  obtain ⟨h, -⟩ := run_spares backend postgres _ w₀ w₁ h₁ hstart
  exact (run_spares backend postgres _ w₁ w₂ h₂ h).2 t ht k (by simp [hv])

end Run

/-- A row with an identifier keeps its lasting columns, an account or an organization
is never removed, and what is removed never comes back, in any run of requests and
webhook calls. -/
theorem rows_last (h₀ : Initial w₀) (hp : ∀ i, Client rt env (w₀.prog i))
    (h₁ : Run backend postgres w₀ w₁) (h₂ : Run backend postgres w₁ w₂) (t : Table) (ht : Drawn t)
    (k : Key t) (v : Row t) (hv : w₁.cfg.srv.db.row t k = some v) :
    (∀ v', w₂.cfg.srv.db.row t k = some v' → lasting t v' = lasting t v) ∧
    (¬ Removable t → (w₂.cfg.srv.db.row t k).isSome) ∧
    (w₂.cfg.srv.db.row t k = none → ∀ w₃, Run backend postgres w₂ w₃ →
      w₃.cfg.srv.db.row t k = none) := by
  refine ⟨contents_last rt env w₀ w₁ w₂ h₀ hp h₁ h₂ t k v hv,
    kept_stays rt env w₀ w₁ w₂ h₀ hp h₁ h₂ t k v hv, fun hnone w₃ h₃ => ?_⟩
  obtain ⟨h, -⟩ := run_respects contents Removable Drawn backend postgres
    (fun _ _ _ _ => trivial) w₀ w₁ h₁ (initial_respects rt env w₀ h₀ hp)
  obtain ⟨v', hd⟩ := contents_differ t ht v
  exact run_gone contents Removable Drawn backend postgres (fun _ _ _ _ => trivial)
    (fun _ _ _ _ _ hadm => hadm.1) w₁ w₂ w₃ h₂ h₃ h t ht k v v' hd (by simp [hv]) hnone

end Clients

/-! ## A project that is deleted -/

inductive Demo where
  | founding | opening | deletion
  deriving DecidableEq

instance : Fintype Demo :=
  ⟨{.founding, .opening, .deletion}, fun i => by cases i <;> decide⟩

def demoRoute : Demo → Route
  | .founding => demoFounding
  | .opening => demoOpening
  | .deletion => .deleteProject (.value 7)

def demoStart : ApiWorld Demo := start fun i => demoServe (demoRoute i)

def demoPair : Option (ApiWorld Demo × ApiWorld Demo) := do
  let w₁ ← played (demoCreation .founding .opening) demoStart
  let w₂ ← played (List.replicate 7 (.deletion, false)) w₁
  return (w₁, w₂)

theorem rows_last_demo : ∃ w₁ w₂ v, demoPair = some (w₁, w₂) ∧
    w₁.cfg.srv.db.row .project 7 = some v ∧ w₂.cfg.srv.db.row .project 7 = none ∧
    ∀ w₃, Run backend postgres w₂ w₃ → w₃.cfg.srv.db.row .project 7 = none := by
  have h : demoPair.any (fun ws => (ws.1.cfg.srv.db.row .project 7).isSome &&
      (ws.2.cfg.srv.db.row .project 7).isNone) = true := by
    decide
  obtain ⟨⟨w₁, w₂⟩, hw, hrows⟩ := (Option.any_eq_true _ _).mp h
  rw [Bool.and_eq_true, Option.isNone_iff_eq_none] at hrows
  obtain ⟨v, hv⟩ := Option.isSome_iff_exists.mp hrows.1
  obtain ⟨h₁, h₂⟩ : Run backend postgres demoStart w₁ ∧ Run backend postgres w₁ w₂ := by
    simp only [demoPair, Option.bind_eq_bind, Option.bind_eq_some_iff] at hw
    obtain ⟨w₁', h₁, w₂', h₂, heq⟩ := hw
    cases heq
    exact ⟨played_run _ _ _ h₁, played_run _ _ _ h₂⟩
  have hp : ∀ i, Client Analytics.Runtime.stable Env.demo (demoStart.prog i) :=
    fun i => Or.inl ⟨some "ada@acme.com", demoRoute i, rfl⟩
  obtain ⟨-, -, hgone⟩ := rows_last Analytics.Runtime.stable Env.demo demoStart w₁ w₂
    (start_initial _) hp h₁ h₂ .project Table.noConfusion 7 v hv
  exact ⟨w₁, w₂, v, hw, hv, hrows.2, hgone hrows.2⟩

end Jetski.Permanence
