import Jetski.Database
import Jetski.Relational.Provenance

/-!
# Ownership

Every row below a project names its owner: a revision its project, an event and
a log their revision. The owner of a row never changes, and the redundant
pointers of projects and logs are written only with a row whose owner is known.
Any interleaving of programs that use the database through its functions keeps
this, so the pointers of committed rows lead back to the project they are in.
-/

set_option autoImplicit false

namespace Jetski.Ownership

open Relational Schema Jetski.Types Database

/-! ## Labels -/

def owner : (t : Table) → Row t → UUID
  | .project, v => v.organizationID
  | .deploymentRevision, v => v.projectID
  | .deploymentRevisionEvent, v => v.deploymentRevisionID
  | .mcpServerLog, v => v.deploymentRevisionID
  | .contextProperty, v => v.projectID
  | .context, v => v.contextPropertyID
  | .organization, _ => 0
  | .userAccount, _ => 0
  | .organizationUserAccount, _ => 0

/-- Identifiers are drawn once; the keys of memberships are not drawn. -/
def born : (t : Table) → Key t → ℕ
  | .organization, k => k
  | .userAccount, k => k
  | .organizationUserAccount, _ => 0
  | .project, k => k
  | .deploymentRevision, k => k
  | .deploymentRevisionEvent, k => k
  | .mcpServerLog, k => k
  | .contextProperty, k => k
  | .context, k => k

/-- The redundant pointers of a row lead to rows with the right owners. -/
def pointersAgree (known : (t : Table) → Key t → UUID → Prop) :
    (t : Table) → Key t → Row t → Prop
  | .project, k, v =>
    (∀ d, v.latestDeploymentRevisionID = some d → known .deploymentRevision d k) ∧
    (∀ e, v.latestDeploymentRevisionEventID = some e →
      ∃ d, known .deploymentRevisionEvent e d ∧ known .deploymentRevision d k)
  | .mcpServerLog, _, v => known .deploymentRevision v.deploymentRevisionID v.projectID
  | _, _, _ => True

def labelling : Labelling Key Row UUID where
  label := owner
  born := born
  agrees := pointersAgree
  mono P Q t k v h := by
    cases t with
    | project =>
      rintro ⟨hd, he⟩
      refine ⟨fun d hv => h _ _ _ (hd d hv), fun e hv => ?_⟩
      obtain ⟨d, hed, hdk⟩ := he e hv
      exact ⟨d, h _ _ _ hed, h _ _ _ hdk⟩
    | mcpServerLog => exact h _ _ _
    | _ => exact id

abbrev Conf (σ : Type) := Config Key Row KubeCall Output Cluster σ

/-! ## Statements -/

section Statements
variable {σ β : Type}

/-- Whatever the statement writes is allowed, if it sees rows that occur. -/
def Writes (x : Conf σ) (f : Queries.Sql β) : Prop :=
  ∀ t db b ws, t.fresh = x.srv.next → (∀ t k v, db.row t k = some v → x.Occurs t k v) →
    f t db = .ok (b, ws) → Allowed labelling x ws

theorem putRow_ok (db : Db) (t : Table) (k : Key t) (v : Row t) (b b' : β) (ws : List Image)
    (h : Queries.putRow db t k v b = .ok (b', ws)) : b' = b ∧ ws = [⟨t, k, some v⟩] := by
  rw [Queries.putRow] at h
  split at h
  · cases h
  · next ws' hp =>
    cases h
    exact ⟨rfl, put_ok schema db t k v _ hp⟩

theorem insertRow_ok (db : Db) (t : Table) (k : Key t) (v : Row t) (b b' : β) (ws : List Image)
    (h : Queries.insertRow db t k v b = .ok (b', ws)) : b' = b ∧ ws = [⟨t, k, some v⟩] := by
  rw [Queries.insertRow] at h
  split at h
  · cases h
  · exact putRow_ok db t k v b b' ws h

theorem allowed_insert (x : Conf σ) (t : Table) (k : Key t) (v : Row t)
    (hb : born t k = x.srv.next) (ha : pointersAgree (Known labelling x) t k v) :
    Allowed labelling x [⟨t, k, some v⟩] := by
  intro t' k' v' hw
  cases List.mem_singleton.mp hw
  refine ⟨ha, Or.inr (Or.inl ⟨hb, fun v'' hw => ?_⟩)⟩
  cases List.mem_singleton.mp hw
  rfl

theorem allowed_update (x : Conf σ) (t : Table) (k : Key t) (v v' : Row t)
    (hv : x.Occurs t k v) (hl : owner t v = owner t v')
    (ha : pointersAgree (Known labelling x) t k v') : Allowed labelling x [⟨t, k, some v'⟩] := by
  intro t' k' v'' hw
  cases List.mem_singleton.mp hw
  exact ⟨ha, Or.inl ⟨v, hv, hl⟩⟩

theorem allowed_remove (x : Conf σ) (t : Table) (k : Key t) :
    Allowed labelling x [⟨t, k, none⟩] := by
  intro t' k' v' hw
  cases List.mem_singleton.mp hw

/-- A statement that inserts a row without pointers under the fresh identifier. -/
theorem writes_insert (x : Conf σ) (f : Queries.Sql β)
    (h : ∀ t db b ws, f t db = .ok (b, ws) → ∃ tb k v, ws = [⟨tb, k, some v⟩] ∧
      born tb k = t.fresh ∧ ∀ P, pointersAgree P tb k v) : Writes x f := by
  intro t db b ws hfresh _ hf
  obtain ⟨tb, k, v, rfl, hb, ha⟩ := h t db b ws hf
  exact allowed_insert x tb k v (hb.trans hfresh) (ha _)

theorem read_ok (r : Except DbError β) (b : β) (ws : List Image)
    (h : r.map (fun b => (b, [])) = .ok (b, ws)) : ws = [] := by
  cases r <;> cases h
  rfl

theorem writes_select (x : Conf σ) (rows : Db → Except DbError β) :
    Writes x (Queries.select rows) := by
  intro t db b ws _ _ hf
  rw [read_ok _ b ws hf]
  exact allowed_nil labelling x

theorem writes_createOrganization (x : Conf σ) (name : String) :
    Writes x (Queries.createOrganization name) :=
  writes_insert x _ fun _ _ _ _ h =>
    ⟨_, _, _, (insertRow_ok _ _ _ _ _ _ _ h).2, rfl, fun _ => trivial⟩

theorem writes_updateOrganization (x : Conf σ) (org : Organization) :
    Writes x (Queries.updateOrganization org) := by
  intro t db b ws _ hocc hf
  rw [Queries.updateOrganization] at hf
  split at hf
  · cases hf
  · next v hv =>
    rw [(putRow_ok _ _ _ _ _ _ _ hf).2]
    exact allowed_update x _ _ v _ (hocc _ _ _ hv) rfl trivial

theorem writes_addUserToOrganization (x : Conf σ) (hx : Labelled labelling x)
    (userID orgID : UUID) : Writes x (Queries.addUserToOrganization userID orgID) := by
  intro t db b ws _ _ hf
  rw [Queries.addUserToOrganization] at hf
  split at hf
  · cases hf
    exact allowed_nil labelling x
  · rw [(putRow_ok _ _ _ _ _ _ _ hf).2]
    intro t' k' v' hw
    cases List.mem_singleton.mp hw
    exact ⟨trivial, Or.inr (Or.inr ⟨hx.started, fun _ => rfl⟩)⟩

theorem writes_removeUserFromOrganization (x : Conf σ) (userID orgID : UUID) :
    Writes x (Queries.removeUserFromOrganization userID orgID) := by
  intro t db b ws _ _ hf
  rw [Queries.removeUserFromOrganization] at hf
  split at hf <;> cases hf
  · exact allowed_remove x _ _
  · exact allowed_nil labelling x

theorem writes_getUserByEmailOrCreate (x : Conf σ) (env : Env) (email : String) :
    Writes x (Queries.getUserByEmailOrCreate env email) := by
  intro t db b ws hfresh _ hf
  rw [Queries.getUserByEmailOrCreate] at hf
  split at hf
  · split at hf
    · rw [(insertRow_ok _ _ _ _ _ _ _ hf).2]
      exact allowed_insert x _ _ _ hfresh trivial
    · rw [read_ok _ b ws hf]
      exact allowed_nil labelling x
  · cases hf

theorem writes_createProject (x : Conf σ) (orgID createdBy : UUID) (name : String) :
    Writes x (Queries.createProject orgID createdBy name) :=
  writes_insert x _ fun _ _ _ _ h =>
    ⟨_, _, _, (insertRow_ok _ _ _ _ _ _ _ h).2, rfl, fun _ => ⟨nofun, nofun⟩⟩

theorem clear_agrees (x : Conf σ) (f : Schema.ForeignKey) (hf : f ∈ foreignKeys)
    (k : Key f.child) (v : Row f.child)
    (h : pointersAgree (Known labelling x) f.child k v ∧
      ∃ v', x.Occurs f.child k v' ∧ owner f.child v' = owner f.child v) :
    pointersAgree (Known labelling x) f.child k (f.clear v) ∧
      ∃ v', x.Occurs f.child k v' ∧ owner f.child v' = owner f.child (f.clear v) := by
  simp only [foreignKeys, List.mem_cons, List.not_mem_nil, or_false] at hf
  rcases hf with rfl | rfl | rfl | rfl | rfl | rfl | rfl | rfl | rfl | rfl | rfl | rfl | rfl |
    rfl | rfl
  case inr.inr.inr.inr.inr.inr.inr.inr.inr.inr.inr.inr.inl => exact ⟨⟨nofun, h.1.2⟩, h.2⟩
  case inr.inr.inr.inr.inr.inr.inr.inr.inr.inr.inr.inr.inr.inl => exact ⟨⟨h.1.1, nofun⟩, h.2⟩
  all_goals exact h

theorem writes_deleteProject (x : Conf σ) (hx : Labelled labelling x) (projectID : UUID) :
    Writes x (Queries.deleteProject projectID) := by
  intro t db b ws _ hocc hf
  rw [Queries.deleteProject] at hf
  split at hf
  · cases hf
    exact allowed_nil labelling x
  · split at hf
    · cases hf
    · next hd =>
      cases hf
      intro t' k' v' hw
      obtain ⟨ha, hl⟩ := deleteRow_images foreignKeys tables
        (fun t k v => pointersAgree (Known labelling x) t k v ∧
          ∃ v', x.Occurs t k v' ∧ owner t v' = owner t v)
        (fun f hf k v => clear_agrees x f hf k v) _ _ db ws
        (fun t k v hv => ⟨hx.agrees t k v (hocc t k v hv), v, hocc t k v hv, rfl⟩) hd t' k' v' hw
      exact ⟨ha, Or.inl hl⟩

def rowOf (dr : Queries.NewRevision) (createdAt : Time) : DeploymentRevisionRow where
  createdAt := createdAt
  createdBy := dr.createdBy
  projectID := dr.projectID
  port := dr.port
  ociURL := dr.ociURL
  authenticated := dr.authenticated
  proxyURL := dr.proxyURL
  telemetry := dr.telemetry

theorem insertDeploymentRevision_ok (dr : Queries.NewRevision) (t : Tick) (db : Db)
    (res : DeploymentRevision) (ws : List Image)
    (h : Queries.insertDeploymentRevision dr t db = .ok (res, ws)) :
    res.id = t.fresh ∧ res.projectID = dr.projectID ∧
      ws = [⟨.deploymentRevision, t.fresh, some res.toDeploymentRevisionRow⟩] := by
  simp only [Queries.insertDeploymentRevision] at h
  split at h
  · obtain ⟨rfl, hw⟩ := insertRow_ok _ _ _ _ _ _ _ h
    exact ⟨rfl, rfl, hw⟩
  · cases h

theorem insertDeploymentRevision_row (dr : Queries.NewRevision) (t : Tick) (db : Db)
    (res : DeploymentRevision) (ws : List Image)
    (h : Queries.insertDeploymentRevision dr t db = .ok (res, ws)) : dr.fits = true ∧
      ws = [⟨.deploymentRevision, t.fresh, some (rowOf dr (dr.createdAt.getD t.start))⟩] := by
  simp only [Queries.insertDeploymentRevision] at h
  split at h
  · next hfits => exact ⟨hfits, (insertRow_ok _ _ _ _ _ _ _ h).2⟩
  · cases h

theorem writes_insertDeploymentRevision (x : Conf σ) (dr : Queries.NewRevision) :
    Writes x (Queries.insertDeploymentRevision dr) :=
  writes_insert x _ fun t db b ws h =>
    ⟨_, _, _, (insertDeploymentRevision_ok dr t db b ws h).2.2, rfl, fun _ => trivial⟩

theorem writes_updateLatestDeploymentRevision (x : Conf σ) (hx : Labelled labelling x)
    (revisionID projectID : UUID)
    (hk : Known labelling x .deploymentRevision revisionID projectID) :
    Writes x (Queries.updateLatestDeploymentRevision revisionID projectID) := by
  intro t db b ws _ hocc hf
  rw [Queries.updateLatestDeploymentRevision] at hf
  split at hf
  · cases hf
    exact allowed_nil labelling x
  · next v hv =>
    have hocc := hocc .project projectID v hv
    rw [(putRow_ok _ _ _ _ _ _ _ hf).2]
    refine allowed_update x .project projectID v _ hocc rfl ⟨?_, (hx.agrees _ _ _ hocc).2⟩
    rintro d hd
    cases hd
    exact hk

theorem insertDeploymentRevisionEvent_ok (revisionID : UUID) (type : DeploymentRevisionEventType)
    (timestamp : Option Time) (t : Tick) (db : Db) (eventID : UUID) (ws : List Image)
    (h : Queries.insertDeploymentRevisionEvent revisionID type timestamp t db = .ok (eventID, ws)) :
    eventID = t.fresh ∧ ∃ v : DeploymentRevisionEventRow, v.deploymentRevisionID = revisionID ∧
      ws = [⟨.deploymentRevisionEvent, t.fresh, some v⟩] := by
  obtain ⟨rfl, hw⟩ := insertRow_ok _ _ _ _ _ _ _ h
  exact ⟨rfl, _, rfl, hw⟩

theorem writes_insertDeploymentRevisionEvent (x : Conf σ) (revisionID : UUID)
    (type : DeploymentRevisionEventType) (timestamp : Option Time) :
    Writes x (Queries.insertDeploymentRevisionEvent revisionID type timestamp) :=
  writes_insert x _ fun t db b ws h =>
    let ⟨_, _, _, hw⟩ := insertDeploymentRevisionEvent_ok revisionID type timestamp t db b ws h
    ⟨_, _, _, hw, rfl, fun _ => trivial⟩

theorem writes_updateLatestDeploymentRevisionEvent (x : Conf σ) (hx : Labelled labelling x)
    (eventID revisionID : UUID)
    (hk : Known labelling x .deploymentRevisionEvent eventID revisionID) :
    Writes x (Queries.updateLatestDeploymentRevisionEvent eventID revisionID) := by
  intro t db b ws _ hocc hf
  rw [Queries.updateLatestDeploymentRevisionEvent] at hf
  split at hf
  · cases hf
    exact allowed_nil labelling x
  · next r hr =>
    split at hf
    · cases hf
      exact allowed_nil labelling x
    · next v hv =>
      have hr := hocc .deploymentRevision revisionID r hr
      have hv := hocc .project r.projectID v hv
      rw [(putRow_ok _ _ _ _ _ _ _ hf).2]
      refine allowed_update x .project r.projectID v _ hv rfl ⟨(hx.agrees _ _ _ hv).1, ?_⟩
      rintro e he
      cases he
      exact ⟨revisionID, hk, hx.known .deploymentRevision revisionID r hr⟩

theorem writes_createMCPServerLog (x : Conf σ) (hx : Labelled labelling x)
    (data : MCPServerLogRow5) : Writes x (Logs.createMCPServerLog data) := by
  intro t db b ws hfresh hocc hf
  rw [Logs.createMCPServerLog] at hf
  split at hf
  · split at hf
    · cases hf
    · next r hr =>
      rw [(insertRow_ok _ _ _ _ _ _ _ hf).2]
      exact allowed_insert x _ _ _ hfresh
        (hx.known .deploymentRevision data.deploymentRevisionID r (hocc _ _ _ hr))
  · cases hf

end Statements

end Jetski.Ownership
