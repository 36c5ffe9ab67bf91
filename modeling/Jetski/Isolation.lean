import Jetski.Deletion
import Jetski.Requests
import Jetski.Summaries

/-!
# Rows of other organizations

What belongs to an organization is found by following the owner columns up to
its row. A request of a stranger starts from rows that differ from the original
ones in user accounts at most, so what it reads after an access check belongs
to other organizations, and it writes only rows that do.
-/

set_option autoImplicit false

namespace Jetski.Isolation

open Relational Schema Jetski.Types Queries Reachability
open Requests (Same insertRow_absent)
open Database (Body)

/-- The rows that belong to an organization, its own address and those of its
memberships included. -/
def Belongs (db : Db) (o : UUID) : (t : Table) → Key t → Prop
  | .organization, k => k = o
  | .organizationUserAccount, k => k.1 = o
  | .project, k => ∃ p, db.row .project k = some p ∧ p.organizationID = o
  | .deploymentRevision, k => ∃ r p, db.row .deploymentRevision k = some r ∧
    db.row .project r.projectID = some p ∧ p.organizationID = o
  | .deploymentRevisionEvent, k => ∃ e r p, db.row .deploymentRevisionEvent k = some e ∧
    db.row .deploymentRevision e.deploymentRevisionID = some r ∧
    db.row .project r.projectID = some p ∧ p.organizationID = o
  | .mcpServerLog, k => ∃ l p, db.row .mcpServerLog k = some l ∧
    db.row .project l.projectID = some p ∧ p.organizationID = o
  | .contextProperty, k => ∃ c p, db.row .contextProperty k = some c ∧
    db.row .project c.projectID = some p ∧ p.organizationID = o
  | .context, k => ∃ x c p, db.row .context k = some x ∧
    db.row .contextProperty x.contextPropertyID = some c ∧
    db.row .project c.projectID = some p ∧ p.organizationID = o
  | .userAccount, _ => False

/-! ## What a response shows -/

def ProjectSummary.refs (ps : ProjectSummary) : List (Ref Key) :=
  [⟨.project, ps.id⟩, ⟨.organization, ps.organization.id⟩] ++
    ps.latestDeploymentRevision.toList.map (fun r => ⟨.deploymentRevision, r.id⟩) ++
    ps.latestDeploymentRevisionEvent.toList.map (fun e => ⟨.deploymentRevisionEvent, e.id⟩)

def DeploymentRevisionSummary.refs (rs : DeploymentRevisionSummary) : List (Ref Key) :=
  [⟨.deploymentRevision, rs.id⟩, ⟨.project, rs.project.id⟩, ⟨.userAccount, rs.author.id⟩] ++
    rs.projectLatestDeploymentRevisionEvent.toList.map (fun e => ⟨.deploymentRevisionEvent, e.id⟩)

def logRefs (ls : List MCPServerLog) : List (Ref Key) := ls.map (fun l => ⟨.mcpServerLog, l.id⟩)

def Body.refs : Body → List (Ref Key)
  | .empty => []
  | .text _ => []
  | .organization org => [⟨.organization, org.id⟩]
  | .organizations orgs => orgs.map (fun org => ⟨.organization, org.id⟩)
  | .user u => [⟨.userAccount, u.id⟩]
  | .users us => us.flatMap (fun u => [⟨.organizationUserAccount, u.1⟩, ⟨.userAccount, u.2.id⟩])
  | .project p => [⟨.project, p.id⟩]
  | .projects ps => ps.map (fun p => ⟨.project, p.id⟩)
  | .summary ps => ProjectSummary.refs ps
  | .summaries pss => pss.flatMap ProjectSummary.refs
  | .status ps _ _ => ProjectSummary.refs ps
  | .revisions rs => rs.flatMap DeploymentRevisionSummary.refs
  | .logs ls => logRefs ls
  | .prompts ps => ps.map (fun p => ⟨.mcpServerLog, p.id⟩)
  | .usage u => logRefs u.counted
  | .analytics current previous => logRefs current++logRefs previous
  | .context u orgs ps => ⟨.userAccount, u.id⟩ :: orgs.map (fun org => ⟨.organization, org.id⟩) ++
    ps.map (fun p => ⟨.project, p.id⟩)

/-! ## Strangers -/

/-- An existing organization and a user who is not a member of it. -/
structure Stranger (base : Db) (o : UUID) (ov : OrganizationRow) (userID : UUID) : Prop where
  consistent : Consistent base
  row : base.row .organization o = some ov
  apart : base.row .organizationUserAccount (o, userID) = none

/-- What holds of the content of a row that does not belong to the organization. -/
def Outside (base : Db) (o : UUID) (ov : OrganizationRow) : (t : Table) → Row t → Prop
  | .organization, v => v.name ≠ ov.name
  | .project, v => v.organizationID ≠ o
  | .deploymentRevision, v => ¬ Belongs base o .project v.projectID
  | .deploymentRevisionEvent, v => ¬ Belongs base o .deploymentRevision v.deploymentRevisionID
  | .mcpServerLog, v => ¬ Belongs base o .project v.projectID
  | .contextProperty, v => ¬ Belongs base o .project v.projectID
  | .context, v => ¬ Belongs base o .contextProperty v.contextPropertyID
  | .userAccount, _ => True
  | .organizationUserAccount, _ => True

/-- The rows of the organization are the original ones, and no other row belongs to it. -/
def Apart (base : Db) (o : UUID) (ov : OrganizationRow) (db : Db) : Prop :=
  ∀ t k, (Belongs base o t k → db.row t k = base.row t k) ∧
    (¬ Belongs base o t k → ∀ v, db.row t k = some v → Outside base o ov t v)

section Rows
variable {base db : Db} {o : UUID} {ov : OrganizationRow} {userID : UUID}

theorem apart_belongs (h : Apart base o ov db) (t : Table) (k : Key t) (hb : Belongs db o t k) :
    Belongs base o t k := by
  have project : ∀ k, Belongs db o .project k → Belongs base o .project k := by
    rintro k ⟨p, hp, ho⟩
    by_contra hn
    exact (h .project k).2 hn p hp ho
  have revision : ∀ k, Belongs db o .deploymentRevision k →
    Belongs base o .deploymentRevision k := by
    rintro k ⟨r, p, hr, hp⟩
    by_contra hn
    exact (h .deploymentRevision k).2 hn r hr (project _ ⟨p, hp⟩)
  have property : ∀ k, Belongs db o .contextProperty k → Belongs base o .contextProperty k := by
    rintro k ⟨c, p, hc, hp⟩
    by_contra hn
    exact (h .contextProperty k).2 hn c hc (project _ ⟨p, hp⟩)
  cases t with
  | organization | organizationUserAccount | userAccount => exact hb
  | project => exact project k hb
  | deploymentRevision => exact revision k hb
  | contextProperty => exact property k hb
  | deploymentRevisionEvent =>
    obtain ⟨e, r, p, he, hr, hp⟩ := hb
    by_contra hn
    exact (h .deploymentRevisionEvent k).2 hn e he (revision _ ⟨r, p, hr, hp⟩)
  | mcpServerLog =>
    obtain ⟨l, p, hl, hp⟩ := hb
    by_contra hn
    exact (h .mcpServerLog k).2 hn l hl (project _ ⟨p, hp⟩)
  | context =>
    obtain ⟨x, c, p, hx, hc, hp⟩ := hb
    by_contra hn
    exact (h .context k).2 hn x hx (property _ ⟨c, p, hc, hp⟩)

theorem base_outside (hs : Sound schema base) (ho : base.row .organization o = some ov) (t : Table)
    (k : Key t) (hn : ¬ Belongs base o t k) (v : Row t) (hv : base.row t k = some v) :
    Outside base o ov t v := by
  cases t with
  | organization =>
    exact fun he => hn (Summaries.sound_organization_names base hs _ _ v ov hv ho he)
  | organizationUserAccount | userAccount => trivial
  | project => exact fun ho => hn ⟨v, hv, ho⟩
  | deploymentRevision => exact fun ⟨p, hp⟩ => hn ⟨v, p, hv, hp⟩
  | deploymentRevisionEvent => exact fun ⟨r, p, hp⟩ => hn ⟨v, r, p, hv, hp⟩
  | mcpServerLog => exact fun ⟨p, hp⟩ => hn ⟨v, p, hv, hp⟩
  | contextProperty => exact fun ⟨p, hp⟩ => hn ⟨v, p, hv, hp⟩
  | context => exact fun ⟨c, p, hp⟩ => hn ⟨v, c, p, hv, hp⟩

theorem same_apart (h : Stranger base o ov userID) (hs : Same base db) : Apart base o ov db := by
  intro t k
  by_cases ht : t = .userAccount
  · subst ht
    exact ⟨nofun, fun _ _ _ => trivial⟩
  · refine ⟨fun _ => hs t ht k, fun hn v hv => base_outside h.consistent.sound h.row t k hn v ?_⟩
    exact (hs t ht k).symm.trans hv

theorem same_pointers (h : Stranger base o ov userID) (hs : Same base db) : Pointers db where
  revisions := latestRevisions_congr base db (hs _ (by decide)) (hs _ (by decide))
    h.consistent.revisions
  events := latestEvents_congr base db (hs _ (by decide)) (hs _ (by decide)) (hs _ (by decide))
    h.consistent.events
  logs := logProjects_congr base db (hs _ (by decide)) (hs _ (by decide)) h.consistent.logs

/-- A row that belongs to the organization exists, unless it is a membership. -/
theorem belongs_row (h : Stranger base o ov userID) (t : Table) (ht : t ≠ .organizationUserAccount)
    (k : Key t) (hb : Belongs base o t k) : ∃ v, base.row t k = some v := by
  cases t with
  | organization => exact ⟨ov, hb ▸ h.row⟩
  | organizationUserAccount => exact absurd rfl ht
  | userAccount => exact hb.elim
  | project | deploymentRevision | deploymentRevisionEvent | mcpServerLog | contextProperty
  | context =>
    obtain ⟨v, hb⟩ := hb
    first
      | exact ⟨v, hb.1⟩
      | (obtain ⟨_, hb⟩ := hb; first | exact ⟨v, hb.1⟩ | (obtain ⟨_, hb⟩ := hb; exact ⟨v, hb.1⟩))

/-! ## Statements -/

theorem apart_replay (h : Apart base o ov db) (ws : List Image)
    (hw : ∀ w ∈ ws, ¬ Belongs base o w.table w.key ∧
      ∀ v, w.image = some v → Outside base o ov w.table v) : Apart base o ov (db.replay ws) := by
  intro t k
  refine ⟨fun hb => ?_, fun hn v hv => ?_⟩
  · rw [Store.replay_untouched db ws t k, (h t k).1 hb]
    rintro ⟨t', k', v⟩ hm he
    cases he
    exact (hw _ hm).1 hb
  · rcases Store.replay_row db ws t k v hv with hv | hm
    · exact (h t k).2 hn v hv
    · exact (hw _ hm).2 v rfl

theorem apart_put {β : Type} (h : Apart base o ov db) (t : Table) (k : Key t) (v : Row t)
    (b b' : β) (ws : List Image) (hb : ¬ Belongs base o t k) (hv : Outside base o ov t v)
    (hp : putRow db t k v b = .ok (b', ws)) : Apart base o ov (db.replay ws) := by
  refine apart_replay h ws fun w hw => ?_
  rw [(Ownership.putRow_ok db t k v b b' ws hp).2] at hw
  cases List.mem_singleton.mp hw
  refine ⟨hb, fun v' hv' => ?_⟩
  cases hv'
  exact hv

/-- A row under a fresh key belongs to nobody yet. -/
theorem fresh_foreign (hst : Stranger base o ov userID) (h : Apart base o ov db) (t : Table)
    (ht : t ≠ .organizationUserAccount) (k : Key t) (hk : db.row t k = none) :
    ¬ Belongs base o t k := by
  intro hb
  obtain ⟨v, hv⟩ := belongs_row hst t ht k hb
  rw [(h t k).1 hb, hv] at hk
  cases hk

theorem apart_insert {β : Type} (hst : Stranger base o ov userID) (h : Apart base o ov db)
    (t : Table) (ht : t ≠ .organizationUserAccount) (k : Key t) (v : Row t) (b b' : β)
    (ws : List Image) (hv : Outside base o ov t v) (hp : insertRow db t k v b = .ok (b', ws)) :
    Apart base o ov (db.replay ws) ∧ ¬ Belongs base o t k := by
  have hfresh := fresh_foreign hst h t ht k (insertRow_absent db t k v b b' ws hp)
  refine ⟨?_, hfresh⟩
  rw [insertRow] at hp
  split at hp
  · cases hp
  · exact apart_put h t k v b b' ws hfresh hv hp

theorem putRow_name {β : Type} (k : UUID) (v : OrganizationRow) (b b' : β) (ws : List Image)
    (h : putRow db .organization k v b = .ok (b', ws)) (k' : UUID) (v' : OrganizationRow)
    (hv : db.row .organization k' = some v') (hn : v'.name = v.name) : k' = k := by
  rw [putRow] at h
  split at h
  · cases h
  · next hp =>
    exact put_unique schema ⟨"organization_name_key", .organization, fun _ v => (0, v.name)⟩
      (by simp [schema, uniques]) db k v _ hp k' v' hv (by simp [hn])

theorem apart_createOrganization (hst : Stranger base o ov userID) (h : Apart base o ov db)
    (name : String) (t : Tick) (org : Organization) (ws : List Image)
    (hf : createOrganization name t db = .ok (org, ws)) :
    Apart base o ov (db.replay ws) ∧ org.id ≠ o ∧ org.name ≠ ov.name := by
  have hrow : db.row .organization o = some ov := ((h .organization o).1 rfl).trans hst.row
  have habs := insertRow_absent _ _ _ _ _ _ _ hf
  have hname : name ≠ ov.name := by
    intro he
    rw [createOrganization, insertRow, habs] at hf
    cases putRow_name _ _ _ _ _ hf o ov hrow he.symm
    rw [hrow] at habs
    cases habs
  obtain ⟨ha, hb⟩ := apart_insert hst h .organization (by decide) _ _ _ _ ws
    (by exact hname) hf
  obtain ⟨rfl, -⟩ := Ownership.insertRow_ok _ _ _ _ _ _ _ hf
  exact ⟨ha, hb, hname⟩

theorem apart_updateOrganization (h : Apart base o ov db) (org : Organization) (ho : org.id ≠ o)
    (t : Tick) (org' : Organization) (ws : List Image)
    (hf : updateOrganization org t db = .ok (org', ws)) :
    Apart base o ov (db.replay ws) ∧ org'.id ≠ o ∧ org'.name ≠ ov.name := by
  rw [updateOrganization] at hf
  split at hf
  · cases hf
  · next v hv =>
    have hname : v.name ≠ ov.name := (h .organization org.id).2 ho v hv
    have ha := apart_put h .organization org.id _ _ _ ws ho (by exact hname) hf
    obtain ⟨rfl, -⟩ := Ownership.putRow_ok _ _ _ _ _ _ _ hf
    exact ⟨ha, ho, hname⟩

theorem apart_addUser (h : Apart base o ov db) (userID orgID : UUID) (ho : orgID ≠ o) (t : Tick)
    (b : Unit) (ws : List Image) (hf : addUserToOrganization userID orgID t db = .ok (b, ws)) :
    Apart base o ov (db.replay ws) := by
  rw [addUserToOrganization] at hf
  split at hf
  · cases hf
    exact h
  · exact apart_put h .organizationUserAccount (orgID, userID) _ _ _ ws ho trivial hf

theorem apart_removeUser (h : Apart base o ov db) (userID orgID : UUID) (ho : orgID ≠ o)
    (t : Tick) (b : Unit) (ws : List Image)
    (hf : removeUserFromOrganization userID orgID t db = .ok (b, ws)) :
    Apart base o ov (db.replay ws) := by
  rw [removeUserFromOrganization] at hf
  split at hf <;> cases hf
  · refine apart_replay h _ fun w hw => ?_
    cases List.mem_singleton.mp hw
    exact ⟨ho, by simp⟩
  · exact h

theorem apart_createProject (hst : Stranger base o ov userID) (h : Apart base o ov db)
    (orgID createdBy : UUID) (ho : orgID ≠ o) (name : String) (t : Tick) (p : Project)
    (ws : List Image) (hf : createProject orgID createdBy name t db = .ok (p, ws)) :
    Apart base o ov (db.replay ws) ∧ ¬ Belongs base o .project p.id := by
  obtain ⟨ha, hb⟩ := apart_insert hst h .project (by decide) _ _ _ _ ws (by exact ho) hf
  obtain ⟨rfl, -⟩ := Ownership.insertRow_ok _ _ _ _ _ _ _ hf
  exact ⟨ha, hb⟩

theorem apart_insertRevision (hst : Stranger base o ov userID) (h : Apart base o ov db)
    (dr : NewRevision) (hp : ¬ Belongs base o .project dr.projectID) (t : Tick)
    (res : DeploymentRevision) (ws : List Image)
    (hf : insertDeploymentRevision dr t db = .ok (res, ws)) : Apart base o ov (db.replay ws) ∧
      ¬ Belongs base o .deploymentRevision res.id ∧ res.projectID = dr.projectID := by
  obtain ⟨hid, hproj, -⟩ := Ownership.insertDeploymentRevision_ok dr t db res ws hf
  simp only [insertDeploymentRevision] at hf
  split at hf
  · obtain ⟨ha, hb⟩ := apart_insert hst h .deploymentRevision (by decide) _ _ _ _ ws
      (by exact hp) hf
    exact ⟨ha, hid ▸ hb, hproj⟩
  · cases hf

theorem apart_updateRevision (h : Apart base o ov db) (revisionID projectID : UUID)
    (hp : ¬ Belongs base o .project projectID) (t : Tick) (ws : List Image)
    (hf : updateLatestDeploymentRevision revisionID projectID t db = .ok ((), ws)) :
    Apart base o ov (db.replay ws) := by
  rw [updateLatestDeploymentRevision] at hf
  split at hf
  · cases hf
    exact h
  · next v hv =>
    have hv : v.organizationID ≠ o := (h .project projectID).2 hp v hv
    exact apart_put h .project projectID _ _ _ ws hp (by exact hv) hf

theorem apart_insertEvent (hst : Stranger base o ov userID) (h : Apart base o ov db)
    (revisionID : UUID) (hr : ¬ Belongs base o .deploymentRevision revisionID)
    (type : DeploymentRevisionEventType) (timestamp : Option Time) (t : Tick) (e : UUID)
    (ws : List Image)
    (hf : insertDeploymentRevisionEvent revisionID type timestamp t db = .ok (e, ws)) :
    Apart base o ov (db.replay ws) :=
  (apart_insert hst h .deploymentRevisionEvent (by decide) _ _ _ _ ws (by exact hr) hf).1

theorem apart_updateEvent (h : Apart base o ov db) (eventID revisionID : UUID)
    (hr : ¬ Belongs base o .deploymentRevision revisionID) (t : Tick) (ws : List Image)
    (hf : updateLatestDeploymentRevisionEvent eventID revisionID t db = .ok ((), ws)) :
    Apart base o ov (db.replay ws) := by
  rw [updateLatestDeploymentRevisionEvent] at hf
  split at hf
  · cases hf
    exact h
  · next r hrow =>
    have hp : ¬ Belongs base o .project r.projectID :=
      (h .deploymentRevision revisionID).2 hr r hrow
    split at hf
    · cases hf
      exact h
    · next v hv =>
      have hv : v.organizationID ≠ o := (h .project r.projectID).2 hp v hv
      exact apart_put h .project r.projectID _ _ _ ws hp (by exact hv) hf

theorem ownedBy_belongs (hs : Same base db) (p : UUID) (t : Table) (k : Key t)
    (hb : Belongs base o t k) (ho : Deletion.OwnedBy db p t k) : Belongs base o .project p := by
  cases t with
  | organization | userAccount | organizationUserAccount => exact ho.elim
  | project => exact ho ▸ hb
  | deploymentRevision =>
    obtain ⟨r, hr, rfl⟩ := ho
    obtain ⟨r', p', hr', hp⟩ := hb
    cases ((hs _ (by decide) _).symm.trans hr).symm.trans hr'
    exact ⟨p', hp⟩
  | deploymentRevisionEvent =>
    obtain ⟨e, r, he, hr, rfl⟩ := ho
    obtain ⟨e', r', p', he', hr', hp⟩ := hb
    cases ((hs _ (by decide) _).symm.trans he).symm.trans he'
    cases ((hs _ (by decide) _).symm.trans hr).symm.trans hr'
    exact ⟨p', hp⟩
  | mcpServerLog =>
    obtain ⟨l, hl, rfl⟩ := ho
    obtain ⟨l', p', hl', hp⟩ := hb
    cases ((hs _ (by decide) _).symm.trans hl).symm.trans hl'
    exact ⟨p', hp⟩
  | contextProperty =>
    obtain ⟨c, hc, rfl⟩ := ho
    obtain ⟨c', p', hc', hp⟩ := hb
    cases ((hs _ (by decide) _).symm.trans hc).symm.trans hc'
    exact ⟨p', hp⟩
  | context =>
    obtain ⟨x, c, hx, hc, rfl⟩ := ho
    obtain ⟨x', c', p', hx', hc', hp⟩ := hb
    cases ((hs _ (by decide) _).symm.trans hx).symm.trans hx'
    cases ((hs _ (by decide) _).symm.trans hc).symm.trans hc'
    exact ⟨p', hp⟩

theorem apart_deleteProject (hst : Stranger base o ov userID) (hs : Same base db) (p : UUID)
    (hp : ¬ Belongs base o .project p) (t : Tick) (n : ℕ) (ws : List Image)
    (hf : deleteProject p t db = .ok (n, ws)) : Apart base o ov (db.replay ws) := by
  rw [deleteProject] at hf
  split at hf
  · cases hf
    exact same_apart hst hs
  · split at hf
    · cases hf
    · next hd =>
      cases hf
      have hdel := Deletion.deleteRow_deletes db p (same_pointers hst hs) ws hd
      intro t k
      obtain ⟨hgone, hkept⟩ := hdel t k
      refine ⟨fun hb => ?_, fun hn v hv => ?_⟩
      · rw [hkept (fun ho => hp (ownedBy_belongs hs p t k hb ho))]
        exact (same_apart hst hs t k).1 hb
      · by_cases ho : Deletion.OwnedBy db p t k
        · rw [hgone ho] at hv
          cases hv
        · rw [hkept ho] at hv
          exact (same_apart hst hs t k).2 hn v hv

end Rows
end Jetski.Isolation
