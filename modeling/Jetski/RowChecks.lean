import Jetski.ApiRuns
import Jetski.Summaries
import Jetski.Relational.Vetted

/-!
# Checked rows of organizations and revisions

A predicate of organization rows and one of revision rows hold along every
interleaving of requests if the few statements that write such rows keep them.
Two requests create such rows and two update them; every other one writes other
tables or only deletes.
-/

set_option autoImplicit false

namespace Jetski.RowChecks

open Relational Schema Jetski.Types Database Handlers Routes Validation Reachability ApiRuns

def checked (A : OrganizationRow → Prop) (B : DeploymentRevisionRow → Prop) :
    (t : Table) → Key t → Row t → Prop
  | .organization, _, v => A v
  | .deploymentRevision, _, v => B v
  | _, _, _ => True

section Rules
variable (A : OrganizationRow → Prop) (B : DeploymentRevisionRow → Prop)

abbrev Vets {α : Type} (Q : α → Prop) (p : Api α) : Prop := p.Vetting (checked A B) Q

theorem vets_ret {α : Type} (a : α) : Vets A B (fun _ => True) (.ret a) := True.intro

/-! ## Statements -/

/-- Images of other tables are never checked. -/
theorem vetted_other (ws : List Image)
    (h : ∀ w ∈ ws, w.table ≠ .organization ∧ w.table ≠ .deploymentRevision) :
    VettedImages (checked A B) ws := by
  intro t k v hw
  have ht := h _ hw
  cases t
  case organization => exact absurd rfl ht.1
  case deploymentRevision => exact absurd rfl ht.2
  all_goals trivial

theorem vetted_single (t : Table) (k : Key t) (v : Row t) (h : checked A B t k v) :
    VettedImages (checked A B) [⟨t, k, some v⟩] := by
  intro t' k' v' hw
  cases List.mem_singleton.mp hw
  exact h

theorem vets_select {β : Type} (Q : Except DbError β → Prop) (name : Stmt) (h : Handle)
    (rows : Db → Except DbError β) (he : ∀ e, Q (.error e))
    (hq : ∀ db b, VettedRows (checked A B) db → rows db = .ok b → Q (.ok b)) :
    Vets A B Q (query name h (Queries.select rows)) := by
  refine ⟨he, fun t db hdb b ws hf => ?_⟩
  cases hr : rows db with
  | error e =>
    rw [Queries.select, hr] at hf
    cases hf
  | ok r =>
    rw [Queries.select, hr] at hf
    cases hf
    exact ⟨fun _ _ _ hw => (by cases hw), hq db _ hdb hr⟩

theorem vets_statement {β : Type} (Q : Except DbError β → Prop) (name : Stmt) (h : Handle)
    (f : Queries.Sql β) (he : ∀ e, Q (.error e))
    (hf : ∀ t db b ws, VettedRows (checked A B) db → f t db = .ok (b, ws) →
      VettedImages (checked A B) ws ∧ Q (.ok b)) : Vets A B Q (query name h f) :=
  ⟨he, fun t db hdb b ws hok => hf t db b ws hdb hok⟩

theorem vets_runTx {α : Type} (Q : Except DbError α → Prop) (db : Handle)
    (f : Handle → Api (Except DbError α)) (hf : ∀ tx, Vets A B (fun _ => True) (f tx))
    (hq : ∀ r, Q r) : Vets A B Q (runTx db f) := by
  intro tx
  cases tx with
  | none => exact hq _
  | some tx =>
    change Prog.Vetting _ (Prog.bind (f tx) _) _
    refine vetting_bind _ _ _ _ (vetting_mono _ _ _ (fun r _ => ?_) _ (hf tx))
    cases r with
    | error e => exact hq _
    | ok a =>
      intro ok
      cases ok <;> exact hq _

theorem vets_deleteProject (Q : Except DbError ℕ → Prop) (h : Handle) (projectID : UUID)
    (hq : ∀ r, Q r) : Vets A B Q (query .deleteProject h (Queries.deleteProject projectID)) := by
  refine vets_statement A B Q _ _ _ (fun e => hq _) fun t db n ws hdb hf => ⟨?_, hq _⟩
  rw [Queries.deleteProject] at hf
  split at hf
  · cases hf
    exact fun _ _ _ hw => by cases hw
  · split at hf
    · cases hf
    · next hd =>
      cases hf
      -- a deletion only clears columns of projects
      refine deleteRow_images foreignKeys tables (checked A B) (fun f hf k v hv => ?_) _ _ db ws
        hdb hd
      simp only [foreignKeys, List.mem_cons, List.not_mem_nil, or_false] at hf
      rcases hf with rfl | rfl | rfl | rfl | rfl | rfl | rfl | rfl | rfl | rfl | rfl | rfl | rfl |
        rfl | rfl <;> exact hv

theorem vets_put {β : Type} (Q : Except DbError β → Prop) (name : Stmt) (h : Handle)
    (f : Queries.Sql β) (hq : ∀ r, Q r)
    (hf : ∀ t db b ws, f t db = .ok (b, ws) →
      ws = [] ∨ ∃ tb k v, ws = [⟨tb, k, v⟩] ∧ tb ≠ .organization ∧ tb ≠ .deploymentRevision) :
    Vets A B Q (query name h f) := by
  refine vets_statement A B Q _ _ _ (fun e => hq _) fun t db b ws _ hok => ⟨?_, hq _⟩
  apply vetted_other
  intro w hw
  rcases hf t db b ws hok with rfl | ⟨tb, k, v, rfl, ht⟩
  · cases hw
  · cases List.mem_singleton.mp hw
    exact ht

theorem vets_addDeploymentRevisionEvent (db : Handle) (revisionID : UUID)
    (type : DeploymentRevisionEventType) (timestamp : Option Time) :
    Vets A B (fun _ => True) (addDeploymentRevisionEvent db revisionID type timestamp) := by
  have hinsert : Vets A B (fun _ => True) (query .insertDeploymentRevisionEvent db
      (Queries.insertDeploymentRevisionEvent revisionID type timestamp)) := by
    refine vets_put A B _ _ _ _ (fun _ => trivial) fun t db b ws hf => Or.inr ?_
    exact ⟨_, _, _, (Ownership.insertRow_ok _ _ _ _ _ _ _ hf).2, by decide⟩
  refine vetting_bind _ _ _ _ (vetting_mono _ _ _ (fun r _ => ?_) _ hinsert)
  cases r with
  | error e => trivial
  | ok eventID =>
    refine vets_put A B _ _ _ _ (fun _ => trivial) fun t db b ws hf => ?_
    rw [Queries.updateLatestDeploymentRevisionEvent] at hf
    split at hf
    · cases hf
      exact Or.inl rfl
    · split at hf
      · cases hf
        exact Or.inl rfl
      · exact Or.inr ⟨_, _, _, (Ownership.putRow_ok _ _ _ _ _ _ _ hf).2, by decide⟩

theorem vets_applyGateway (env : Env) (db : Handle) (org : Organization) :
    Vets A B (fun _ => True) (applyGateway env db org) := by
  refine vetting_bind _ _ _ _ (vets_select A B _ _ _ _ (fun e => trivial) fun _ pss _ _ => ?_)
  exact fun ok => by cases ok <;> trivial

/-- Programs that write only other tables. -/
theorem built_vets (env : Env) {α : Type} (p : Api α)
    (h : Built env (fun t => t ≠ .organization ∧ t ≠ .deploymentRevision) (fun _ => True) p) :
    Vets A B (fun _ => True) p := by
  induction h with
  | ret a => trivial
  | bind _ _ ih ihf =>
    exact vetting_bind _ _ _ _ (vetting_mono _ _ _ (fun a _ => ihf a) _ ih)
  | runTx db _ ih => exact vets_runTx A B _ db _ ih (fun _ => trivial)
  | call c => exact fun _ => trivial
  | applyGateway db org => exact vets_applyGateway A B env db org
  | emit o => trivial
  | select name db rows =>
    exact vets_select A B _ name db rows (fun _ => trivial) (fun _ _ _ _ => trivial)
  | createOrganization ho => exact absurd rfl ho.1
  | updateOrganization ho => exact absurd rfl ho.1
  | addUserToOrganization hm db userID orgID =>
    refine vets_put A B _ _ _ _ (fun _ => trivial) fun t db b ws hf => ?_
    rw [Queries.addUserToOrganization] at hf
    split at hf
    · cases hf
      exact Or.inl rfl
    · exact Or.inr ⟨_, _, _, (Ownership.putRow_ok _ _ _ _ _ _ _ hf).2, by decide⟩
  | removeUserFromOrganization hm db userID orgID =>
    refine vets_put A B _ _ _ _ (fun _ => trivial) fun t db b ws hf => ?_
    rw [Queries.removeUserFromOrganization] at hf
    split at hf <;> cases hf
    · exact Or.inr ⟨_, _, _, rfl, by decide⟩
    · exact Or.inl rfl
  | getUserByEmailOrCreate hu db email =>
    refine vets_put A B _ _ _ _ (fun _ => trivial) fun t db b ws hf => ?_
    rw [Queries.getUserByEmailOrCreate] at hf
    split at hf
    · split at hf
      · exact Or.inr ⟨_, _, _, (Ownership.insertRow_ok _ _ _ _ _ _ _ hf).2, by decide⟩
      · exact Or.inl (Ownership.read_ok _ b ws hf)
    · cases hf
  | createProject hp db orgID createdBy name =>
    refine vets_put A B _ _ _ _ (fun _ => trivial) fun t db b ws hf => Or.inr ?_
    exact ⟨_, _, _, (Ownership.insertRow_ok _ _ _ _ _ _ _ hf).2, by decide⟩
  | deleteProject hd => exact absurd rfl (hd .deploymentRevision (by decide)).2
  | createDeploymentRevision hr => exact absurd rfl hr.2
  | createHostedDeploymentRevision hr => exact absurd rfl hr.2
  | addDeploymentRevisionEvent he hp db revisionID type timestamp =>
    exact vets_addDeploymentRevisionEvent A B db revisionID type timestamp
  | createMCPServerLog hl db data =>
    refine vets_put A B _ _ _ _ (fun _ => trivial) fun t db b ws hf => Or.inr ?_
    rw [Logs.createMCPServerLog] at hf
    split at hf
    · split at hf
      · cases hf
      · exact ⟨_, _, _, (Ownership.insertRow_ok _ _ _ _ _ _ _ hf).2, by decide⟩
    · cases hf
  | insertContextProperty hc db v =>
    refine vets_put A B _ _ _ _ (fun _ => trivial) fun t db b ws hf => Or.inr ?_
    exact ⟨_, _, _, (Ownership.insertRow_ok _ _ _ _ _ _ _ hf).2, by decide⟩
  | insertContext hc db v =>
    refine vets_put A B _ _ _ _ (fun _ => trivial) fun t db b ws hf => Or.inr ?_
    exact ⟨_, _, _, (Ownership.insertRow_ok _ _ _ _ _ _ _ hf).2, by decide⟩

theorem vets_createDeploymentRevision (db : Handle) (dr : Queries.NewRevision)
    (hdr : ∀ createdAt, dr.fits = true → B (Ownership.rowOf dr createdAt)) :
    Vets A B (fun _ => True) (createDeploymentRevision db dr) := by
  refine vets_runTx A B _ db _ (fun _ => ?_) (fun _ => trivial)
  have hinsert : Vets A B (fun _ => True) (query .insertDeploymentRevision db
      (Queries.insertDeploymentRevision dr)) := by
    refine vets_statement A B _ _ _ _ (fun _ => trivial) fun t db b ws _ hf => ⟨?_, trivial⟩
    obtain ⟨hfits, hws⟩ := Ownership.insertDeploymentRevision_row dr t db b ws hf
    rw [hws]
    exact vetted_single A B .deploymentRevision _ _ (hdr _ hfits)
  refine vetting_bind _ _ _ _ (vetting_mono _ _ _ (fun r _ => ?_) _ hinsert)
  cases r with
  | error e => trivial
  | ok res =>
    have hupdate : Vets A B (fun _ => True) (query .updateLatestDeploymentRevision db
        (Queries.updateLatestDeploymentRevision res.id res.projectID)) := by
      refine vets_put A B _ _ _ _ (fun _ => trivial) fun t db b ws hf => ?_
      rw [Queries.updateLatestDeploymentRevision] at hf
      split at hf
      · cases hf
        exact Or.inl rfl
      · exact Or.inr ⟨_, _, _, (Ownership.putRow_ok _ _ _ _ _ _ _ hf).2, by decide⟩
    refine vetting_bind _ _ _ _ (vetting_mono _ _ _ (fun r _ => ?_) _ hupdate)
    cases r <;> trivial

end Rules

/-- What the writers of organizations and revisions check keeps the predicates. -/
structure Checks (A : OrganizationRow → Prop) (B : DeploymentRevisionRow → Prop) (env : Env) :
    Prop where
  new : ∀ createdAt name, validateName name = .ok () → A ⟨createdAt, name, ⟨none, ⟨true⟩⟩⟩
  settings : ∀ (v : OrganizationRow) (org org' : Organization) request, A v →
    A org.toOrganizationRow → requestedSettings org request = .ok org' →
    A { v with settings := org'.settings }
  merge : ∀ user req projectID (latest : Option DeploymentRevision) createdAt,
    checkSettings env req = .ok () → (∀ dr, latest = some dr → B dr.toDeploymentRevisionRow) →
    B (Ownership.rowOf (mergeSettings user req projectID latest) createdAt)

def FirstChecked (B : DeploymentRevisionRow → Prop) : Route → Prop
  | .postProject (some req) => ∀ user projectID createdAt u, validateName req.name = .ok () →
    req.proxyURL = some u → (firstRevision user req projectID u).fits = true →
    B (Ownership.rowOf (firstRevision user req projectID u) createdAt)
  | _ => True

theorem first_unchecked (route : Route) : FirstChecked (fun _ => True) route := by
  cases route with
  | postProject body => cases body <;> simp [FirstChecked]
  | _ => trivial

/-! ## Requests -/

section Requests
variable (A : OrganizationRow → Prop) (B : DeploymentRevisionRow → Prop) (env : Env)
  (user : UserAccount)

theorem vets_validate (Q : Bool → Prop) (r : Except String Unit) (hf : Q false)
    (ht : r = .ok () → Q true) : Vets A B Q (validate r) := by
  cases r with
  | error e => exact hf
  | ok u => exact ht rfl

theorem partOfOrg_row (userID orgID : UUID) (db : Db) (member : Bool) (org : Organization)
    (hdb : VettedRows (checked A B) db)
    (h : Queries.collectExactlyOneRow ((Queries.organization db orgID).toList.map
      (fun o => (Queries.isMember db userID orgID, o))) = .ok (member, org)) :
    A org.toOrganizationRow := by
  obtain ⟨v, hv, rfl, -⟩ := Queries.partOfOrg_ok db userID orgID member org h
  exact hdb .organization orgID v hv

theorem vets_withProject (projectID : Param UUID) (f : UUID → Api Unit)
    (h : ∀ id, Vets A B (fun _ => True) (f id)) :
    Vets A B (fun _ => True) (withProject user projectID f) := by
  refine vetting_bind _ _ _ _ ?_
  have hnext : ∀ id, Vets A B (fun _ => True) (if id = 0 then pure () else f id) := by
    intro id
    split
    · trivial
    · exact h id
  cases projectID with
  | absent => exact hnext 0
  | invalid => exact hnext 0
  | value id =>
    refine vetting_bind _ _ _ _ (vets_select A B _ _ _ _ (fun e => hnext 0)
      fun _ b _ _ => ?_)
    cases b with
    | false => exact hnext 0
    | true => exact hnext id

theorem vets_withOrganization (organizationID : Param UUID) (f : Organization → Api Unit)
    (h : ∀ org, A org.toOrganizationRow → Vets A B (fun _ => True) (f org)) :
    Vets A B (fun _ => True) (withOrganization user organizationID f) := by
  refine vetting_bind _ _ _ _ ?_
  cases organizationID with
  | absent => trivial
  | invalid => trivial
  | value id =>
    refine vetting_bind _ _ _ _ (vets_select A B _ _ _ _ (fun e => trivial)
      fun db b hdb hb => ?_)
    obtain ⟨member, org⟩ := b
    cases member with
    | false => trivial
    | true => exact h org (partOfOrg_row A B user.id id db true org hdb hb)

/-- Programs that write neither organizations nor revisions. -/
theorem vets_rest {α : Type} (p : Api α)
    (h : ∀ T : Table → Prop, T .project → T .organizationUserAccount → T .userAccount →
      T .mcpServerLog → Built env T (fun _ => True) p) : Vets A B (fun _ => True) p :=
  built_vets A B env p (h _ (by decide) (by decide) (by decide) (by decide))

variable (hc : Checks A B env)
include hc

theorem vets_postOrganization (name : Option String) :
    Vets A B (fun _ => True) (postOrganizationHandler user name) := by
  cases name with
  | none => trivial
  | some name =>
    cases hvalid : validateName (trimSpace name) with
    | error e =>
      simp only [postOrganizationHandler, hvalid]
      trivial
    | ok _ =>
      simp only [postOrganizationHandler, hvalid]
      have hcreate : Vets A B (fun _ => True) (createOrganization .pool (trimSpace name)) := by
        refine vetting_bind _ _ _ _ (vets_statement A B _ _ _ _ (fun _ => trivial)
          fun t db b ws _ hf => ⟨?_, trivial⟩)
        rw [(Ownership.insertRow_ok _ _ _ _ _ _ _ hf).2]
        exact vetted_single A B .organization _ _ (hc.new _ _ hvalid)
      refine vetting_bind _ _ _ _ (vets_validate A B _ _ (vets_ret A B _) fun _ => ?_)
      refine vetting_bind _ _ _ _ (vetting_mono _ _ _ (fun r _ => ?_) _ hcreate)
      cases r with
      | error e => cases e <;> trivial
      | ok org =>
        have hadd := vets_rest A B env (addUserToOrganization .pool user.id org.id)
          fun T _ hm _ _ => .addUserToOrganization hm _ _ _
        refine vetting_bind _ _ _ _ (vetting_mono _ _ _ (fun r _ => ?_) _ hadd)
        cases r <;> trivial

theorem vets_putOrganization (organizationID : Param UUID)
    (body : Option OrganizationSettingsRequest) :
    Vets A B (fun _ => True) (putOrganizationHandler env user organizationID body) := by
  refine vets_withOrganization A B user _ _ fun org horg => ?_
  cases body with
  | none => trivial
  | some request =>
    cases hr : requestedSettings org request with
    | error e =>
      simp only [hr]
      trivial
    | ok org' =>
      simp only [hr]
      have hupdate : Vets A B (fun _ => True)
          (if request.customDomain.isSome || request.authorization.isSome
            then updateOrganization .pool org' else pure (.ok org')) := by
        split
        · refine vetting_bind _ _ _ _ (vets_statement A B _ _ _ _ (fun _ => trivial)
            fun t db b ws hdb hf => ⟨?_, trivial⟩)
          rw [Queries.updateOrganization] at hf
          split at hf
          · cases hf
          · next v hv =>
            rw [(Ownership.putRow_ok _ _ _ _ _ _ _ hf).2]
            exact vetted_single A B .organization _ _
              (hc.settings v org org' request (hdb .organization _ v hv) horg hr)
        · trivial
      refine vetting_bind _ _ _ _ (vetting_mono _ _ _ (fun r _ => ?_) _ hupdate)
      cases r with
      | error e => trivial
      | ok saved =>
        exact vetting_bind _ _ _ _ (vetting_mono _ _ _ (fun _ _ => trivial) _
          (vets_applyGateway A B env .pool saved))

omit hc in
theorem vets_postProject (body : Option ProjectRequest) (h : FirstChecked B (.postProject body)) :
    Vets A B (fun _ => True) (postProjectHandler env user body) := by
  cases body with
  | none => trivial
  | some projectReq =>
    refine vetting_bind _ _ _ _ (vets_validate A B _ _ (vets_ret A B _) fun hvalid => ?_)
    refine vetting_bind _ _ _ _ (vets_select A B _ _ _ _ (fun e => trivial) fun db b _ _ => ?_)
    obtain ⟨member, org⟩ := b
    cases member with
    | false => trivial
    | true =>
      refine vetting_bind _ _ _ _ (vets_runTx A B _ _ _ (fun tx => ?_) fun r => ?_)
      · have hcreate := vets_rest A B env
          (createProject tx projectReq.organizationID user.id projectReq.name)
          fun T hp _ _ _ => .createProject hp _ _ _ _
        refine vetting_bind _ _ _ _ (vetting_mono _ _ _ (fun r _ => ?_) _ hcreate)
        cases r with
        | error e => trivial
        | ok project =>
          dsimp only
          split
          · trivial
          · next u hu =>
            have hrevision := vets_createDeploymentRevision A B tx
              (firstRevision user projectReq project.id u)
              fun createdAt hfits => h user project.id createdAt u hvalid hu hfits
            refine vetting_bind _ _ _ _ (vetting_mono _ _ _ (fun r _ => ?_) _ hrevision)
            cases r <;> trivial
      · cases r with
        | error e => trivial
        | ok project =>
          dsimp only
          split
          · exact vetting_bind _ _ _ _ (vetting_mono _ _ _ (fun _ _ => trivial) _
              (vets_applyGateway A B env .pool org))
          · trivial

omit hc in
theorem vets_deleteProjectHandler (projectID : Param UUID) :
    Vets A B (fun _ => True) (deleteProjectHandler env user projectID) := by
  refine vets_withProject A B user _ _ fun id => ?_
  refine vetting_bind _ _ _ _ (vets_select A B _ _ _ _ (fun e => ?_) fun db b _ _ => ?_)
  · cases e <;> trivial
  · have hdelete : Vets A B (fun _ => True) (deleteProject .pool id) := by
      refine vetting_bind _ _ _ _ (vets_deleteProject A B _ _ _ fun r => ?_)
      cases r with
      | error e => trivial
      | ok n =>
        dsimp only
        split <;> trivial
    refine vetting_bind _ _ _ _ (vetting_mono _ _ _ (fun r _ => ?_) _ hdelete)
    cases r with
    | error e => trivial
    | ok _ =>
      exact vetting_bind _ _ _ _ (vetting_mono _ _ _ (fun _ _ => trivial) _
        (vets_applyGateway A B env .pool b.organization))

omit hc in
theorem latestRevision_some (db : Db) (projectID : UUID) (p : ProjectRow) (dr : DeploymentRevision)
    (h : Queries.latestRevision db projectID p = some dr) : ∃ d v,
      p.latestDeploymentRevisionID = some d ∧ db.row .deploymentRevision d = some v ∧
      v = dr.toDeploymentRevisionRow := by
  rw [Queries.latestRevision] at h
  cases hl : p.latestDeploymentRevisionID with
  | none =>
    rw [hl] at h
    cases h
  | some d =>
    cases hv : db.row .deploymentRevision d with
    | none =>
      simp [hl, hv] at h
    | some v =>
      simp only [hl, hv, Option.bind_eq_bind, Option.bind_some] at h
      cases h
      exact ⟨d, v, rfl, hv, rfl⟩

omit hc in
/-- The latest revision of a summary is stored. -/
theorem summary_row (db : Db) (hdb : VettedRows (checked A B) db) (projectID : UUID)
    (ps : ProjectSummary) (h : Queries.collectExactlyOneRow
      (((db.row .project projectID).bind (Queries.summary db projectID)).toList) = .ok ps)
    (dr : DeploymentRevision) (hdr : ps.latestDeploymentRevision = some dr) :
    B dr.toDeploymentRevisionRow := by
  cases hp : db.row .project projectID with
  | none =>
    rw [hp] at h
    cases h
  | some p =>
    rw [hp, Option.bind_some] at h
    cases hs : Queries.summary db projectID p with
    | none =>
      rw [hs] at h
      cases h
    | some ps' =>
      rw [hs] at h
      cases h
      obtain ⟨o, -, rfl⟩ := (Summaries.summary_some db projectID p ps).mp hs
      change Queries.latestRevision db projectID p = some dr at hdr
      obtain ⟨d, v, -, hv, hrow⟩ := latestRevision_some db projectID p dr hdr
      exact hrow ▸ hdb .deploymentRevision d v hv

theorem vets_saveSettings (req : SettingsRequest) (hreq : checkSettings env req = .ok ())
    (projectID : UUID) (tx : Handle) :
    Vets A B (fun _ => True) (saveSettings env user req projectID tx) := by
  refine vetting_bind _ _ _ _ (vets_select A B _ _ _ _ (fun e => trivial) fun db ps hdb hps => ?_)
  dsimp only
  split
  · trivial
  · have hrevision := vets_createDeploymentRevision A B tx
      (mergeSettings user req projectID ps.latestDeploymentRevision)
      fun createdAt _ => hc.merge user req projectID _ createdAt hreq
        (summary_row A B db hdb projectID ps hps)
    refine vetting_bind _ _ _ _ (vetting_mono _ _ _ (fun r _ => ?_) _ hrevision)
    cases r with
    | error e => trivial
    | ok dr =>
      have hevent : Vets A B (fun _ => True) (if dr.ociURL.isSome
          then addDeploymentRevisionEvent tx dr.id .progressing none else pure (.ok ())) := by
        split
        · exact vets_addDeploymentRevisionEvent A B _ _ _ _
        · trivial
      refine vetting_bind _ _ _ _ (vetting_mono _ _ _ (fun r _ => ?_) _ hevent)
      cases r with
      | error e => trivial
      | ok _ =>
        exact vetting_bind _ _ _ _ (vetting_mono _ _ _ (fun _ _ => trivial) _
          (vets_applyGateway A B env tx ps.organization))

theorem vets_putProjectSettings (projectID : Param UUID) (body : Option SettingsRequest) :
    Vets A B (fun _ => True) (putProjectSettings env user projectID body) := by
  cases body with
  | none => trivial
  | some req =>
    refine vetting_bind _ _ _ _ (vets_validate A B _ _ (vets_ret A B _) fun hreq => ?_)
    refine vets_withProject A B user _ _ fun id => ?_
    refine vetting_bind _ _ _ _ (vets_runTx A B _ _ _
      (fun tx => vets_saveSettings A B env user hc req hreq id tx) fun r => ?_)
    cases r <;> trivial

variable (rt : Analytics.Runtime)

theorem handle_vets (route : Route) (h : FirstChecked B route) :
    Vets A B (fun _ => True) (handle rt env user route) := by
  cases route with
  | postOrganization name => exact vets_postOrganization A B env user hc name
  | putOrganization organizationID body =>
    exact vets_putOrganization A B env user hc organizationID body
  | postProject body => exact vets_postProject A B env user body h
  | deleteProject projectID => exact vets_deleteProjectHandler A B env user projectID
  | putProjectSettings projectID body =>
    exact vets_putProjectSettings A B env user hc projectID body
  | _ => exact built_vets A B env _ (handle_built rt env _ user _ (by simp [tablesOf]))

theorem serve_vets (email : Option String) (route : Route) (h : FirstChecked B route) :
    Vets A B (fun _ => True) (serve rt env email route) := by
  cases email with
  | none => trivial
  | some email =>
    have huser := vets_rest A B env (Database.getUserByEmailOrCreate env .pool email)
      fun T _ _ hu _ => built_mapError env T _ _ (.getUserByEmailOrCreate hu _ _)
    refine vetting_bind _ _ _ _ (vetting_mono _ _ _ (fun r _ => ?_) _ huser)
    cases r with
    | error e => cases e <;> exact True.intro
    | ok user => exact handle_vets A B env user hc rt route h

omit hc in
theorem gatewayWebhook_vets (deploymentRevisionID : Param UUID) (body : Option WebhookPayload) :
    Vets A B (fun _ => True) (gatewayWebhook env deploymentRevisionID body) :=
  vets_rest A B env _ fun T _ _ _ hl => gatewayWebhook_built env T hl deploymentRevisionID body

/-- All rows stored by concurrent requests are checked. -/
theorem run_checked {σ : Type} [DecidableEq σ] (w₀ w : ApiWorld σ) (h₀ : Initial w₀)
    (hp : ∀ i, (∃ email route, FirstChecked B route ∧ w₀.prog i = serve rt env email route) ∨
      ∃ id body, w₀.prog i = gatewayWebhook env id body)
    (h : Run backend postgres w₀ w) : Vetted (checked A B) w.cfg := by
  refine (run_vetting backend (checked A B) postgres w₀ w ⟨?_, fun i => ?_⟩ h).rows
  · intro t k v hv
    exact absurd hv (initial_empty w₀ h₀ t k v)
  · rcases hp i with ⟨email, route, hroute, hi⟩ | ⟨id, body, hi⟩
    · exact hi ▸ serve_vets A B env hc rt email route hroute
    · exact hi ▸ gatewayWebhook_vets A B env id body

end Requests

end Jetski.RowChecks
