import Jetski.Disclosure
import Jetski.Existence
import Jetski.Mediation
import Jetski.Relational.Erasure

/-!
# Secrecy

A request that only reads is answered from the rows of the organizations of its
user, with the accounts that these refer to: the answer is the same when all other
rows are erased, whatever they hold and however many there are.
-/

set_option autoImplicit false

namespace Jetski.Secrecy

open Relational Schema Jetski.Types Database Handlers Routes Reachability Requests
open Isolation (Belongs)

/-! ## What a user may learn from -/

/-- The rows of the organizations of the user, the accounts of their members and of
the authors of their revisions, and the account of the user. -/
def Visible (db : Db) (u : UUID) : (t : Table) → Key t → Prop
  | .userAccount, a => a = u ∨
    (∃ o, Queries.isMember db u o = true ∧ Queries.isMember db a o = true) ∨
    ∃ r v, db.row .deploymentRevision r = some v ∧ v.createdBy = a ∧ Accessible db u v.projectID
  | t, k => ∃ o, Queries.isMember db u o = true ∧ Belongs db o t k

/-- The state without the rows of others. -/
noncomputable def own (db : Db) (u : UUID) : Db := db.restrict (Visible db u)

section Rows
variable (db : Db) (u : UUID)

theorem visible_organization (o : UUID) (h : Queries.isMember db u o = true) :
    Visible db u .organization o :=
  ⟨o, h, rfl⟩

theorem visible_membership (o a : UUID) :
    Visible db u .organizationUserAccount (o, a) ↔ Queries.isMember db u o = true := by
  constructor
  · rintro ⟨o', h, rfl⟩
    exact h
  · exact fun h => ⟨o, h, rfl⟩

theorem visible_project (p : UUID) : Visible db u .project p ↔ Accessible db u p := by
  constructor
  · rintro ⟨o, h, v, hv, rfl⟩
    exact ⟨v, hv, h⟩
  · rintro ⟨v, hv, h⟩
    exact ⟨v.organizationID, h, v, hv, rfl⟩

theorem visible_revision (r : UUID) (v : DeploymentRevisionRow)
    (hv : db.row .deploymentRevision r = some v) :
    Visible db u .deploymentRevision r ↔ Accessible db u v.projectID := by
  constructor
  · rintro ⟨o, h, v', p, hv', hp, rfl⟩
    cases hv.symm.trans hv'
    exact ⟨p, hp, h⟩
  · rintro ⟨p, hp, h⟩
    exact ⟨p.organizationID, h, v, p, hv, hp, rfl⟩

theorem visible_event (e : UUID) (v : DeploymentRevisionEventRow) (r : DeploymentRevisionRow)
    (hv : db.row .deploymentRevisionEvent e = some v)
    (hr : db.row .deploymentRevision v.deploymentRevisionID = some r)
    (h : Accessible db u r.projectID) : Visible db u .deploymentRevisionEvent e := by
  obtain ⟨p, hp, h⟩ := h
  exact ⟨p.organizationID, h, v, r, p, hv, hr, hp, rfl⟩

theorem visible_log (l : UUID) (v : MCPServerLogRow) (hv : db.row .mcpServerLog l = some v) :
    Visible db u .mcpServerLog l ↔ Accessible db u v.projectID := by
  constructor
  · rintro ⟨o, h, v', p, hv', hp, rfl⟩
    cases hv.symm.trans hv'
    exact ⟨p, hp, h⟩
  · rintro ⟨p, hp, h⟩
    exact ⟨p.organizationID, h, v, p, hv, hp, rfl⟩

theorem own_isMember (a o : UUID) (h : Queries.isMember db u o = true) :
    Queries.isMember (own db u) a o = Queries.isMember db a o := by
  rw [Queries.isMember, Queries.isMember, own,
    db.restrict_row _ _ _ ((visible_membership db u o a).mpr h)]

/-- The user has the same memberships. -/
theorem own_memberships (o : UUID) :
    Queries.isMember (own db u) u o = Queries.isMember db u o := by
  by_cases h : Queries.isMember db u o = true
  · exact own_isMember db u u o h
  · have hhidden := mt (visible_membership db u o u).mp h
    rw [Queries.isMember, own, db.restrict_none _ _ _ hhidden, Bool.not_eq_true] at *
    exact h.symm

theorem own_organization (o : UUID) (h : Queries.isMember db u o = true) :
    Queries.organization (own db u) o = Queries.organization db o := by
  rw [Queries.organization, Queries.organization, own,
    db.restrict_row _ _ _ (visible_organization db u o h)]

theorem own_project (p : UUID) (h : Accessible db u p) :
    (own db u).row .project p = db.row .project p :=
  db.restrict_row _ _ _ ((visible_project db u p).mpr h)

theorem own_account (a : UUID) (h : Visible db u .userAccount a) :
    (own db u).row .userAccount a = db.row .userAccount a :=
  db.restrict_row _ _ _ h

theorem own_revision (r : UUID) (v : DeploymentRevisionRow)
    (hv : db.row .deploymentRevision r = some v) (h : Accessible db u v.projectID) :
    (own db u).row .deploymentRevision r = some v :=
  (db.restrict_row _ _ _ ((visible_revision db u r v hv).mpr h)).trans hv

end Rows

/-! ## Queries -/

section Queries
variable (db : Db) (u : UUID) (env : Env)

theorem own_organizations (t : Tick) :
    Queries.getOrganizationsOfUser env u t (own db u) =
      Queries.getOrganizationsOfUser env u t db := by
  have hscan : ((own db u).scan .organizationUserAccount).filterMap (fun j => do
      guard (j.1.2 = u)
      let _ ← Queries.userAccount (own db u) u
      Queries.organization (own db u) j.1.1) = (db.scan .organizationUserAccount).filterMap
        (fun j => do
          guard (j.1.2 = u)
          let _ ← Queries.userAccount db u
          Queries.organization db j.1.1) := by
    refine db.restrict_scan _ _ _ _ (fun k v hv hk => ?_) fun k v hv hk => ?_
    · obtain ⟨o, a⟩ := k
      by_cases ha : a = u
      · subst ha
        refine absurd ((visible_membership db a o a).mpr ?_) hk
        rw [Queries.isMember, hv]
        rfl
      · simp [ha, guard, failure]
    · obtain ⟨o, a⟩ := k
      have hm := (visible_membership db u o a).mp hk
      rw [own_organization db u o hm, Queries.userAccount, Queries.userAccount,
        own_account db u u (Or.inl rfl)]
  rw [Queries.getOrganizationsOfUser, Queries.select, hscan]
  rfl

theorem own_projects (t : Tick) :
    Queries.getProjectsForUser env u t (own db u) = Queries.getProjectsForUser env u t db := by
  have hscan : ((own db u).scan .project).filterMap (fun p => do
      let o ← (own db u).row .organization p.2.organizationID
      guard (Queries.isMember (own db u) u p.2.organizationID)
      return ((o.name, p.2.name), ({ p.2 with id := p.1 } : Project))) =
      (db.scan .project).filterMap (fun p => do
        let o ← db.row .organization p.2.organizationID
        guard (Queries.isMember db u p.2.organizationID)
        return ((o.name, p.2.name), ({ p.2 with id := p.1 } : Project))) := by
    refine db.restrict_scan _ _ _ _ (fun p v hv hk => ?_) fun p v hv hk => ?_
    · have hm : Queries.isMember db u v.organizationID = false := by
        rw [← Bool.not_eq_true]
        exact fun hm => hk ((visible_project db u p).mpr ⟨v, hv, hm⟩)
      cases db.row .organization v.organizationID <;> simp [hm, guard, failure]
    · obtain ⟨v', hv', hm⟩ := (visible_project db u p).mp hk
      cases hv.symm.trans hv'
      have horg : (own db u).row .organization v.organizationID =
          db.row .organization v.organizationID :=
        db.restrict_row _ _ _ (visible_organization db u _ hm)
      simp only [horg, own_memberships]
  rw [Queries.getProjectsForUser, Queries.select, hscan]
  rfl

theorem own_members (o : UUID) (hm : Queries.isMember db u o = true) (t : Tick) :
    Queries.getOrganizationMembers o t (own db u) = Queries.getOrganizationMembers o t db := by
  have hscan : ((own db u).scan .organizationUserAccount).filterMap (fun j => do
      guard (j.1.1 = o)
      let a ← Queries.userAccount (own db u) j.1.2
      return (j.1, a)) = (db.scan .organizationUserAccount).filterMap (fun j => do
        guard (j.1.1 = o)
        let a ← Queries.userAccount db j.1.2
        return (j.1, a)) := by
    refine db.restrict_scan _ _ _ _ (fun k v hv hk => ?_) fun k v hv hk => ?_
    · obtain ⟨o', a⟩ := k
      by_cases ho : o' = o
      · subst ho
        exact absurd ((visible_membership db u o' a).mpr hm) hk
      · simp [ho, guard, failure]
    · obtain ⟨o', a⟩ := k
      have hm' := (visible_membership db u o' a).mp hk
      have ha : Visible db u .userAccount a :=
        Or.inr (Or.inl ⟨o', hm', by rw [Queries.isMember, hv]; rfl⟩)
      rw [Queries.userAccount, Queries.userAccount, own_account db u a ha]
  rw [Queries.getOrganizationMembers, Queries.select, hscan]
  rfl

theorem own_access (p : UUID) (t : Tick) :
    Queries.canUserAccessProject u p t (own db u) = Queries.canUserAccessProject u p t db := by
  rw [Queries.canUserAccessProject, Queries.select, Queries.select]
  by_cases h : Accessible db u p
  · obtain ⟨v, hv, hm⟩ := h
    rw [own_project db u p ⟨v, hv, hm⟩, hv]
    simp only [own_memberships]
  · rw [own, db.restrict_none _ _ _ (mt (visible_project db u p).mp h)]
    cases hv : db.row .project p with
    | none => rfl
    | some v =>
      have hm : Queries.isMember db u v.organizationID = false := by
        rw [← Bool.not_eq_true]
        exact fun hm => h ⟨v, hv, hm⟩
      simp only [hm]

/-- The lookup of an organization of the user, or of none at all. -/
theorem own_partOfOrg (o : UUID)
    (h : Queries.isMember db u o = true ∨ db.row .organization o = none) (t : Tick) :
    Queries.isUserPartOfOrg u o t (own db u) = Queries.isUserPartOfOrg u o t db := by
  have horg : Queries.organization (own db u) o = Queries.organization db o := by
    rcases h with h | h
    · exact own_organization db u o h
    · have hnone : (own db u).row .organization o = none := by
        by_contra hn
        obtain ⟨v, hv⟩ := Option.ne_none_iff_exists'.mp hn
        cases h.symm.trans ((db.restrict_some _ _ _ _).mp hv).2
      rw [Queries.organization, Queries.organization, hnone, h]
  rw [Queries.isUserPartOfOrg, Queries.select, Queries.select, horg, own_memberships]

section Consistent
variable (hc : Consistent db)
include hc

theorem own_latestRevision (p : UUID) (v : ProjectRow) (hv : db.row .project p = some v)
    (hm : Queries.isMember db u v.organizationID = true) :
    Queries.latestRevision (own db u) p v = Queries.latestRevision db p v := by
  rw [Queries.latestRevision, Queries.latestRevision]
  cases hid : v.latestDeploymentRevisionID with
  | none => rfl
  | some id =>
    obtain ⟨r, hr, rfl⟩ := hc.revisions p v id hv hid
    have hcount : ((own db u).scan .deploymentRevision).countP
        (fun x => x.2.projectID = r.projectID) =
        (db.scan .deploymentRevision).countP (fun x => x.2.projectID = r.projectID) := by
      rw [List.countP_eq_length_filter, List.countP_eq_length_filter]
      refine congrArg List.length (db.restrict_filter _ _ _ _ (fun k x hx hk => ?_)
        fun _ _ _ _ => rfl)
      refine decide_eq_false fun hp => hk ((visible_revision db u k x hx).mpr ?_)
      have hp : x.projectID = r.projectID := hp
      exact hp ▸ ⟨v, hv, hm⟩
    have hrow := own_revision db u id r hr ⟨v, hv, hm⟩
    simp only [Option.bind_eq_bind, Option.bind_some, hrow, hr, hcount]

theorem own_event (p : UUID) (v : ProjectRow) (hv : db.row .project p = some v)
    (hm : Queries.isMember db u v.organizationID = true) (e : UUID)
    (he : v.latestDeploymentRevisionEventID = some e) :
    (own db u).row .deploymentRevisionEvent e = db.row .deploymentRevisionEvent e := by
  obtain ⟨ev, r, hev, hr, rfl⟩ := hc.events p v e hv he
  exact db.restrict_row _ _ _ (visible_event db u e ev r hev hr ⟨v, hv, hm⟩)

theorem own_summary (p : UUID) (v : ProjectRow) (hv : db.row .project p = some v)
    (hm : Queries.isMember db u v.organizationID = true) :
    Queries.summary (own db u) p v = Queries.summary db p v := by
  have hlatest := own_latestRevision db u hc p v hv hm
  have hevent : Queries.latestEvent (own db u) p v = Queries.latestEvent db p v := by
    rw [Queries.latestEvent, Queries.latestEvent, hlatest]
    cases he : v.latestDeploymentRevisionEventID with
    | none => rfl
    | some e =>
      simp only [Option.bind_eq_bind, Option.bind_some, own_event db u hc p v hv hm e he]
  rw [Queries.summary, Queries.summary, own_organization db u _ hm, hlatest, hevent]

theorem own_projectSummary (p : UUID) (h : Accessible db u p) (t : Tick) :
    Queries.getProjectSummary p t (own db u) = Queries.getProjectSummary p t db := by
  have hsummary : ((own db u).row .project p).bind (Queries.summary (own db u) p) =
      (db.row .project p).bind (Queries.summary db p) := by
    rw [own_project db u p h]
    obtain ⟨v, hv, hm⟩ := h
    rw [hv, Option.bind_some, Option.bind_some, own_summary db u hc p v hv hm]
  rw [Queries.getProjectSummary, Queries.select, Queries.select, hsummary]

theorem own_projectSummaries (o : UUID) (hm : Queries.isMember db u o = true) (t : Tick) :
    Queries.getProjectSummaries env o t (own db u) = Queries.getProjectSummaries env o t db := by
  have hscan : ((own db u).scan .project).filterMap (fun p =>
      if p.2.organizationID = o then Queries.summary (own db u) p.1 p.2 else none) =
      (db.scan .project).filterMap (fun p =>
        if p.2.organizationID = o then Queries.summary db p.1 p.2 else none) := by
    refine db.restrict_scan _ _ _ _ (fun p v hv hk => ?_) fun p v hv hk => ?_
    · refine if_neg fun ho : v.organizationID = o => hk ?_
      exact (visible_project db u p).mpr ⟨v, hv, ho ▸ hm⟩
    · by_cases ho : v.organizationID = o
      · simp only [ho, if_true, own_summary db u hc p v hv (ho ▸ hm)]
      · simp only [ho, if_false]
  rw [Queries.getProjectSummaries, Queries.select, Queries.projectSummaries, hscan]
  rfl

/-- The summaries of revisions of projects of the user. -/
theorem own_revisionSummaries (P : ProjectRow → UUID → Bool)
    (hP : ∀ p v, db.row .project p = some v → P v p = true →
      Queries.isMember db u v.organizationID = true) :
    Queries.revisionSummaries (own db u) P = Queries.revisionSummaries db P := by
  have hrows : ((own db u).scan .deploymentRevision).filter (fun r =>
      ((own db u).row .project r.2.projectID).any (fun v => P v r.2.projectID) ∧
        ((own db u).row .userAccount r.2.createdBy).isSome) =
      (db.scan .deploymentRevision).filter (fun r =>
        (db.row .project r.2.projectID).any (fun v => P v r.2.projectID) ∧
          (db.row .userAccount r.2.createdBy).isSome) := by
    refine db.restrict_filter _ _ _ _ (fun r v hv hk => ?_) fun r v hv hk => ?_
    · refine decide_eq_false fun hr => hk ((visible_revision db u r v hv).mpr ?_)
      obtain ⟨p, hp, hPp⟩ := (Option.any_eq_true _ _).mp hr.1
      exact ⟨p, hp, hP _ p hp hPp⟩
    · have hacc := (visible_revision db u r v hv).mp hk
      have hauthor : Visible db u .userAccount v.createdBy :=
        Or.inr (Or.inr ⟨r, v, hv, rfl, hacc⟩)
      simp only [own_project db u _ hacc, own_account db u _ hauthor]
  rw [Queries.revisionSummaries, Queries.revisionSummaries]
  simp only [hrows]
  refine congrArg (List.insertionSort _) (List.filterMap_congr fun r hr => ?_)
  have hmem := Disclosure.mem_rowNumbers _ _ r hr
  rw [List.mem_insertionSort, List.mem_filter, Store.mem_scan, decide_eq_true_eq] at hmem
  obtain ⟨hrow, hany, -⟩ := hmem
  obtain ⟨v, hv, hPv⟩ := (Option.any_eq_true _ _).mp hany
  have hm := hP _ v hv hPv
  have hauthor : Visible db u .userAccount r.createdBy :=
    Or.inr (Or.inr ⟨r.id, _, hrow, rfl, v, hv, hm⟩)
  rw [Queries.project, Queries.project, Queries.userAccount, Queries.userAccount,
    own_project db u _ ⟨v, hv, hm⟩, own_account db u _ hauthor, hv]
  simp only [Option.map_some, Option.bind_eq_bind, Option.bind_some]
  cases he : v.latestDeploymentRevisionEventID with
  | none => rfl
  | some e => simp only [Option.bind_some, own_event db u hc _ v hv hm e he]

theorem own_usage (o : UUID) (hm : Queries.isMember db u o = true) (t : Tick) :
    Queries.getUsage o t (own db u) = Queries.getUsage o t db := by
  have hscan : ((own db u).scan .mcpServerLog).filterMap (fun l => do
      let dr ← (own db u).row .deploymentRevision l.2.deploymentRevisionID
      let p ← (own db u).row .project dr.projectID
      guard (p.organizationID = o)
      return ({ l.2 with id := l.1 } : MCPServerLog)) = (db.scan .mcpServerLog).filterMap
        (fun l => do
          let dr ← db.row .deploymentRevision l.2.deploymentRevisionID
          let p ← db.row .project dr.projectID
          guard (p.organizationID = o)
          return ({ l.2 with id := l.1 } : MCPServerLog)) := by
    refine db.restrict_scan _ _ _ _ (fun l v hv hk => ?_) fun l v hv hk => ?_
    · obtain ⟨r, hr, hp⟩ := hc.logs l v hv
      cases hproject : db.row .project r.projectID with
      | none => simp [hr, hproject]
      | some p =>
        have ho : p.organizationID ≠ o := fun ho =>
          hk ((visible_log db u l v hv).mpr ⟨p, hp ▸ hproject, ho ▸ hm⟩)
        simp [hr, hproject, ho, guard, failure]
    · obtain ⟨r, hr, hp⟩ := hc.logs l v hv
      have hacc : Accessible db u r.projectID := hp ▸ (visible_log db u l v hv).mp hk
      simp only [own_revision db u _ r hr hacc, hr, Option.bind_eq_bind, Option.bind_some,
        own_project db u _ hacc]
  rw [Queries.getUsage, Queries.select, hscan]
  rfl

end Consistent

theorem own_logs (p : UUID) (h : Accessible db u p) (id : Option UUID) (session : Option String) :
    Logs.projectLogs env (own db u) p id session = Logs.projectLogs env db p id session := by
  rw [Logs.projectLogs, Logs.projectLogs]
  congr 1
  refine db.restrict_filter (Visible db u) .mcpServerLog _ _ (fun l v hv hk => ?_)
    fun l v _ _ => rfl
  refine decide_eq_false fun hl => hk ((visible_log db u l v hv).mpr ?_)
  exact hl.1 ▸ h

end Queries

/-! ## Requests -/

section Requests
variable (db : Db) (env : Env)

abbrev Reads {α : Type} (u : UUID) (Q : α → Prop) (p : Api α) : Prop := p.Agrees db (own db u) Q

section Rules
variable {α : Type} (u : UUID)

theorem reads_select (Q : Except DbError α → Prop) (name : Stmt) (rows : Db → Except DbError α)
    (hsame : ∀ t, Queries.select rows t (own db u) = Queries.select rows t db)
    (he : ∀ e, Q (.error e)) (hq : ∀ a, rows db = .ok a → Q (.ok a)) :
    Reads db u Q (query name .pool (Queries.select rows)) := by
  refine ⟨he, fun t => ⟨hsame t, fun a ws hf => ?_⟩⟩
  rw [Queries.select] at hf
  cases hr : rows db with
  | error e =>
    rw [hr] at hf
    cases hf
  | ok a' =>
    rw [hr] at hf
    cases hf
    exact ⟨rfl, hq _ hr⟩

theorem reads_respondJSON (Q : Unit → Prop) (body : Body) (sent : List Time) (h : Q ()) :
    Reads db u Q (respondJSON body sent) := by
  obtain hr | hr := respondJSON_cases body sent
  · rw [hr]
    exact h
  · rw [hr]
    exact h

theorem reads_respondOr (Q : Unit → Prop) (r : Except DbError α) (body : α → Body)
    (sent : α → List Time) (h : Q ()) : Reads db u Q (respondOr r body sent) := by
  cases r with
  | error e => exact h
  | ok a => exact reads_respondJSON db u Q (body a) (sent a) h

/-- A query whose result is the answer. -/
theorem reads_answer (Q : Unit → Prop) (name : Stmt) (rows : Db → Except DbError α)
    (body : α → Body) (sent : α → List Time)
    (hsame : ∀ t, Queries.select rows t (own db u) = Queries.select rows t db) (h : Q ()) :
    Reads db u Q
      ((query name .pool (Queries.select rows)).bind (fun r => respondOr r body sent)) :=
  agrees_bind _ _ _ _ _ (reads_select db u _ name rows hsame
    (fun e => reads_respondOr db u Q (.error e) body sent h)
    fun a _ => reads_respondOr db u Q (.ok a) body sent h)

theorem reads_respondAnalytics (rt : Analytics.Runtime)
    (periods : Except DbError (List MCPServerLog × List MCPServerLog)) :
    Reads db u (fun _ => True) (respondAnalytics env rt periods) := by
  cases periods with
  | error e => trivial
  | ok logs =>
    rw [respondAnalytics]
    cases Analytics.aggregateLogsToAnalyticsWithComparison rt env logs.1 logs.2 with
    | error e => trivial
    | ok analytics => exact reads_respondJSON db u _ _ _ trivial

end Rules

variable (user : UserAccount)

theorem reads_withProject (projectID : Param UUID) (f : UUID → Api Unit)
    (hf : ∀ p, Accessible db user.id p → Reads db user.id (fun _ => True) (f p)) :
    Reads db user.id (fun _ => True) (withProject user projectID f) := by
  refine agrees_bind _ _ _ _ _ ?_
  cases projectID with
  | absent => trivial
  | invalid => trivial
  | value p =>
    refine agrees_bind _ _ _ _ _ (reads_select db user.id _ _ _ (own_access db user.id p)
      (fun e => trivial) fun a ha => ?_)
    cases a with
    | false => trivial
    | true =>
      change Reads db user.id (fun _ => True) (if p = 0 then pure () else f p)
      split
      · trivial
      · refine hf p ?_
        cases hp : db.row .project p with
        | none => simp [hp] at ha
        | some v => exact ⟨v, hp, by simpa [hp] using ha⟩

def Answerable (o : UUID) : Prop :=
  Queries.isMember db user.id o = true ∨ db.row .organization o = none

theorem reads_withOrganization (organizationID : Param UUID) (f : Organization → Api Unit)
    (ho : ∀ o, organizationID = .value o → Answerable db user o)
    (hf : ∀ org, Queries.isMember db user.id org.id = true →
      Reads db user.id (fun _ => True) (f org)) :
    Reads db user.id (fun _ => True) (withOrganization user organizationID f) := by
  refine agrees_bind _ _ _ _ _ ?_
  cases organizationID with
  | absent => trivial
  | invalid => trivial
  | value o =>
    refine agrees_bind _ _ _ _ _ (reads_select db user.id _ _ _
      (own_partOfOrg db user.id o (ho o rfl)) (fun e => trivial) fun a ha => ?_)
    obtain ⟨member, org⟩ := a
    cases member with
    | false => trivial
    | true =>
      obtain ⟨hid, hm, -⟩ := Queries.partOfOrg_true db user.id o org ha
      exact hf org (hid ▸ hm)

theorem reads_logs (p : UUID) (hp : Accessible db user.id p) (pagination : Pagination)
    (sorting : Sorting) (id : Option UUID) (session : Option String) (t : Tick) :
    Logs.getLogsForProject env p pagination sorting id session t (own db user.id) =
      Logs.getLogsForProject env p pagination sorting id session t db := by
  rw [Logs.getLogsForProject, Queries.select, Queries.select, own_logs db user.id env p hp]

theorem reads_prompts (p : UUID) (hp : Accessible db user.id p) (pagination : Pagination)
    (sorting : Sorting) (session : Option String) (t : Tick) :
    Logs.getPromptsForProject env p pagination sorting session t (own db user.id) =
      Logs.getPromptsForProject env p pagination sorting session t db := by
  rw [Logs.getPromptsForProject, Queries.select, Queries.select, own_logs db user.id env p hp]

def Reading (route : Route) : Prop := ApiRuns.tablesOf route = []

/-- The logs of both periods, whatever is done with them. -/
theorem reads_periods (now : Time) (p : UUID) (hp : Accessible db user.id p) (startAt : Time)
    (K : Except DbError (List MCPServerLog × List MCPServerLog) → Api Unit)
    (hK : ∀ r, Reads db user.id (fun _ => True) (K r)) :
    Reads db user.id (fun _ => True) ((getAllLogsWithComparison env .pool now p startAt).bind K) :=
  agrees_bind _ _ _ _ _ (agrees_bind _ _ _ _ _ (reads_select db user.id _ _ _
    (reads_logs db env user p hp _ _ none none) (fun e => hK (.error e)) fun _ _ => hK _))

/-- A reading request reads nothing but rows of its user. -/
theorem handle_reads (rt : Analytics.Runtime) (hc : Consistent db) (route : Route)
    (hr : Reading route)
    (ho : ∀ o, Existence.organizationOf route = .value o → Answerable db user o) :
    Reads db user.id (fun _ => True) (handle rt env user route) := by
  cases route with
  | getOrganizations =>
    exact reads_answer db user.id _ _ _ _ _ (own_organizations db user.id env) trivial
  | getProjects => exact reads_answer db user.id _ _ _ _ _ (own_projects db user.id env) trivial
  | getOrganizationMembers o =>
    exact reads_withOrganization db user o _ ho fun org hm =>
      reads_answer db user.id _ _ _ _ _ (own_members db user.id org.id hm) trivial
  | getProjectsForDashboard o =>
    exact reads_withOrganization db user o _ ho fun org hm =>
      reads_answer db user.id _ _ _ _ _ (own_projectSummaries db user.id env hc org.id hm) trivial
  | getUsageForDashboard o =>
    exact reads_withOrganization db user o _ ho fun org hm =>
      reads_answer db user.id _ _ _ _ _ (own_usage db user.id hc org.id hm) trivial
  | getDeploymentRevisionsForDashboard o =>
    refine reads_withOrganization db user o _ ho fun org hm =>
      reads_answer db user.id _ _ _ _ _ (fun t => ?_) trivial
    rw [Queries.select, Queries.select, own_revisionSummaries db user.id hc]
    exact fun p v _ hP => of_decide_eq_true hP ▸ hm
  | getDeploymentRevisionsForProject projectID =>
    refine reads_withProject db user projectID _ fun p hp =>
      reads_answer db user.id _ _ _ _ _ (fun t => ?_) trivial
    rw [Queries.select, Queries.select, own_revisionSummaries db user.id hc]
    intro p' v hv hP
    obtain rfl : p' = p := of_decide_eq_true hP
    obtain ⟨v', hv', hm⟩ := hp
    cases hv.symm.trans hv'
    exact hm
  | getProjectSummary projectID =>
    exact reads_withProject db user projectID _ fun p hp =>
      reads_answer db user.id _ _ _ _ _ (own_projectSummary db user.id hc p hp) trivial
  | getProjectStatus projectID =>
    refine reads_withProject db user projectID _ fun p hp => agrees_bind _ _ _ _ _
      (reads_select db user.id _ _ _ (own_projectSummary db user.id hc p hp) (fun e => ?_)
        fun ps _ => ?_)
    · cases e <;> trivial
    · cases hprobe : env.probe (ps.getMCPURL env) with
      | error e =>
        simp only [hprobe]
        trivial
      | ok r =>
        simp only [hprobe]
        split <;> trivial
  | getLogsForProject projectID req =>
    refine reads_withProject db user projectID _ fun p hp => ?_
    cases parsePaginationOrDefault req.count req.page ⟨10, 0⟩ with
    | none => trivial
    | some pagination =>
      dsimp only
      cases req.id with
      | invalid => trivial
      | absent | value =>
        exact reads_answer db user.id _ _ _ _ _ (reads_logs db env user p hp _ _ _ _) trivial
  | getPromptsForProject projectID req =>
    refine reads_withProject db user projectID _ fun p hp => ?_
    cases parsePaginationOrDefault req.count req.page ⟨10, 0⟩ with
    | none => trivial
    | some pagination =>
      exact reads_answer db user.id _ _ _ _ _ (reads_prompts db env user p hp _ _ _) trivial
  | getAnalytics now projectID startedAt =>
    refine reads_withProject db user projectID _ fun p hp => ?_
    cases startedAt with
    | invalid => trivial
    | absent | value =>
      exact reads_periods db env user now p hp _ _ (reads_respondAnalytics db env user.id rt)
  | getContext =>
    refine agrees_bind _ _ _ _ _ (reads_select db user.id _ _ _ (own_organizations db user.id env)
      (fun e => trivial) fun orgs _ => ?_)
    exact agrees_bind _ _ _ _ _ (reads_select db user.id _ _ _ (own_projects db user.id env)
      (fun e => trivial) fun projects _ => trivial)
  | _ => cases hr

end Requests

/-! ## Tokens -/

section Tokens
variable (db : Db) (env : Env) (rt : Analytics.Runtime) (user : UserAccount)

/-- The account of the address is the user, also among the rows of the user. -/
theorem own_usersWithEmail (email : String) (h : Queries.usersWithEmail db email = [user]) :
    Queries.usersWithEmail (own db user.id) email = [user] := by
  refine (db.restrict_scan _ .userAccount _ _ (fun k v hv hk => ?_) fun _ _ _ _ => rfl).trans h
  refine if_neg fun he : v.email = email => hk (Or.inl ?_)
  have hmem : ({ v with id := k } : UserAccount) ∈ Queries.usersWithEmail db email :=
    List.mem_filterMap.mpr ⟨(k, v), (db.mem_scan _ _ _).mpr hv, if_pos he⟩
  rw [h, List.mem_singleton] at hmem
  exact congrArg UserAccount.id hmem

theorem serve_reads (hc : Consistent db) (email : String)
    (hknown : Existence.Known env email user db) (route : Route) (hr : Reading route)
    (ho : ∀ o, Existence.organizationOf route = .value o → Answerable db user o) :
    Reads db user.id (fun _ => True) (serve rt env (some email) route) := by
  have hlookup : ∀ db', Queries.usersWithEmail db' (env.toLower email) = [user] → ∀ t,
      Queries.getUserByEmailOrCreate env email t db' = .ok (user, []) := by
    intro db' h t
    rw [Queries.getUserByEmailOrCreate, if_pos hknown.1, h]
    rfl
  have hown := hlookup _ (own_usersWithEmail db user _ hknown.2)
  have hthere := hlookup db hknown.2
  refine agrees_bind _ _ _ _ _ (agrees_bind _ _ _ _ _ ⟨fun e => ?_, fun t => ⟨?_, ?_⟩⟩)
  · cases e <;> trivial
  · exact (hown t).trans (hthere t).symm
  · intro u ws hf
    cases (hthere t).symm.trans hf
    exact ⟨rfl, handle_reads db env user rt hc route hr ho⟩

end Tokens

section Runs
variable {σ : Type} [DecidableEq σ] (rt : Analytics.Runtime) (env : Env)
variable (calls : σ → Mediation.Call) (w₀ w : ApiWorld σ) (h₀ : Mediation.Start rt env calls w₀)
include h₀

/-- After any run, a reading request, whatever fails in it, is answered as if the rows of
others had been erased. -/
theorem reads_own_rows (h : Run backend postgres w₀ w) (email : String) (user : UserAccount)
    (hknown : Existence.Known env email user w.cfg.srv.db) (route : Route) (hr : Reading route)
    (ho : ∀ o, Existence.organizationOf route = .value o → Answerable w.cfg.srv.db user o)
    (me : σ) (fails : StepName Stmt → Bool) (s : Ses) :
    ((serve rt env (some email) route).run backend me fails
        { w.cfg.srv with db := own w.cfg.srv.db user.id } s).2.2 =
      ((serve rt env (some email) route).run backend me fails w.cfg.srv s).2.2 := by
  have hc := ApiRuns.api_consistent rt env w₀ w h₀.toInitial
    (Mediation.start_clients rt env calls w₀ h₀) h
  exact agrees_run _ _ backend me fails _ _ (serve_reads _ env rt user hc email hknown route hr ho)
    w.cfg.srv rfl s

end Runs

def demoStranger : UserAccount := ⟨⟨13, "bob@acme.com"⟩, 14⟩

/-- The stranger is told the same if the organization of the others is erased. -/
theorem reads_own_rows_demo : ∃ w, Mediation.demoRun = some w ∧ ∀ fails : StepName Stmt → Bool,
    ((serve Analytics.Runtime.stable Env.demo (some "bob@acme.com") .getContext).run backend
        Mediation.Demo.stranger fails
        { w.cfg.srv with db := own w.cfg.srv.db demoStranger.id } {}).2.2 =
      ((serve Analytics.Runtime.stable Env.demo (some "bob@acme.com") .getContext).run backend
        Mediation.Demo.stranger fails w.cfg.srv {}).2.2 := by
  have hfound : Mediation.demoRun.any (fun w => decide (Queries.usersWithEmail w.cfg.srv.db
      (Env.demo.toLower "bob@acme.com") = [demoStranger])) = true := by decide
  obtain ⟨w, hw, hknown⟩ := (Option.any_eq_true _ _).mp hfound
  refine ⟨w, hw, fun fails => reads_own_rows Analytics.Runtime.stable Env.demo Mediation.demoCall
    Mediation.demoStart w (Mediation.calling_start _) (played_run _ _ w hw) "bob@acme.com"
    demoStranger ⟨by decide, of_decide_eq_true hknown⟩ .getContext rfl (fun o ho => ?_)
    Mediation.Demo.stranger fails {}⟩
  cases ho

end Jetski.Secrecy
