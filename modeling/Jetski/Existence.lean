import Jetski.Isolation
import Jetski.Members
import Jetski.Webhook

/-!
# What a refusal reveals

The access check of projects asks whether a row exists, and no row is a
refusal. The access check of organizations reads the organization together with
the membership, and no row is an error. So a user learns from the status
whether an organization exists that is none of theirs.
-/

set_option autoImplicit false

namespace Jetski.Existence

open Relational Schema Jetski.Types Database Handlers Routes Validation Isolation Analytics

/-! ## Addressed identifiers -/

def organizationOf : Route → Param UUID
  | .putOrganization organizationID _ => organizationID
  | .getOrganizationMembers organizationID => organizationID
  | .putOrganizationMember organizationID _ => organizationID
  | .deleteOrganizationMember organizationID _ => organizationID
  | .postProject (some body) => .value body.organizationID
  | .getProjectsForDashboard organizationID => organizationID
  | .getDeploymentRevisionsForDashboard organizationID => organizationID
  | .getUsageForDashboard organizationID => organizationID
  | _ => .absent

def projectOf : Route → Param UUID
  | .getProjectSummary projectID => projectID
  | .deleteProject projectID => projectID
  | .getProjectStatus projectID => projectID
  | .getLogsForProject projectID _ => projectID
  | .getPromptsForProject projectID _ => projectID
  | .getDeploymentRevisionsForProject projectID => projectID
  | .getAnalytics _ projectID _ => projectID
  | .putProjectSettings projectID _ => projectID
  | _ => .absent

def Addresses (x : UUID) (route : Route) : Prop :=
  organizationOf route = .value x ∨ projectOf route = .value x

/-- The name of a new project is checked before its organization is looked up. -/
def LooksUp (x : UUID) (route : Route) : Prop :=
  organizationOf route = .value x ∧
    ∀ body, route = .postProject (some body) → validateName body.name = .ok ()

/-! ## Refusals -/

section Refusals
variable {σ : Type} (me : σ) (user : UserAccount)

def emitted (p : Api Unit) (srv : Srv σ) : List Output :=
  (p.run backend me (fun _ => false) srv {}).2.2.out

/-- No row of the project leads to a membership of the user. -/
def NoAccess (db : Db) (x : UUID) : Prop :=
  ∀ p, db.row .project x = some p → Queries.isMember db user.id p.organizationID = false

/-- A statement that only reads is a value for the rest of the request. -/
theorem emitted_read {β : Type} (name : Stmt) (f : Queries.Sql β)
    (k : Except DbError β → Api Unit) (srv : Srv σ) (r : Except DbError β)
    (h : f (Session.tick ({} : Ses) srv .pool) srv.db = r.map (fun b => (b, []))) :
    ∃ srv' : Srv σ, srv'.db = srv.db ∧
      emitted me (.act (.stmt name .pool f) k) srv = emitted me (k r) srv' := by
  cases r with
  | error e =>
    refine ⟨srv.tock, rfl, ?_⟩
    change f _ (Session.visible ({} : Ses) srv .pool) = .error e at h
    simp only [emitted, Prog.run, Action.exec, h, Bool.false_eq_true, if_false]
  | ok b =>
    refine ⟨(srv.apply ⟨me, srv.wal.length, []⟩).tock, rfl, ?_⟩
    change f _ (Session.visible ({} : Ses) srv .pool) = .ok (b, []) at h
    simp only [emitted, Prog.run, Action.exec, h, Bool.false_eq_true, if_false]

theorem withProject_refused (f : UUID → Api Unit) (srv : Srv σ) (x : UUID)
    (h : NoAccess user srv.db x) :
    emitted me (withProject user (.value x) f) srv = [.response 404 (.text "Not Found")] := by
  have hread : Queries.canUserAccessProject user.id x (Session.tick ({} : Ses) srv .pool) srv.db =
      .ok (false, []) := by
    rw [Queries.canUserAccessProject, Queries.select]
    cases hp : srv.db.row .project x with
    | none => rfl
    | some p => simp only [h p hp, Except.map]
  obtain ⟨srv', -, he⟩ := emitted_read me .canUserAccessProject _ _ srv (.ok false) hread
  exact he

theorem withProject_opened (f : UUID → Api Unit) (srv : Srv σ) (x : UUID) (hx : x ≠ 0)
    (h : Requests.Accessible srv.db user.id x) : ∃ srv' : Srv σ, srv'.db = srv.db ∧
      emitted me (withProject user (.value x) f) srv = emitted me (f x) srv' := by
  obtain ⟨p, hp, hmember⟩ := h
  have hread : Queries.canUserAccessProject user.id x (Session.tick ({} : Ses) srv .pool) srv.db =
      .ok (true, []) := by
    rw [Queries.canUserAccessProject, Queries.select]
    simp only [hp, hmember, Except.map]
  obtain ⟨srv', hdb, he⟩ := emitted_read me .canUserAccessProject _ _ srv (.ok true) hread
  refine ⟨srv', hdb, Eq.trans he ?_⟩
  change emitted me (if x = 0 then _ else f x) srv' = _
  rw [if_neg hx]

def lookup (db : Db) (x : UUID) : Except DbError (Bool × Organization) :=
  match Queries.organization db x with
  | none => .error .noRows
  | some org => .ok (false, org)

theorem isUserPartOfOrg_lookup (db : Db) (x : UUID) (t : Tick)
    (h : Queries.isMember db user.id x = false) :
    Queries.isUserPartOfOrg user.id x t db = (lookup db x).map (fun b => (b, [])) := by
  rw [Queries.isUserPartOfOrg, Queries.select, lookup]
  cases Queries.organization db x with
  | none => rfl
  | some org =>
    rw [Option.toList_some, List.map_singleton, h]
    rfl

theorem withOrganization_refused (f : Organization → Api Unit) (srv : Srv σ) (x : UUID)
    (h : Queries.isMember srv.db user.id x = false) :
    emitted me (withOrganization user (.value x) f) srv =
      if srv.db.row .organization x = none then [.response 500 (.text "Internal Server Error")]
      else [.response 404 (.text "Not Found")] := by
  obtain ⟨srv', -, he⟩ := emitted_read me .isUserPartOfOrg _ _ srv _
    (isUserPartOfOrg_lookup user srv.db x _ h)
  refine Eq.trans he ?_
  rw [lookup, Queries.organization]
  cases srv.db.row .organization x with
  | none => rfl
  | some v => rfl

variable (env : Env)

theorem postProject_refused (req : ProjectRequest) (srv : Srv σ)
    (hname : validateName req.name = .ok ())
    (h : Queries.isMember srv.db user.id req.organizationID = false) :
    emitted me (postProjectHandler env user (some req)) srv =
      if srv.db.row .organization req.organizationID = none
        then [.response 500 (.text "Internal Server Error")]
      else [.response 400 (.text "Bad Request")] := by
  simp only [postProjectHandler, hname]
  obtain ⟨srv', -, he⟩ := emitted_read me .isUserPartOfOrg _ _ srv _
    (isUserPartOfOrg_lookup user srv.db req.organizationID _ h)
  refine Eq.trans he ?_
  rw [lookup, Queries.organization]
  cases srv.db.row .organization req.organizationID with
  | none => rfl
  | some v => rfl

end Refusals

/-! ## Requests -/

section Requests
variable {σ : Type} (me : σ) (rt : Runtime) (env : Env)

section Refused
variable (user : UserAccount)

/-- A project that the user cannot access is refused like one that does not exist. -/
theorem handle_project (route : Route) (x : UUID) (hroute : projectOf route = .value x)
    (srv srv' : Srv σ) (h : NoAccess user srv.db x) (h' : NoAccess user srv'.db x) :
    emitted me (handle rt env user route) srv = emitted me (handle rt env user route) srv' := by
  have hsame : ∀ f, emitted me (withProject user (.value x) f) srv =
      emitted me (withProject user (.value x) f) srv' := by
    intro f
    rw [withProject_refused me user f srv x h, withProject_refused me user f srv' x h']
  cases route with
  | putProjectSettings projectID body =>
    cases hroute
    cases body with
    | none => rfl
    | some req =>
      cases hcheck : checkSettings env req with
      | error e =>
        simp only [handle, putProjectSettings, hcheck]
        rfl
      | ok _ =>
        simp only [handle, putProjectSettings, hcheck]
        exact hsame _
  | getProjectSummary => cases hroute; exact hsame _
  | deleteProject => cases hroute; exact hsame _
  | getProjectStatus => cases hroute; exact hsame _
  | getLogsForProject => cases hroute; exact hsame _
  | getPromptsForProject => cases hroute; exact hsame _
  | getDeploymentRevisionsForProject => cases hroute; exact hsame _
  | getAnalytics => cases hroute; exact hsame _
  | _ => cases hroute

/-- A request that names an organization and does not look it up reads nothing. -/
theorem handle_unread (route : Route) (x : UUID) (hroute : organizationOf route = .value x)
    (hread : ¬ LooksUp x route) (srv srv' : Srv σ) :
    emitted me (handle rt env user route) srv = emitted me (handle rt env user route) srv' := by
  have hbody : ∃ body, route = .postProject (some body) ∧ validateName body.name ≠ .ok () := by
    by_contra hall
    exact hread ⟨hroute, fun body he => by_contra fun hname => hall ⟨body, he, hname⟩⟩
  obtain ⟨body, he, hname⟩ := hbody
  subst he
  cases hvalid : validateName body.name with
  | error e =>
    simp only [handle, postProjectHandler, hvalid]
    rfl
  | ok _ => exact absurd hvalid hname

/-- An organization without the user is refused by another status than none at all. -/
theorem handle_organization (route : Route) (x : UUID) (hread : LooksUp x route) :
    ∃ status body, status ≠ 500 ∧ ∀ srv : Srv σ, Queries.isMember srv.db user.id x = false →
      emitted me (handle rt env user route) srv =
        if srv.db.row .organization x = none
          then [.response 500 (.text "Internal Server Error")]
        else [.response status body] := by
  have hrefused : ∀ f, ∃ status body, status ≠ 500 ∧ ∀ srv : Srv σ,
      Queries.isMember srv.db user.id x = false →
        emitted me (withOrganization user (.value x) f) srv =
          if srv.db.row .organization x = none
            then [.response 500 (.text "Internal Server Error")]
          else [.response status body] :=
    fun f => ⟨404, _, by decide, fun srv h => withOrganization_refused me user f srv x h⟩
  obtain ⟨hroute, hname⟩ := hread
  cases route with
  | postProject body =>
    cases body with
    | none => cases hroute
    | some req =>
      cases hroute
      exact ⟨400, _, by decide, fun srv h =>
        postProject_refused me user env req srv (hname req rfl) h⟩
  | putOrganization => cases hroute; exact hrefused _
  | getOrganizationMembers => cases hroute; exact hrefused _
  | putOrganizationMember => cases hroute; exact hrefused _
  | deleteOrganizationMember => cases hroute; exact hrefused _
  | getProjectsForDashboard => cases hroute; exact hrefused _
  | getDeploymentRevisionsForDashboard => cases hroute; exact hrefused _
  | getUsageForDashboard => cases hroute; exact hrefused _
  | _ => cases hroute

end Refused

/-! ## Two states -/

def Known (email : String) (user : UserAccount) (db : Db) : Prop :=
  Queries.storable (env.toLower email) = true ∧
    Queries.usersWithEmail db (env.toLower email) = [user]

/-- The states agree on everything that belongs to the organizations of the user. -/
def Alike (user : UserAccount) (db db' : Db) : Prop :=
  ∀ o, Queries.isMember db user.id o = true ∨ Queries.isMember db' user.id o = true →
    ∀ t k, Belongs db o t k ∨ Belongs db' o t k → db.row t k = db'.row t k

/-- The user is known in two states, and the identifier exists in the second one only,
in no organization of the user. -/
structure Twins (email : String) (user : UserAccount) (x : UUID) (db db' : Db) : Prop where
  known : Known env email user db
  known' : Known env email user db'
  absent : db.row .organization x = none ∧ db.row .project x = none
  present : db'.row .organization x ≠ none ∨ db'.row .project x ≠ none
  foreign : Queries.isMember db user.id x = false ∧ Queries.isMember db' user.id x = false
  outside : NoAccess user db' x

theorem serve_known (email : String) (user : UserAccount) (route : Route) (srv : Srv σ)
    (h : Known env email user srv.db) : ∃ srv' : Srv σ, srv'.db = srv.db ∧
      emitted me (serve rt env (some email) route) srv =
        emitted me (handle rt env user route) srv' := by
  have hread : Queries.getUserByEmailOrCreate env email (Session.tick ({} : Ses) srv .pool) srv.db =
      .ok (user, []) := by
    rw [Queries.getUserByEmailOrCreate, if_pos h.1, h.2]
    rfl
  obtain ⟨srv', hdb, he⟩ := emitted_read me .getUserByEmailOrCreate _ _ srv (.ok user) hread
  exact ⟨srv', hdb, he⟩

/-- Two states that differ in whether an identifier exists are told apart exactly
by the requests that look it up as an organization, if it is one. -/
theorem serve_reveals_iff (email : String) (user : UserAccount) (x : UUID) (route : Route)
    (hroute : Addresses x route) (srv srv' : Srv σ) (h : Twins env email user x srv.db srv'.db) :
    emitted me (serve rt env (some email) route) srv =
        emitted me (serve rt env (some email) route) srv' ↔
      ¬ (LooksUp x route ∧ srv'.db.row .organization x ≠ none) := by
  obtain ⟨w, hw, he⟩ := serve_known me rt env email user route srv h.known
  obtain ⟨w', hw', he'⟩ := serve_known me rt env email user route srv' h.known'
  rw [he, he']
  have hnone : NoAccess user w.db x := by
    intro p hp
    rw [hw, h.absent.2] at hp
    cases hp
  by_cases hread : LooksUp x route
  · obtain ⟨status, body, hstatus, hall⟩ := handle_organization me rt env user route x hread
    rw [hall w (hw ▸ h.foreign.1), hall w' (hw' ▸ h.foreign.2), hw, hw', if_pos h.absent.1]
    by_cases horg : srv'.db.row .organization x = none
    · simp [horg]
    · rw [if_neg horg]
      constructor
      · intro heq
        cases heq
        exact absurd rfl hstatus
      · intro hn
        exact absurd ⟨hread, horg⟩ hn
  · have hsame : emitted me (handle rt env user route) w =
        emitted me (handle rt env user route) w' := by
      rcases hroute with ho | hp
      · exact handle_unread me rt env user route x ho hread w w'
      · exact handle_project me rt env user route x hp w w' hnone (hw' ▸ h.outside)
    exact iff_of_true hsame fun hn => hread hn.1

end Requests

/-! ## The members of an unknown organization -/

def demoUser : UserAccount := ⟨⟨0, "ada@acme.com"⟩, 2⟩

def foreignRows : List Image := [
  ⟨.organization, 9, some ⟨0, "umbrella", ⟨none, ⟨true⟩⟩⟩⟩,
  ⟨.organizationUserAccount, (9, 3), some ⟨0⟩⟩]

def demoServer (foreign : Bool) : Srv Unit where
  db := if foreign then Members.demoDb.replay foreignRows else Members.demoDb
  next := 10
  ext _ := none

def demoRoute : Route := .getOrganizationMembers (.value 9)

theorem demo_organization (foreign : Bool) (o : UUID)
    (h : Queries.isMember (demoServer foreign).db 2 o = true) : o = 1 := by
  obtain ⟨v, hv⟩ := Option.isSome_iff_exists.mp h
  have hmem := Store.complete _ _ _ _ hv
  have hheap : ∀ k ∈ (demoServer foreign).db.heap .organizationUserAccount, k.2 = 2 → k.1 = 1 := by
    cases foreign <;> decide
  exact hheap (o, 2) hmem rfl

theorem demo_foreignRow (foreign : Bool) (t : Table) (k : Key t)
    (h : Belongs (demoServer foreign).db 1 t k) : ∀ w ∈ foreignRows, ¬ Store.Touches w t k := by
  intro w hw htouch
  rcases List.mem_cons.mp hw with rfl | hw
  · cases htouch
    exact absurd (show (9 : UUID) = 1 from h) (by decide)
  · cases List.mem_singleton.mp hw
    cases htouch
    exact absurd (show (9 : UUID) = 1 from h) (by decide)

theorem demo_alike : Alike demoUser (demoServer false).db (demoServer true).db := by
  intro o hm t k hk
  have ho : o = 1 := hm.elim (demo_organization false o) (demo_organization true o)
  subst ho
  exact (Store.replay_untouched _ _ t k
    (hk.elim (demo_foreignRow false t k) (demo_foreignRow true t k))).symm

theorem demo_twins : Twins Env.demo "ada@acme.com" demoUser 9 (demoServer false).db
    (demoServer true).db where
  known := ⟨by decide, by decide⟩
  known' := ⟨by decide, by decide⟩
  absent := by decide
  present := by decide
  foreign := by decide
  outside p hp := by
    have hnone : (demoServer true).db.row .project 9 = none := by decide
    cases hp.symm.trans hnone

theorem serve_reveals_demo :
    emitted () (serve Runtime.stable Env.demo (some "ada@acme.com") demoRoute) (demoServer false) =
        emitted () (serve Runtime.stable Env.demo (some "ada@acme.com") demoRoute)
          (demoServer true) ↔
      ¬ (LooksUp 9 demoRoute ∧ (demoServer true).db.row .organization 9 ≠ none) :=
  serve_reveals_iff () Runtime.stable Env.demo "ada@acme.com" demoUser 9 demoRoute (Or.inl rfl)
    (demoServer false) (demoServer true) demo_twins

/-- Asked for the members, the server errs without the organization and finds
nothing with it. -/
theorem foreign_organization_revealed :
    Alike demoUser (demoServer false).db (demoServer true).db ∧
    Twins Env.demo "ada@acme.com" demoUser 9 (demoServer false).db (demoServer true).db ∧
    Addresses 9 demoRoute ∧
    Webhook.answered (emitted () (serve Runtime.stable Env.demo (some "ada@acme.com") demoRoute)
      (demoServer false)) = 500 ∧
    Webhook.answered (emitted () (serve Runtime.stable Env.demo (some "ada@acme.com") demoRoute)
      (demoServer true)) = 404 ∧
    emitted () (serve Runtime.stable Env.demo (some "ada@acme.com") demoRoute) (demoServer false) ≠
      emitted () (serve Runtime.stable Env.demo (some "ada@acme.com") demoRoute)
        (demoServer true) := by
  have habsent : Webhook.answered (emitted () (serve Runtime.stable Env.demo
      (some "ada@acme.com") demoRoute) (demoServer false)) = 500 := by decide
  have hforeign : Webhook.answered (emitted () (serve Runtime.stable Env.demo
      (some "ada@acme.com") demoRoute) (demoServer true)) = 404 := by decide
  refine ⟨demo_alike, demo_twins, Or.inl rfl, habsent, hforeign, fun heq => ?_⟩
  have hstatus := habsent.symm.trans ((congrArg Webhook.answered heq).trans hforeign)
  exact absurd hstatus (by decide)

end Jetski.Existence
