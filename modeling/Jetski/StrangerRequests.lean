import Jetski.Disclosure

/-!
# Requests of strangers

No request of a user who is not a member of an organization changes, adds or
shows a row of it, or touches its gateway. Each route is followed once, from
its access check through the statements that it sends.
-/

set_option autoImplicit false

namespace Jetski.StrangerRequests

open Relational Schema Jetski.Types Isolation Disclosure Reachability Requests
open Database (Body Output Api Srv Ses backend query runTx applyGateway Stmt)

variable {base db : Db} {o : UUID} {ov : OrganizationRow} {userID : UUID}

/-! ## What a stranger may do -/

/-- Outputs that show no row of the organization. -/
def Discreet (base : Db) (o : UUID) : Output → Prop
  | .response _ body => Hidden base o (Body.refs body)
  | .mail _ org => org.id ≠ o

abbrev Meets (base : Db) (o : UUID) (ov : OrganizationRow) {α : Type} (Q : Post Key Row α)
    (p : Api α) (op : Bool) (I : Db → Prop) : Prop :=
  p.Meets (fun c => c.name ≠ ov.name) (Discreet base o) Q op I

def Ends (base : Db) (o : UUID) (ov : OrganizationRow) {α : Type} : Post Key Row α :=
  fun _ op I => op = false ∧ ∀ db, I db → Apart base o ov db

section Routes
variable (hst : Stranger base o ov userID)

theorem text_discreet (status : ℕ) (text : String) :
    Discreet base o (.response status (.text text)) := by
  simp [Discreet, Body.refs, Hidden]

theorem organization_discreet (org : Organization) (ho : org.id ≠ o) (status : ℕ) :
    Discreet base o (.response status (.organization org)) := by
  intro r hr
  cases List.mem_singleton.mp hr
  exact ho

theorem ends_apart {α : Type} (a : α) : Ends base o ov a false (Apart base o ov) :=
  ⟨rfl, fun _ h => h⟩

theorem applyGateway_meets {I : Db → Prop} (env : Env) (h : Handle) (op : Bool)
    (hop : h = .pool → op = false) (org : Organization) (hn : org.name ≠ ov.name)
    (Q : Post Key Row (Except DbError Unit)) (hq : ∀ r, Q r op I) :
    Meets base o ov Q (applyGateway env h org) op I :=
  meets_applyGateway _ _ op I Q env h org hop hn (fun _ => hn) hq

include hst

theorem ends_same {α : Type} (a : α) : Ends base o ov a false (Same base) :=
  ⟨rfl, fun _ h => same_apart hst h⟩

theorem respondJSON_meets (body : Body) (sent : List Time)
    (h : Hidden base o (Body.refs body)) :
    Meets base o ov (Ends base o ov) (Handlers.respondJSON body sent) false (Same base) := by
  rcases Handlers.respondJSON_cases body sent with he | he <;> rw [he]
  · exact ⟨h, ends_same hst ()⟩
  · exact ⟨fun _ hr => absurd hr List.not_mem_nil, ends_same hst ()⟩

theorem answer_meets {β : Type} (name : Stmt) (rows : Db → Except DbError β) (body : β → Body)
    (sent : β → List Time)
    (h : ∀ db b, Same base db → rows db = .ok b → Hidden base o (Body.refs (body b))) :
    Meets base o ov (Ends base o ov) (show Api Unit from do
      Handlers.respondOr (← query name .pool (Queries.select rows)) body sent) false
        (Same base) :=
  meets_bind _ _ _ _ _ false _ (meets_select _ _ false _ _ _ _ _ (fun _ => rfl)
    (fun _ => ⟨text_discreet _ _, ends_same hst ()⟩) fun db b hs hr =>
      respondJSON_meets hst _ _ (h db b hs hr))

theorem postOrganization_meets (user : UserAccount) (name : Option String) :
    Meets base o ov (Ends base o ov) (Handlers.postOrganizationHandler user name) false
      (Same base) := by
  cases name with
  | none => exact ⟨text_discreet _ _, ends_same hst ()⟩
  | some name =>
    simp only [Handlers.postOrganizationHandler, Prog.bind_eq]
    generalize Validation.validateName _ = valid
    refine meets_bind _ _ _ _ _ false _ (meets_validate _ _ false _ _ _ text_discreet
      (ends_same hst ()) fun _ => ?_)
    refine meets_bind _ _ _ _ _ false _ (meets_mapError _ _ false _ _ _ _ _ _ (Apart base o ov)
      (fun _ => rfl) (fun e => ?_) (fun _ hs => same_apart hst hs) fun t db org ws hs hf => ?_)
    · cases e <;> exact ⟨text_discreet _ _, ends_same hst ()⟩
    · obtain ⟨ha, ho, -⟩ := apart_createOrganization hst (same_apart hst hs) _ t org ws hf
      refine ⟨ha, meets_bind _ _ _ _ _ false _ ⟨fun _ => rfl, fun e => ⟨text_discreet _ _,
        ends_apart ()⟩, Apart base o ov, fun _ h => h, fun t db b ws ha hf => ?_⟩⟩
      refine ⟨apart_addUser ha user.id org.id ho t b ws hf, ?_, ends_apart ()⟩
      intro r hr
      cases List.mem_singleton.mp hr
      exact ho

variable (user : UserAccount) (hu : user.id = userID)
include hu

theorem withProject_meets (projectID : Param UUID) (f : UUID → Api Unit)
    (hf : ∀ id, ¬ Belongs base o .project id →
      Meets base o ov (Ends base o ov) (f id) false (Same base)) :
    Meets base o ov (Ends base o ov) (Handlers.withProject user projectID f) false (Same base) := by
  refine meets_withProject _ _ _ user _ projectID f text_discreet (ends_same hst ()) ?_
  rintro id - - ⟨db, hs, ha⟩
  exact hf id (accessible_hidden hst hs id (hu ▸ ha))

theorem withOrganization_meets (organizationID : Param UUID) (f : Organization → Api Unit)
    (hf : ∀ org : Organization, org.id ≠ o → org.name ≠ ov.name →
      Meets base o ov (Ends base o ov) (f org) false (Same base)) :
    Meets base o ov (Ends base o ov) (Handlers.withOrganization user organizationID f) false
      (Same base) := by
  refine meets_withOrganization _ _ _ user _ organizationID f text_discreet (ends_same hst ()) ?_
  rintro org - ⟨db, hs, hrow, hm⟩
  have ho := member_foreign hst hs org.id (hu ▸ hm)
  obtain ⟨v, hv, he⟩ := Option.map_eq_some_iff.mp hrow
  have hn : v.name = org.name := congrArg (fun org => org.name) he
  exact hf org ho (hn ▸ (same_apart hst hs .organization org.id).2 ho v hv)

/-! ## Organizations -/

theorem putOrganization_meets (env : Env) (organizationID : Param UUID)
    (body : Option Handlers.OrganizationSettingsRequest) :
    Meets base o ov (Ends base o ov)
      (Handlers.putOrganizationHandler env user organizationID body) false (Same base) := by
  refine withOrganization_meets hst user hu organizationID _ fun org ho hn => ?_
  cases body with
  | none => exact ⟨text_discreet _ _, ends_same hst ()⟩
  | some request =>
    dsimp only
    split
    · exact ⟨text_discreet _ _, ends_same hst ()⟩
    · next org' hreq =>
      obtain ⟨hid, hname⟩ := requestedSettings_org org org' request hreq
      rw [← hid] at ho
      rw [← hname] at hn
      simp only [Prog.bind_eq]
      refine meets_bind _ _ _ _ _ false _ ?_
      split
      · refine meets_mapError _ _ false _ _ _ _ _ _ (Apart base o ov) (fun _ => rfl)
          (fun e => ⟨text_discreet _ _, ends_same hst ()⟩) (fun _ hs => same_apart hst hs)
          fun t db res ws hs hf => ?_
        obtain ⟨ha, ho', hn'⟩ := apart_updateOrganization (same_apart hst hs) org' ho t res ws hf
        exact ⟨ha, meets_bind _ _ _ _ _ false _ (applyGateway_meets env .pool false (fun _ => rfl)
          res hn' _ fun _ => ⟨organization_discreet res ho' _, ends_apart ()⟩)⟩
      · exact meets_bind _ _ _ _ _ false _ (applyGateway_meets env .pool false (fun _ => rfl)
          org' hn _ fun _ => ⟨organization_discreet org' ho _, ends_same hst ()⟩)

theorem putOrganizationMember_meets (env : Env) (organizationID : Param UUID)
    (email : Option String) : Meets base o ov (Ends base o ov)
      (Handlers.putOrganizationMember env user organizationID email) false (Same base) := by
  refine withOrganization_meets hst user hu organizationID _ fun org ho hn => ?_
  cases email with
  | none => exact ⟨text_discreet _ _, ends_same hst ()⟩
  | some email =>
    have hfail : ∀ I, (∀ db, I db → Apart base o ov db) →
        Meets base o ov (Ends base o ov) Handlers.internalServerError false I :=
      fun I hI => ⟨text_discreet _ _, rfl, hI⟩
    have hdone : ∀ I, (∀ db, I db → Apart base o ov db) → ∀ u : UserAccount, Meets base o ov
        (Ends base o ov) (show Api Unit from do
          (Action.emit (.mail u org)).lift
          Handlers.respondJSON (.user u)) false I := by
      refine fun I hI u => ⟨ho, fun r hr => ?_, rfl, hI⟩
      cases List.mem_singleton.mp hr
      exact id
    refine meets_bind _ _ _ _ _ false _ (meets_runTx _ _ _ _ _
      (hfail _ (fun _ => same_apart hst)) ?_)
    refine meets_bind _ _ _ _ _ true _ (meets_mapError _ _ true _ _ _ _ _ _ (Same base) nofun
      (fun e => ⟨hfail _ (fun _ => same_apart hst), nofun⟩) (fun _ h => h)
      fun t db u ws hs hf => ⟨same_getUser hs env _ t u ws hf, ?_⟩)
    refine meets_bind _ _ _ _ _ true _ ⟨nofun, fun e => ?_, Apart base o ov,
      fun _ hs => same_apart hst hs, fun t db b ws hs hf => ?_⟩
    · cases e
      case alreadyExists =>
        exact ⟨hdone _ (fun _ => same_apart hst) u, fun _ => hfail _ (fun _ => same_apart hst)⟩
      all_goals exact ⟨hfail _ (fun _ => same_apart hst), nofun⟩
    · exact ⟨apart_addUser (same_apart hst hs) u.id org.id ho t b ws hf,
        hdone _ (fun _ h => h) u, fun _ => hfail _ (fun _ h => h)⟩

omit hu in
theorem removeMember_meets (id orgID : UUID) (ho : orgID ≠ o) :
    Meets base o ov (Ends base o ov) (show Api Unit from
      if id = 0 then return
      else if user.id = id then
        Handlers.handle4XXErrorWithStatusText 400
          "You cannot remove yourself from the organization."
      else do
        match ← Database.removeUserFromOrganization .pool id orgID with
        | .error _ => Handlers.internalServerError
        | .ok () => Handlers.respond 202 .empty) false (Same base) := by
  dsimp only
  split
  · exact ends_same hst ()
  · split
    · exact ⟨text_discreet _ _, ends_same hst ()⟩
    · refine meets_bind _ _ _ _ _ false _ ⟨fun _ => rfl, fun e => ⟨text_discreet _ _,
        ends_same hst ()⟩, Apart base o ov, fun _ hs => same_apart hst hs,
        fun t db b ws hs hf => ?_⟩
      refine ⟨apart_removeUser (same_apart hst hs) id orgID ho t b ws hf, ?_, ends_apart ()⟩
      intro x hx
      cases hx

theorem deleteOrganizationMember_meets (organizationID toBeRemovedID : Param UUID) :
    Meets base o ov (Ends base o ov)
      (Handlers.deleteOrganizationMember user organizationID toBeRemovedID) false (Same base) := by
  refine withOrganization_meets hst user hu organizationID _ fun org ho hn => ?_
  refine meets_bind _ _ _ _ _ false _ ?_
  cases toBeRemovedID with
  | absent => exact removeMember_meets hst user 0 org.id ho
  | invalid => exact ⟨text_discreet _ _, removeMember_meets hst user 0 org.id ho⟩
  | value id => exact removeMember_meets hst user id org.id ho

/-! ## Projects -/

omit hu user in
theorem insertRevision_meets {op : Bool} {I : Db → Prop} (hI : ∀ db, I db → Apart base o ov db)
    (d : ℕ) (dr : Queries.NewRevision) (hp : ¬ Belongs base o .project dr.projectID)
    (Q : Post Key Row (Except DbError DeploymentRevision)) (he : ∀ e, Q (.error e) op I)
    (he' : ∀ e, Q (.error e) op (Apart base o ov))
    (hq : ∀ res : DeploymentRevision, ¬ Belongs base o .deploymentRevision res.id →
      Q (.ok res) op (Apart base o ov)) :
    Meets base o ov Q (Database.createDeploymentRevision (.tx (d+1)) dr) op I := by
  refine meets_createDeploymentRevision _ _ op I Q d dr (Apart base o ov) hI
    (fun res => ¬ Belongs base o .deploymentRevision res.id ∧ res.projectID = dr.projectID)
    (fun t db res ws hd hf => apart_insertRevision hst (hI db hd) dr hp t res ws hf)
    (fun res hres t db ws hd hf => ?_) he he' (fun res hres => hq res hres.1)
  exact apart_updateRevision hd res.id res.projectID (hres.2 ▸ hp) t ws hf

theorem postProject_meets (env : Env) (body : Option Handlers.ProjectRequest) :
    Meets base o ov (Ends base o ov) (Handlers.postProjectHandler env user body) false
      (Same base) := by
  cases body with
  | none => exact ⟨text_discreet _ _, ends_same hst ()⟩
  | some req =>
    simp only [Handlers.postProjectHandler, Prog.bind_eq]
    generalize Validation.validateName _ = valid
    refine meets_bind _ _ _ _ _ false _ (meets_validate _ _ false _ _ _ text_discreet
      (ends_same hst ()) fun _ => ?_)
    refine meets_bind _ _ _ _ _ false _ (meets_select _ _ false _ _ _ _ _ (fun _ => rfl)
      (fun e => ⟨text_discreet _ _, ends_same hst ()⟩) fun db r hs hr => ?_)
    obtain ⟨member, org⟩ := r
    cases member with
    | false => exact ⟨text_discreet _ _, ends_same hst ()⟩
    | true =>
      obtain ⟨hid, hm, hrow⟩ := Queries.partOfOrg_true db user.id req.organizationID org hr
      have ho := member_foreign hst hs req.organizationID (hu ▸ hm)
      have hn : org.name ≠ ov.name := by
        obtain ⟨v, hv, he⟩ := Option.map_eq_some_iff.mp hrow
        have hvn : v.name = org.name := congrArg (fun org => org.name) he
        exact hvn ▸ (same_apart hst hs .organization req.organizationID).2 ho v hv
      have hfail : ∀ I, (∀ db, I db → Apart base o ov db) →
          Meets base o ov (Ends base o ov) Handlers.internalServerError false I :=
        fun I hI => ⟨text_discreet _ _, rfl, hI⟩
      have hdone : ∀ p : Project, ¬ Belongs base o .project p.id → Meets base o ov
          (Ends base o ov) (show Api Unit from do
            if req.proxyURL.isSome then
              let _ ← applyGateway env .pool org
            Handlers.respondJSON (.project p)) false (Apart base o ov) := by
        intro p hp
        have hresp : Meets base o ov (Ends base o ov) (Handlers.respondJSON (.project p)) false
            (Apart base o ov) := by
          refine ⟨fun r hr => ?_, ends_apart ()⟩
          cases List.mem_singleton.mp hr
          exact hp
        dsimp only
        split
        · exact meets_bind _ _ _ _ _ false _ (applyGateway_meets env .pool false (fun _ => rfl)
            org hn _ fun _ => hresp)
        · exact hresp
      refine meets_bind _ _ _ _ _ false _ (meets_runTx _ _ _ _ _
        (hfail _ (fun _ => same_apart hst)) ?_)
      refine meets_bind _ _ _ _ _ true _ ⟨nofun, fun e => ⟨hfail _ (fun _ => same_apart hst),
        nofun⟩, Apart base o ov, fun _ hs => same_apart hst hs, fun t db p ws hs hf => ?_⟩
      obtain ⟨ha, hp⟩ := apart_createProject hst (same_apart hst hs) _ user.id ho _ t p ws hf
      refine ⟨ha, ?_⟩
      cases hreq : req.proxyURL with
      | none =>
        rw [hreq] at hdone
        exact ⟨hdone p hp, fun _ => hfail _ (fun _ h => h)⟩
      | some proxyURL =>
        rw [hreq] at hdone
        exact meets_bind _ _ _ _ _ true _ (insertRevision_meets hst (fun _ h => h) 0 _
          (by exact hp) _ (fun e => ⟨hfail _ (fun _ h => h), nofun⟩)
          (fun e => ⟨hfail _ (fun _ h => h), nofun⟩)
          fun res _ => ⟨hdone p hp, fun _ => hfail _ (fun _ h => h)⟩)

omit hu user in
theorem getProjectSummary_meets (id : UUID) (hp : ¬ Belongs base o .project id)
    (f : ProjectSummary → Api Unit) (hf : ∀ ps : ProjectSummary,
      Hidden base o (ProjectSummary.refs ps) → ps.organization.name ≠ ov.name →
      Meets base o ov (Ends base o ov) (f ps) false (Same base)) :
    Meets base o ov (Ends base o ov) (show Api Unit from do
      match ← Database.getProjectSummary .pool id with
      | .error .notFound => Handlers.handle4XXErrorWithStatusText 404 "project not found"
      | .error _ => Handlers.internalServerError
      | .ok ps => f ps) false (Same base) := by
  refine meets_bind _ _ _ _ _ false _ (meets_select _ _ false _ _ _ _ _ (fun _ => rfl)
    (fun e => ?_) fun db ps hs hr => ?_)
  · cases e <;> exact ⟨text_discreet _ _, ends_same hst ()⟩
  · obtain ⟨hrefs, hn⟩ := projectSummary_ok hst hs id hp ps hr
    exact hf ps hrefs hn

theorem deleteProject_meets (env : Env) (projectID : Param UUID) :
    Meets base o ov (Ends base o ov) (Handlers.deleteProjectHandler env user projectID) false
      (Same base) := by
  refine withProject_meets hst user hu projectID _ fun id hp =>
    getProjectSummary_meets hst id hp _ fun ps _ hn => ?_
  refine meets_bind _ _ _ _ _ false _ (meets_bind _ _ _ _ _ false _ ⟨fun _ => rfl,
    fun e => ⟨text_discreet _ _, ends_same hst ()⟩, Apart base o ov,
    fun _ hs => same_apart hst hs, fun t db n ws hs hf =>
      ⟨apart_deleteProject hst hs id hp t n ws hf, ?_⟩⟩)
  change Meets base o ov _ (if n = 0 then pure (Except.error DbError.notFound)
    else pure (Except.ok ())) false _
  split
  · exact ⟨text_discreet _ _, ends_apart ()⟩
  · exact meets_bind _ _ _ _ _ false _ (applyGateway_meets env .pool false (fun _ => rfl)
      ps.organization hn _ fun _ => ⟨nofun, ends_apart ()⟩)

theorem getProjectStatus_meets (env : Env) (projectID : Param UUID) :
    Meets base o ov (Ends base o ov) (Handlers.getProjectStatusHandler env user projectID) false
      (Same base) := by
  refine withProject_meets hst user hu projectID _ fun id hp =>
    getProjectSummary_meets hst id hp _ fun ps hrefs _ => ?_
  split
  · exact ⟨hrefs, ends_same hst ()⟩
  · split <;> exact ⟨hrefs, ends_same hst ()⟩

omit hu in
theorem saveSettings_meets (env : Env) (req : Handlers.SettingsRequest) (id : UUID)
    (hp : ¬ Belongs base o .project id) (Q : Post Key Row (Except DbError Unit))
    (he : ∀ e, Q (.error e) true (Same base)) (he' : ∀ e, Q (.error e) true (Apart base o ov))
    (hq : Q (.ok ()) true (Same base)) (hq' : Q (.ok ()) true (Apart base o ov)) :
    Meets base o ov Q (Handlers.saveSettings env user req id (.tx 1)) true (Same base) := by
  refine meets_bind _ _ _ _ _ true _ (meets_select _ _ true _ _ _ _ _ nofun
    (fun e => he _) fun db ps hs hr => ?_)
  obtain ⟨hrefs, hn⟩ := projectSummary_ok hst hs id hp ps hr
  dsimp only
  split
  · exact ⟨text_discreet _ _, hq⟩
  · refine meets_bind _ _ _ _ _ true _ (insertRevision_meets hst (fun _ => same_apart hst) 0 _
      (by exact hp) _ (fun e => he _) (fun e => he' _) fun res hres => ?_)
    -- the revision in the response is the new one, all other rows are those of the summary
    have hresp : Hidden base o (Body.refs (.summary { ps with
        latestDeploymentRevisionID := some res.id
        latestDeploymentRevision := some res })) := by
      intro r hr
      simp only [Body.refs, ProjectSummary.refs, Option.toList_some, List.map_cons, List.map_nil,
        List.mem_append, List.mem_singleton] at hr
      rcases hr with (hr | rfl) | hr
      · exact hrefs r (List.mem_append_left _ (List.mem_append_left _ hr))
      · exact hres
      · exact hrefs r (List.mem_append_right _ hr)
    have hrest : Meets base o ov Q (show Api (Except DbError Unit) from do
        let _ ← applyGateway env (.tx 1) ps.organization
        Handlers.respondJSON (.summary { ps with
          latestDeploymentRevisionID := some res.id
          latestDeploymentRevision := some res })
        return .ok ()) true (Apart base o ov) :=
      meets_bind _ _ _ _ _ true _ (applyGateway_meets env (.tx 1) true nofun ps.organization hn _
        fun _ => ⟨hresp, hq'⟩)
    simp only [Prog.bind_eq]
    refine meets_bind _ _ _ _ _ true _ ?_
    split
    · refine meets_addDeploymentRevisionEvent _ _ true _ _ 0 res.id .progressing none
        (fun _ => True) (fun t db e ws hd hf => ⟨apart_insertEvent hst hd res.id hres _ _ t e ws hf,
          trivial⟩) (fun e _ t db ws hd hf => apart_updateEvent hd e res.id hres t ws hf) ?_
      rintro (e | ⟨⟩)
      · exact he' e
      · exact hrest
    · exact hrest

theorem putProjectSettings_meets (env : Env) (projectID : Param UUID)
    (body : Option Handlers.SettingsRequest) : Meets base o ov (Ends base o ov)
      (Handlers.putProjectSettings env user projectID body) false (Same base) := by
  cases body with
  | none => exact ⟨text_discreet _ _, ends_same hst ()⟩
  | some req =>
    simp only [Handlers.putProjectSettings, Prog.bind_eq]
    generalize Handlers.checkSettings env req = valid
    refine meets_bind _ _ _ _ _ false _ (meets_validate _ _ false _ _ _ text_discreet
      (ends_same hst ()) fun _ => ?_)
    refine withProject_meets hst user hu projectID _ fun id hp => ?_
    have hfail : ∀ I, (∀ db, I db → Apart base o ov db) →
        Meets base o ov (Ends base o ov) Handlers.internalServerError false I :=
      fun I hI => ⟨text_discreet _ _, rfl, hI⟩
    refine meets_bind _ _ _ _ _ false _ (meets_runTx _ _ _ _ _
      (hfail _ (fun _ => same_apart hst)) ?_)
    exact saveSettings_meets hst user env req id hp _
      (fun e => ⟨hfail _ (fun _ => same_apart hst), nofun⟩)
      (fun e => ⟨hfail _ (fun _ h => h), nofun⟩)
      ⟨ends_same hst (), fun _ => hfail _ (fun _ => same_apart hst)⟩
      ⟨ends_apart (), fun _ => hfail _ (fun _ h => h)⟩

/-! ## Logs -/

theorem getLogsForProject_meets (env : Env) (projectID : Param UUID) (req : Handlers.ListRequest) :
    Meets base o ov (Ends base o ov) (Handlers.getLogsForProject env user projectID req) false
      (Same base) := by
  refine withProject_meets hst user hu projectID _ fun id hp => ?_
  split
  · exact ⟨text_discreet _ _, ends_same hst ()⟩
  · have hlist : ∀ pagination sorting i, Meets base o ov (Ends base o ov) (show Api Unit from do
        Handlers.respondOr (← Database.getLogsForProject env .pool id pagination sorting i
          (Handlers.sessionFilter req.mcpSessionID)) .logs
            (fun ls => ls.map (fun l => l.startedAt))) false (Same base) :=
      fun pagination sorting i => answer_meets hst _ _ _ _ fun db ls hs hr =>
        logs_hidden hs env id hp pagination sorting i _ ⟨0, 0, 0⟩ ls []
          (by rw [Logs.getLogsForProject, Queries.select, hr]; rfl)
    split
    · exact ⟨text_discreet _ _, ends_same hst ()⟩
    · exact hlist _ _ _
    · exact hlist _ _ _

theorem getPromptsForProject_meets (env : Env) (projectID : Param UUID)
    (req : Handlers.ListRequest) : Meets base o ov (Ends base o ov)
      (Handlers.getPromptsForProject env user projectID req) false (Same base) := by
  refine withProject_meets hst user hu projectID _ fun id hp => ?_
  split
  · exact ⟨text_discreet _ _, ends_same hst ()⟩
  · exact answer_meets hst _ _ _ _ fun db ps hs hr =>
      prompts_hidden hs env id hp _ _ _ ⟨0, 0, 0⟩ ps []
        (by rw [Logs.getPromptsForProject, Queries.select, hr]; rfl)

omit hu user in
theorem aggregated_meets (rt : Analytics.Runtime) (env : Env) (current previous : List MCPServerLog)
    (h : Hidden base o (logRefs current++logRefs previous)) :
    Meets base o ov (Ends base o ov) (Handlers.respondAnalytics env rt (.ok (current, previous)))
      false (Same base) := by
  simp only [Handlers.respondAnalytics]
  cases Analytics.aggregateLogsToAnalyticsWithComparison rt env current previous with
  | error e => exact ⟨fun _ hr => absurd hr List.not_mem_nil, ends_same hst ()⟩
  | ok analytics => exact respondJSON_meets hst _ _ h

omit hu user in
theorem analyze_meets (rt : Analytics.Runtime) (env : Env) (now startAt : Time) (id : UUID)
    (hp : ¬ Belongs base o .project id) : Meets base o ov (Ends base o ov) (show Api Unit from do
      Handlers.respondAnalytics env rt (← Handlers.getAllLogsWithComparison env .pool now id
        startAt)) false (Same base) := by
  refine meets_bind _ _ _ _ _ false _ (meets_bind _ _ _ _ _ false _ (meets_select _ _ false _
    _ _ _ _ (fun _ => rfl) (fun e => ⟨text_discreet _ _, ends_same hst ()⟩)
    fun db ls hs hr => ?_))
  have hls := logs_hidden hs env id hp ⟨1000000, 0⟩ ⟨"started_at", .asc⟩ none none ⟨0, 0, 0⟩ ls []
    (by rw [Logs.getLogsForProject, Queries.select, hr]; rfl)
  have hsub : ∀ f : MCPServerLog → Bool, Hidden base o (logRefs (ls.filter f)) :=
    fun f => hidden_map _ _ fun l hl => hls _ (List.mem_map_of_mem (List.mem_of_mem_filter hl))
  exact aggregated_meets hst rt env _ _ (hidden_append _ _ (hsub _) (hsub _))

theorem getAnalytics_meets (rt : Analytics.Runtime) (env : Env) (now : Time)
    (projectID : Param UUID) (startedAt : Param Int64) : Meets base o ov (Ends base o ov)
      (Handlers.getAnalytics env user rt now projectID startedAt) false (Same base) := by
  refine withProject_meets hst user hu projectID _ fun id hp => ?_
  cases startedAt with
  | absent => exact analyze_meets hst rt env now _ id hp
  | invalid => exact ⟨text_discreet _ _, ends_same hst ()⟩
  | value seconds => exact analyze_meets hst rt env now _ id hp

/-! ## All routes -/

theorem handle_meets (rt : Analytics.Runtime) (env : Env) (route : Routes.Route) :
    Meets base o ov (Ends base o ov) (Routes.handle rt env user route) false (Same base) := by
  have hread := fun {β : Type} (name : Stmt) (rows : Db → Except DbError β) (body : β → Body) h =>
    @answer_meets base o ov userID hst β name rows body (fun _ => []) h
  cases route with
  | getOrganizations =>
    exact hread _ _ _ fun db orgs hs hr => organizations_hidden hst hs user hu env ⟨0, 0, 0⟩ orgs []
      (congrArg (Except.map fun b => (b, [])) hr)
  | postOrganization name => exact postOrganization_meets hst user name
  | putOrganization organizationID body =>
    exact putOrganization_meets hst user hu env organizationID body
  | getOrganizationMembers organizationID =>
    exact withOrganization_meets hst user hu organizationID _ fun org ho _ =>
      hread _ _ _ fun db us hs hr => members_hidden org.id ho ⟨0, 0, 0⟩ us []
        (congrArg (Except.map fun b => (b, [])) hr)
  | putOrganizationMember organizationID email =>
    exact putOrganizationMember_meets hst user hu env organizationID email
  | deleteOrganizationMember organizationID toBeRemovedID =>
    exact deleteOrganizationMember_meets hst user hu organizationID toBeRemovedID
  | getProjects =>
    exact hread _ _ _ fun db ps hs hr => projects_hidden hst hs user hu env ⟨0, 0, 0⟩ ps []
      (congrArg (Except.map fun b => (b, [])) hr)
  | postProject body => exact postProject_meets hst user hu env body
  | getProjectSummary projectID =>
    exact withProject_meets hst user hu projectID _ fun id hp =>
      hread _ _ _ fun db ps hs hr => (projectSummary_ok hst hs id hp ps hr).1
  | deleteProject projectID => exact deleteProject_meets hst user hu env projectID
  | getProjectStatus projectID => exact getProjectStatus_meets hst user hu env projectID
  | getLogsForProject projectID req => exact getLogsForProject_meets hst user hu env projectID req
  | getPromptsForProject projectID req =>
    exact getPromptsForProject_meets hst user hu env projectID req
  | getDeploymentRevisionsForProject projectID =>
    refine withProject_meets hst user hu projectID _ fun id hp => hread _ _ _ fun db rs hs hr => ?_
    cases hr
    refine revisions_hidden hst hs _ fun k p hrow hk => ?_
    exact (same_apart hst hs .project k).2 (of_decide_eq_true hk ▸ hp) p hrow
  | getAnalytics now projectID startedAt =>
    exact getAnalytics_meets hst user hu rt env now projectID startedAt
  | putProjectSettings projectID body =>
    exact putProjectSettings_meets hst user hu env projectID body
  | getProjectsForDashboard organizationID =>
    refine withOrganization_meets hst user hu organizationID _ fun org ho _ =>
      hread _ _ _ fun db pss hs hr => ?_
    cases hr
    exact summaries_hidden hst hs env org.id ho
  | getDeploymentRevisionsForDashboard organizationID =>
    refine withOrganization_meets hst user hu organizationID _ fun org ho _ =>
      hread _ _ _ fun db rs hs hr => ?_
    cases hr
    intro r hr
    obtain ⟨x, hx, hr⟩ := List.mem_flatMap.mp hr
    exact revisions_hidden hst hs _ (fun k p _ hk => (of_decide_eq_true hk).trans_ne ho) r
      (List.mem_flatMap.mpr ⟨x, List.mem_of_mem_take hx, hr⟩)
  | getUsageForDashboard organizationID =>
    exact withOrganization_meets hst user hu organizationID _ fun org ho _ =>
      hread _ _ _ fun db u hs hr => usage_hidden hst hs org.id ho u ⟨0, 0, 0⟩ []
        (congrArg (Except.map fun b => (b, [])) hr)
  | getContext =>
    refine meets_bind _ _ _ _ _ false _ (meets_select _ _ false _ _ _ _ _ (fun _ => rfl)
      (fun e => ⟨text_discreet _ _, ends_same hst ()⟩) fun db orgs hs hr => ?_)
    have horgs := organizations_hidden hst hs user hu env ⟨0, 0, 0⟩ orgs []
      (congrArg (Except.map fun b => (b, [])) hr)
    refine meets_bind _ _ _ _ _ false _ (meets_select _ _ false _ _ _ _ _ (fun _ => rfl)
      (fun e => ⟨text_discreet _ _, ends_same hst ()⟩) fun db ps hs hr => ?_)
    have hps := projects_hidden hst hs user hu env ⟨0, 0, 0⟩ ps []
      (congrArg (Except.map fun b => (b, [])) hr)
    refine ⟨fun r hr => ?_, ends_same hst ()⟩
    rcases List.mem_cons.mp hr with rfl | hr
    · exact id
    · exact hidden_append _ _ horgs hps r hr

end Routes

/-- The account behind an address is not a member: it was none before, and a
new account has no memberships. -/
theorem actsFor_stranger (env : Env) (hc : Consistent base)
    (ho : base.row .organization o = some ov) (email : String)
    (hn : ∀ u v, base.row .userAccount u = some v → v.email = env.toLower email →
      base.row .organizationUserAccount (o, u) = none) (userID : UUID)
    (ha : ActsFor base env email userID) : Stranger base o ov userID := by
  refine ⟨hc, ho, ?_⟩
  cases hm : base.row .organizationUserAccount (o, userID) with
  | none => rfl
  | some v =>
    obtain ⟨w, hw⟩ := hc.sound.parent membershipUser (by simp [schema, foreignKeys]) (o, userID) v
      userID hm rfl
    exact hm.symm.trans (hn userID w hw (ha w hw))

theorem serve_meets (rt : Analytics.Runtime) (env : Env) (hc : Consistent base)
    (ho : base.row .organization o = some ov) (email : String) (route : Routes.Route)
    (hn : ∀ u v, base.row .userAccount u = some v → v.email = env.toLower email →
      base.row .organizationUserAccount (o, u) = none) :
    Meets base o ov (Ends base o ov) (Routes.serve rt env (some email) route) false
      (fun db => db = base) := by
  refine meets_serve _ _ _ rt env base email route text_discreet ⟨rfl, fun db hdb t k => ?_⟩
    (Same base) (fun _ h => h) fun user ha =>
      handle_meets (actsFor_stranger env hc ho email hn user.id ha) user rfl rt env route
  rw [hdb]
  exact ⟨fun _ => rfl, base_outside hc.sound ho t k⟩

/-- A request leaves every row of an organization that its user is not a member
of as it was, adds none, shows none and does not touch the gateway. -/
theorem foreign_organization_untouched {σ : Type} (rt : Analytics.Runtime) (env : Env) (me : σ)
    (fails : StepName Stmt → Bool) (srv : Srv σ) (hr : Reachable env srv.db) (email : String)
    (route : Routes.Route) (o : UUID) (ov : OrganizationRow)
    (ho : srv.db.row .organization o = some ov)
    (hn : ∀ u v, srv.db.row .userAccount u = some v → v.email = env.toLower email →
      srv.db.row .organizationUserAccount (o, u) = none) :
    (∀ t k, Belongs srv.db o t k ∨ Belongs
        ((Routes.serve rt env (some email) route).run backend me fails srv {}).2.1.db o t k →
      ((Routes.serve rt env (some email) route).run backend me fails srv {}).2.1.db.row t k =
        srv.db.row t k) ∧
    (∀ x ∈ ((Routes.serve rt env (some email) route).run backend me fails srv {}).2.2.out,
      Discreet srv.db o x) ∧
    ((Routes.serve rt env (some email) route).run backend me fails srv {}).2.1.ext ov.name =
      srv.ext ov.name := by
  obtain ⟨op, I, ⟨-, hI⟩, hholds, hext, hout⟩ := run_meets backend me _ _
    (fun g => g ov.name = srv.ext ov.name)
    (fun c g hc hg => (Database.react_other c g ov.name hc).trans hg) fails _ _ false _
    (serve_meets rt env (reachable_consistent env _ hr) ho email route hn) srv {}
    (holds_closed _ _ _ _ rfl rfl rfl) rfl
  have ha := hI _ (holds_db I _ _ op hholds)
  refine ⟨fun t k hb => ?_, fun x hx => (hout x hx).elim (nomatch ·) id, hext⟩
  exact (ha t k).1 (hb.elim id (apart_belongs ha t k))

theorem foreign_organization_untouched_demo : ∃ w, demoRun = some w ∧
    (∀ t k, Belongs w.cfg.srv.db 2 t k ∨ Belongs ((Routes.serve Analytics.Runtime.stable Env.demo
        (some "eve@example.com") (.deleteProject (.value 4))).run backend () (fun _ => false)
          w.cfg.srv {}).2.1.db 2 t k →
      ((Routes.serve Analytics.Runtime.stable Env.demo (some "eve@example.com")
        (.deleteProject (.value 4))).run backend () (fun _ => false) w.cfg.srv {}).2.1.db.row t k =
          w.cfg.srv.db.row t k) ∧
    (∀ x ∈ ((Routes.serve Analytics.Runtime.stable Env.demo (some "eve@example.com")
      (.deleteProject (.value 4))).run backend () (fun _ => false) w.cfg.srv {}).2.2.out,
        Discreet w.cfg.srv.db 2 x) ∧
    ((Routes.serve Analytics.Runtime.stable Env.demo (some "eve@example.com")
      (.deleteProject (.value 4))).run backend () (fun _ => false) w.cfg.srv {}).2.1.ext "acme" =
        w.cfg.srv.ext "acme" := by
  obtain ⟨w, hw, hr⟩ := demoRun_reachable
  have h : demoRun.map (fun w => (w.cfg.srv.db.row .organization 2,
      (w.cfg.srv.db.scan .userAccount).all (fun u => u.2.email ≠ "eve@example.com"))) =
      some (some ⟨1, "acme", ⟨none, ⟨true⟩⟩⟩, true) := by decide
  rw [hw] at h
  obtain ⟨ho, hu⟩ := Prod.mk.inj (Option.some.inj h)
  refine ⟨w, hw, foreign_organization_untouched Analytics.Runtime.stable Env.demo () _ w.cfg.srv hr
    "eve@example.com" (.deleteProject (.value 4)) 2 ⟨1, "acme", ⟨none, ⟨true⟩⟩⟩ ho
      fun u v hv he => ?_⟩
  have := List.all_eq_true.mp hu (u, v) ((w.cfg.srv.db.mem_scan _ _ _).mpr hv)
  exact absurd he (of_decide_eq_true this)

end Jetski.StrangerRequests
