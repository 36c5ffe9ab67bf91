import Jetski.Requests
import Jetski.Summaries

/-!
# Sources of revisions

A revision should be served from an image with its port or from a proxy URL.
The checks of a settings request look at its body only, while the stored
revision also takes over what the latest one had. The merge has one source as
long as no request brings the other kind of source than the latest revision.
-/

set_option autoImplicit false

namespace Jetski.Sources

open Relational Schema Jetski.Types Database Handlers Reachability Routes Requests

/-- Exactly one of the two sources is set, and the port goes with the image. -/
def OneSource (ociURL : Option String) (port : Option ℤ) (proxyURL : Option String) : Prop :=
  (ociURL.isSome ↔ proxyURL = none) ∧ (port.isSome ↔ ociURL.isSome)

def RowOneSource (r : DeploymentRevisionRow) : Prop := OneSource r.ociURL r.port r.proxyURL

def AllOneSource (db : Db) : Prop :=
  ∀ d r, db.row .deploymentRevision d = some r → RowOneSource r

/-- The request keeps to the kind of source that the revision has. -/
def Compatible (req : SettingsRequest) (r : DeploymentRevisionRow) : Prop :=
  (req.proxyURL.isSome → r.ociURL = none) ∧
    (req.ociURL.isSome ∨ req.port.isSome → r.proxyURL = none)

/-! ## The merge -/

section Merge
variable (env : Env) (user : UserAccount) (req : SettingsRequest) (projectID : UUID)

/-- What the checks of a request leave. -/
theorem checkSettings_ok (h : checkSettings env req = .ok ()) :
    (req.ociURL.isSome → req.port.isSome ∧ req.proxyURL = none) ∧
      (req.proxyURL.isSome → req.port = none) := by
  unfold checkSettings at h
  split at h
  · cases h
  · next ho hp =>
    split at h
    · cases h
    · next hport => simp_all [Option.isSome_iff_ne_none]
  · next ho hp =>
    split at h
    · cases h
    · next hport => simp_all
  · next ho hp => simp_all

/-- Without a latest revision, a merge that has a source has one source. -/
theorem merge_first (hcheck : checkSettings env req = .ok ())
    (hsome : ¬ (req.ociURL = none ∧ req.proxyURL = none)) :
    OneSource (mergeSettings user req projectID none).ociURL
      (mergeSettings user req projectID none).port
      (mergeSettings user req projectID none).proxyURL := by
  obtain ⟨hoci, hproxy⟩ := checkSettings_ok env req hcheck
  obtain ⟨ociURL, port, authenticated, telemetry, proxyURL⟩ := req
  cases ociURL <;> cases port <;> cases proxyURL <;> simp_all [mergeSettings, OneSource]

/-- The merge with a revision of one source has one source again exactly for
compatible requests. -/
theorem merge_oneSource_iff (r : DeploymentRevision) (hcheck : checkSettings env req = .ok ())
    (hr : RowOneSource r.toDeploymentRevisionRow) :
    OneSource (mergeSettings user req projectID (some r)).ociURL
      (mergeSettings user req projectID (some r)).port
      (mergeSettings user req projectID (some r)).proxyURL ↔
      Compatible req r.toDeploymentRevisionRow := by
  obtain ⟨hoci, hproxy⟩ := checkSettings_ok env req hcheck
  obtain ⟨ociURL, port, authenticated, telemetry, proxyURL⟩ := req
  obtain ⟨⟨createdAt, createdBy, project, port', ociURL', auth, proxyURL', tel⟩, id, nr⟩ := r
  cases ociURL <;> cases port <;> cases proxyURL <;>
    cases ociURL' <;> cases port' <;> cases proxyURL' <;>
    simp_all [mergeSettings, OneSource, RowOneSource, Compatible]

end Merge

/-! ## One request -/

/-- No settings request that passes the checks, of an account that may access
the project, changes the kind of source of its latest revision. -/
def KeepsSource (env : Env) (db : Db) (req : ApiRequest) : Prop :=
  ∀ email p body, req.email = some email → req.route = .putProjectSettings (.value p) (some body) →
    checkSettings env body = .ok () → ∀ u, ActsFor db env email u → Accessible db u p →
    ∀ v d r, db.row .project p = some v → v.latestDeploymentRevisionID = some d →
      db.row .deploymentRevision d = some r → Compatible body r

section Step
variable {base db : Db}

theorem same_allOneSource (hs : Same base db) (h : AllOneSource base) : AllOneSource db :=
  fun d r hr => h d r ((hs _ (by decide) d).symm.trans hr)

theorem allOneSource_replay (h : AllOneSource db) (ws : List Image)
    (hw : ∀ d r, (⟨.deploymentRevision, d, some r⟩ : Image) ∈ ws → RowOneSource r) :
    AllOneSource (db.replay ws) :=
  fun d r hr => (Store.replay_row db ws _ d r hr).elim (h d r) (hw d r)

theorem insertRevision_oneSource (h : AllOneSource db) (dr : Queries.NewRevision)
    (hdr : OneSource dr.ociURL dr.port dr.proxyURL) (t : Tick) (res : DeploymentRevision)
    (ws : List Image) (hf : Queries.insertDeploymentRevision dr t db = .ok (res, ws)) :
    AllOneSource (db.replay ws) := by
  refine allOneSource_replay h ws fun d r hw => ?_
  simp only [Queries.insertDeploymentRevision] at hf
  split at hf
  · rw [(Ownership.insertRow_ok _ _ _ _ _ _ _ hf).2] at hw
    cases List.mem_singleton.mp hw
    exact hdr
  · cases hf

theorem table_oneSource (h : AllOneSource db) (ws : List Image)
    (hw : ∀ w ∈ ws, w.table ≠ .deploymentRevision) : AllOneSource (db.replay ws) :=
  allOneSource_replay h ws fun _ _ hm => absurd rfl (hw _ hm)

theorem updateRevision_oneSource (h : AllOneSource db) (revisionID projectID : UUID) (t : Tick)
    (ws : List Image)
    (hf : Queries.updateLatestDeploymentRevision revisionID projectID t db = .ok ((), ws)) :
    AllOneSource (db.replay ws) :=
  table_oneSource h ws (updateRevision_table (· ≠ .deploymentRevision) _ _ t db () ws
    (by decide) hf)

def revisionsOneSource : (t : Table) → Key t → Row t → Prop
  | .deploymentRevision, _, r => RowOneSource r
  | _, _, _ => True

theorem deleteProject_oneSource (h : AllOneSource db) (p : UUID) (t : Tick) (n : ℕ)
    (ws : List Image) (hf : Queries.deleteProject p t db = .ok (n, ws)) :
    AllOneSource (db.replay ws) := by
  rw [Queries.deleteProject] at hf
  split at hf
  · cases hf
    exact h
  · split at hf
    · cases hf
    · next hd =>
      cases hf
      -- a deletion writes no revision but its removal
      refine allOneSource_replay h ws fun d r hw => ?_
      refine deleteRow_images foreignKeys tables revisionsOneSource
        (fun f hf k v hv => ?_) _ _ db ws (fun t k v hv => ?_) hd .deploymentRevision d r hw
      · simp only [foreignKeys, List.mem_cons, List.not_mem_nil, or_false] at hf
        rcases hf with rfl | rfl | rfl | rfl | rfl | rfl | rfl | rfl | rfl | rfl | rfl | rfl | rfl |
          rfl | rfl <;> exact hv
      · cases t
        case deploymentRevision => exact h k v hv
        all_goals trivial

theorem createRevision_meets (d : ℕ) (dr : Queries.NewRevision) {I : Db → Prop} (op : Bool)
    (hI : ∀ db, I db → AllOneSource db) (hdr : OneSource dr.ociURL dr.port dr.proxyURL)
    (Q : Post Key Row (Except DbError DeploymentRevision)) (he : ∀ e, Q (.error e) op I)
    (hq : ∀ r, Q r op AllOneSource) :
    Meets Q (createDeploymentRevision (.tx (d+1)) dr) op I :=
  meets_createDeploymentRevision _ _ op I Q d dr AllOneSource hI (fun _ => True)
    (fun t db res ws hd hf => ⟨insertRevision_oneSource (hI db hd) dr hdr t res ws hf, trivial⟩)
    (fun _ _ t _ ws hd hf => updateRevision_oneSource hd _ _ t ws hf) he (fun _ => hq _)
    (fun _ _ => hq _)

variable (user : UserAccount) (env : Env)

omit user in
/-- What is answered after the transaction. -/
theorem created_meets (req : ProjectRequest) (org : Organization) (r : Except DbError Project) :
    Meets (Leaves AllOneSource) (show Api Unit from do
      match r with
      | .error _ => internalServerError
      | .ok project =>
        if req.proxyURL.isSome then
          let _ ← applyGateway env .pool org
        respondJSON (.project project)) false AllOneSource := by
  have hend : Leaves AllOneSource () false AllOneSource := ⟨rfl, fun _ h => h⟩
  cases r with
  | error e => exact ⟨trivial, hend⟩
  | ok p =>
    dsimp only
    split
    · exact meets_bind _ _ _ _ _ false _ (meets_applyGateway _ _ false _ _ env .pool org
        (fun _ => rfl) trivial (fun _ => trivial) fun _ => ⟨trivial, hend⟩)
    · exact ⟨trivial, hend⟩

theorem postProject_meets (body : Option ProjectRequest) :
    Meets (Leaves AllOneSource) (postProjectHandler env user body) false AllOneSource := by
  have hend : Leaves AllOneSource () false AllOneSource := ⟨rfl, fun _ h => h⟩
  cases body with
  | none => exact ⟨trivial, hend⟩
  | some req =>
    simp only [postProjectHandler, Prog.bind_eq]
    generalize Validation.validateName _ = valid
    refine meets_bind _ _ _ _ _ false _ (meets_validate _ _ false _ _ _ (fun _ _ => trivial) hend
      fun _ => ?_)
    refine meets_bind _ _ _ _ _ false _ (meets_select _ _ false _ _ _ _ _ (fun _ => rfl)
      (fun e => ⟨trivial, hend⟩) fun db r _ _ => ?_)
    obtain ⟨member, org⟩ := r
    cases member with
    | false => exact ⟨trivial, hend⟩
    | true =>
      have hdone := created_meets env req org
      have hnot : ∀ e : DbError, (Except.error e : Except DbError Project).isOk →
          Meets (Leaves AllOneSource) internalServerError false AllOneSource :=
        fun e h => absurd h (by simp [Except.isOk, Except.toBool])
      refine meets_bind _ _ _ _ _ false _ (meets_runTx _ _ _ _ _ (hdone (.error .refused)) ?_)
      refine meets_bind _ _ _ _ _ true _ ⟨by simp, fun e => ⟨hdone (.error e), hnot e⟩,
        AllOneSource, fun _ h => h, fun t db p ws hd hf => ⟨table_oneSource hd ws
          (insertRow_table (· ≠ .deploymentRevision) _ _ _ _ _ _ _ (by decide) hf), ?_⟩⟩
      cases hreq : req.proxyURL with
      | none =>
        rw [hreq] at hdone
        exact ⟨hdone (.ok p), fun _ => hdone (.error .refused)⟩
      | some proxyURL =>
        rw [hreq] at hdone
        refine meets_bind _ _ _ _ _ true _ (createRevision_meets 0 _ true (fun _ h => h)
          (by simp [firstRevision, OneSource]) _ (fun e => ⟨hdone (.error e), hnot e⟩) ?_)
        rintro (e | res)
        · exact ⟨hdone (.error e), hnot e⟩
        · exact ⟨hdone (.ok p), fun _ => hdone (.error .refused)⟩

theorem deleteProject_meets (projectID : Param UUID) :
    Meets (Leaves AllOneSource) (deleteProjectHandler env user projectID) false AllOneSource := by
  have hend : Leaves AllOneSource () false AllOneSource := ⟨rfl, fun _ h => h⟩
  refine meets_withProject _ _ _ user _ projectID _ (fun _ _ => trivial) hend fun id _ _ _ => ?_
  refine meets_bind _ _ _ _ _ false _ (meets_select _ _ false _ _ _ _ _ (fun _ => rfl)
    (fun e => by cases e <;> exact ⟨trivial, hend⟩) fun db ps _ _ => ?_)
  refine meets_bind _ _ _ _ _ false _ (meets_bind _ _ _ _ _ false _ ⟨fun _ => rfl,
    fun e => ⟨trivial, hend⟩, AllOneSource, fun _ h => h, fun t db n ws hd hf =>
      ⟨deleteProject_oneSource hd id t n ws hf, ?_⟩⟩)
  change Meets _
    (if n = 0 then pure (Except.error DbError.notFound) else pure (Except.ok ())) false _
  split
  · exact ⟨trivial, hend⟩
  · exact meets_bind _ _ _ _ _ false _ (meets_applyGateway _ _ false _ _ env .pool _
      (fun _ => rfl) trivial (fun _ => trivial) fun _ => ⟨trivial, hend⟩)

/-- The latest revision that a summary joins is the one the row points to. -/
theorem summary_latest (id : UUID) (ps : ProjectSummary) (h : Queries.collectExactlyOneRow
      ((db.row .project id).bind (Queries.summary db id)).toList = .ok ps)
    (r : DeploymentRevision) (hr : ps.latestDeploymentRevision = some r) :
    ∃ v d, db.row .project id = some v ∧ v.latestDeploymentRevisionID = some d ∧
      db.row .deploymentRevision d = some r.toDeploymentRevisionRow := by
  cases hrow : db.row .project id with
  | none => simp [hrow, Queries.collectExactlyOneRow] at h
  | some v =>
    cases hsum : Queries.summary db id v with
    | none => simp [hrow, hsum, Queries.collectExactlyOneRow] at h
    | some ps' =>
      simp only [hrow, hsum, Queries.collectExactlyOneRow, Option.bind_some, Option.toList_some,
        Except.ok.injEq] at h
      subst h
      obtain ⟨org, -, rfl⟩ := (Summaries.summary_some db id v ps').mp hsum
      simp only [Queries.latestRevision, Option.bind_eq_bind, Option.bind_eq_some_iff] at hr
      obtain ⟨d, hd, w, hw, hr⟩ := hr
      cases hr
      exact ⟨v, d, rfl, hd, hw⟩

omit user in
/-- What is answered after the transaction of a settings request. -/
theorem answered_meets (I : Db → Prop) (hI : ∀ db, I db → AllOneSource db)
    (r : Except DbError Unit) : Meets (Leaves AllOneSource) (show Api Unit from do
      match r with
      | .error _ => internalServerError
      | .ok () => return) false I ∧
    (r.isOk → Meets (Leaves AllOneSource) internalServerError false I) := by
  refine ⟨?_, fun _ => ⟨trivial, rfl, hI⟩⟩
  cases r with
  | error e => exact ⟨trivial, rfl, hI⟩
  | ok => exact ⟨rfl, hI⟩

theorem putProjectSettings_meets (hb : AllOneSource base) (projectID : Param UUID)
    (body : Option SettingsRequest)
    (hk : ∀ p req, projectID = .value p → body = some req → checkSettings env req = .ok () →
      Accessible base user.id p → ∀ v d r, base.row .project p = some v →
      v.latestDeploymentRevisionID = some d → base.row .deploymentRevision d = some r →
      Compatible req r) :
    Meets (Leaves AllOneSource) (putProjectSettings env user projectID body) false (Same base) := by
  have hsame : ∀ db, Same base db → AllOneSource db := fun db hs => same_allOneSource hs hb
  have hend : Leaves AllOneSource () false (Same base) := ⟨rfl, hsame⟩
  cases body with
  | none => exact ⟨trivial, hend⟩
  | some req =>
    simp only [putProjectSettings, Prog.bind_eq]
    generalize hvalid : checkSettings env req = valid
    refine meets_bind _ _ _ _ _ false _ (meets_validate _ _ false _ _ _ (fun _ _ => trivial) hend
      fun hok => ?_)
    have hcheck := hvalid.trans hok
    refine meets_withProject _ _ _ user _ projectID _ (fun _ _ => trivial) hend
      fun id hid _ ⟨db₀, hs₀, hacc⟩ => ?_
    have hacc : Accessible base user.id id := by
      obtain ⟨p, hp, hm⟩ := hacc
      rw [Queries.isMember, hs₀ _ (by decide)] at hm
      exact ⟨p, (hs₀ _ (by decide) _).symm.trans hp, hm⟩
    have hfin := answered_meets
    refine meets_bind _ _ _ _ _ false _ (meets_runTx _ _ _ _ _
      (hfin _ hsame (.error .refused)).1 ?_)
    refine meets_bind _ _ _ _ _ true _ (meets_select _ _ true _ _ _ _ _ (by simp)
      (fun e => hfin _ hsame (.error e)) fun db ps hs hps => ?_)
    dsimp only
    split
    · exact ⟨trivial, hfin _ hsame (.ok ())⟩
    · next hsource =>
      have hdr : OneSource (mergeSettings user req id ps.latestDeploymentRevision).ociURL
          (mergeSettings user req id ps.latestDeploymentRevision).port
          (mergeSettings user req id ps.latestDeploymentRevision).proxyURL := by
        cases hlatest : ps.latestDeploymentRevision with
        | none =>
          rw [hlatest] at hsource
          exact merge_first env user req id hcheck fun ⟨ho, hp⟩ =>
            hsource ⟨by simp [mergeSettings, ho], by simp [mergeSettings, hp]⟩
        | some r =>
          obtain ⟨v, d, hv, hd, hr⟩ := summary_latest id ps hps r hlatest
          have hr := (hs _ (by decide) _).symm.trans hr
          exact (merge_oneSource_iff env user req id r hcheck (hb d _ hr)).mpr
            (hk id req hid rfl hcheck hacc v d _ ((hs _ (by decide) _).symm.trans hv) hd hr)
      refine meets_bind _ _ _ _ _ true _ (createRevision_meets 0 _ true hsame hdr _
        (fun e => hfin _ hsame (.error e)) ?_)
      have hrest : ∀ (Q : Post Key Row (Except DbError Unit)), Q (.ok ()) true AllOneSource →
          ∀ res : DeploymentRevision, Meets Q (show Api (Except DbError Unit) from do
          let _ ← applyGateway env (.tx 1) ps.organization
          respondJSON (.summary { ps with
            latestDeploymentRevisionID := some res.id
            latestDeploymentRevision := some res })
          return .ok ()) true AllOneSource := fun Q hQ res =>
        meets_bind _ _ _ _ _ true _ (meets_applyGateway _ _ true _ _ env (.tx 1) ps.organization
          (by simp) trivial (fun _ => trivial) fun _ => ⟨trivial, hQ⟩)
      rintro (e | res)
      · exact hfin _ (fun _ h => h) (.error e)
      · simp only [Prog.bind_eq]
        refine meets_bind _ _ _ _ _ true _ ?_
        split
        · refine meets_addDeploymentRevisionEvent _ _ true _ _ 0 res.id .progressing none
            (fun _ => True) (fun t db e ws hd hf => ⟨table_oneSource hd ws (insertRow_table
              (· ≠ .deploymentRevision) _ _ _ _ _ _ _ (by decide) hf), trivial⟩)
            (fun e _ t db ws hd hf => table_oneSource hd ws (updateEvent_table
              (· ≠ .deploymentRevision) _ _ t db () ws (by decide) hf)) ?_
          rintro (e | ⟨⟩)
          · exact hfin _ (fun _ h => h) (.error e)
          · exact hrest _ (hfin _ (fun _ h => h) (.ok ())) res
        · exact hrest _ (hfin _ (fun _ h => h) (.ok ())) res

end Step

section Requests
variable (rt : Analytics.Runtime) (env : Env)

/-- One request keeps all revisions at one source, unless it mixes kinds. -/
theorem perform_oneSource (srv : Srv Unit) (req : ApiRequest) (h : AllOneSource srv.db)
    (hk : KeepsSource env srv.db req) : AllOneSource (req.perform rt env srv).db := by
  by_cases ht : .deploymentRevision ∈ ApiRuns.tablesOf req.route
  · obtain ⟨email, route, fails⟩ := req
    cases email with
    | none => exact h
    | some email =>
      cases route
      case postProject body =>
        exact perform_leaves _ rt env srv email _ fails h _ (fun _ hs => same_allOneSource hs h)
          fun user _ => postProject_meets user env body
      case deleteProject projectID =>
        exact perform_leaves _ rt env srv email _ fails h _ (fun _ hs => same_allOneSource hs h)
          fun user _ => deleteProject_meets user env projectID
      case putProjectSettings projectID body =>
        refine perform_leaves _ rt env srv email _ fails h _ (fun _ hs => hs)
          fun user ha => putProjectSettings_meets user env h projectID body
            fun p body' hp hb hcheck hacc => ?_
        exact hk email p body' rfl (by rw [hp, hb]) hcheck user.id ha hacc
      all_goals simp [ApiRuns.tablesOf] at ht
  · exact fun d r hr => h d r ((perform_quiet rt env srv req _ (by decide) ht d).symm.trans hr)

/-- Along every history of requests none of which mixes the kinds of sources,
every stored revision has one source. -/
theorem served_revisions_oneSource (srv₀ srv : Srv Unit) (h₀ : srv₀.db = Store.empty)
    (h : Serves rt env (KeepsSource env) srv₀ srv) : AllOneSource srv.db := by
  induction h with
  | refl =>
    intro d r hr
    rw [h₀] at hr
    cases hr
  | tail _ hs ih =>
    obtain ⟨req, hk, rfl⟩ := hs
    exact perform_oneSource rt env _ req ih hk

def proxied (settings : SettingsRequest) : List ApiRequest :=
  [⟨some "ada@acme.com", ApiRuns.demoFounding, fun _ => false⟩,
    ⟨some "ada@acme.com", ApiRuns.demoOpening, fun _ => false⟩,
    ⟨some "ada@acme.com", .putProjectSettings (.value 7) (some settings), fun _ => false⟩]

/-- A new proxy URL. -/
theorem served_revisions_oneSource_demo : AllOneSource (performAll Analytics.Runtime.stable
    Env.demo (proxied ⟨none, none, true, true, some "https://mcp.acme.dev/api"⟩) fresh).db := by
  refine served_revisions_oneSource Analytics.Runtime.stable Env.demo fresh _ rfl
    (serves_performAll _ _ _ _ _
      ⟨nofun, nofun, fun email p body _ hroute _ u _ _ v d r _ _ hr => ?_, trivial⟩)
  cases hroute
  refine ⟨fun _ => ?_, by simp⟩
  have hall : ∀ x ∈ (performAll Analytics.Runtime.stable Env.demo
      ((proxied ⟨none, none, true, true, some "https://mcp.acme.dev/api"⟩).take 2)
      fresh).db.scan .deploymentRevision, x.2.ociURL = none := by
    decide
  exact hall (d, r) ((Store.mem_scan _ _ _ _).mpr hr)

/-- An image for a project that has a proxy URL leaves a revision with both. -/
theorem image_joins_proxy : ∃ srv, Serves Analytics.Runtime.stable Env.demo (fun _ _ => True) fresh
    srv ∧ ¬ AllOneSource srv.db := by
  refine ⟨_, serves_performAll _ _ _ (proxied ⟨some "ghcr.io/acme/docs:1", some 8080, true, false,
    none⟩) fresh ⟨trivial, trivial, trivial, trivial⟩, fun h => ?_⟩
  have hboth : ∃ x ∈ (performAll Analytics.Runtime.stable Env.demo (proxied
      ⟨some "ghcr.io/acme/docs:1", some 8080, true, false, none⟩) fresh).db.scan
      .deploymentRevision, x.2.ociURL ≠ none ∧ x.2.proxyURL ≠ none := by
    decide
  obtain ⟨x, hx, ho, hp⟩ := hboth
  have hone := h x.1 x.2 ((Store.mem_scan _ _ _ _).mp hx)
  exact hp (hone.1.mp (Option.isSome_iff_ne_none.mpr ho))

end Requests
end Jetski.Sources
