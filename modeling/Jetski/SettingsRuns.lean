import Jetski.Serial
import Jetski.Relational.Updates

/-!
# Concurrent settings requests

Every settings request stores a revision whose content updates the content of
the revision that was the latest when its transaction read it. No row is locked
before the pointer of the project is moved, so a request that commits in between
can be undone; if none of them sets a field that the other one omits, the
requests leave what they leave one after another in the order of their commits.
-/

set_option autoImplicit false

namespace Jetski.SettingsRuns

open Relational Schema Jetski.Types Database Handlers Ownership Reachability Duties Serial

/-! ## Contents -/

inductive Field where
  | ociURL
  | port
  | proxyURL
  | authenticated
  | telemetry
  deriving DecidableEq, Repr

@[reducible] def Value : Field → Type
  | .ociURL => Option String
  | .port => Option ℤ
  | .proxyURL => Option String
  | .authenticated => Bool
  | .telemetry => Bool

def contentOf (dr : Option DeploymentRevisionRow) : Fields Value
  | .ociURL => dr.bind (fun r => r.ociURL)
  | .port => dr.bind (fun r => r.port)
  | .proxyURL => dr.bind (fun r => r.proxyURL)
  | .authenticated => dr.any (fun r => r.authenticated)
  | .telemetry => dr.any (fun r => r.telemetry)

def latestRow (db : Db) (p : UUID) : Option DeploymentRevisionRow := do
  let v ← db.row .project p
  let d ← v.latestDeploymentRevisionID
  db.row .deploymentRevision d

def content (db : Db) (p : UUID) : Fields Value := contentOf (latestRow db p)

def requested (req : SettingsRequest) : Update Value
  | .ociURL => req.ociURL.map some
  | .port => req.port.map some
  | .proxyURL => req.proxyURL.map some
  | .authenticated => some req.authenticated
  | .telemetry => some req.telemetry

section Contents
variable (db : Db) (p : UUID) (user : UserAccount) (req : SettingsRequest)

theorem latestRevision_row (v : ProjectRow) (hv : db.row .project p = some v) :
    (Queries.latestRevision db p v).map (fun dr => dr.toDeploymentRevisionRow) =
      latestRow db p := by
  simp only [latestRow, hv, Queries.latestRevision, Option.bind_eq_bind, Option.bind_some]
  cases v.latestDeploymentRevisionID with
  | none => rfl
  | some d =>
    simp only [Option.bind_some]
    cases db.row .deploymentRevision d <;> rfl

/-- Merging a request with the latest revision updates its content. -/
theorem merge_content (v : ProjectRow) (hv : db.row .project p = some v) (createdAt : Time) :
    contentOf (some (rowOf (mergeSettings user req p (Queries.latestRevision db p v)) createdAt)) =
      (requested req).apply (content db p) := by
  rw [content, ← latestRevision_row db p v hv]
  ext f
  cases f with
  | ociURL =>
    cases h : req.ociURL <;>
      simp [contentOf, rowOf, mergeSettings, requested, Update.apply, h, Option.bind_map]
  | port =>
    cases h : req.port <;>
      simp [contentOf, rowOf, mergeSettings, requested, Update.apply, h, Option.bind_map]
  | proxyURL =>
    cases h : req.proxyURL <;>
      simp [contentOf, rowOf, mergeSettings, requested, Update.apply, h, Option.bind_map]
  | authenticated => simp [contentOf, rowOf, mergeSettings, requested, Update.apply]
  | telemetry => simp [contentOf, rowOf, mergeSettings, requested, Update.apply]

/-- Contents with a source that the columns can hold. -/
structure Acceptable (c : Fields Value) : Prop where
  source : (c .ociURL).isSome = true ∨ (c .proxyURL).isSome = true
  port : (c .port).all Queries.isInt4 = true
  ociURL : (c .ociURL).all Queries.storable = true
  proxyURL : (c .proxyURL).all Queries.storable = true

include user in
theorem acceptable_iff (v : ProjectRow) (hv : db.row .project p = some v) :
    Acceptable ((requested req).apply (content db p)) ↔
      Settings.Storable req (Queries.latestRevision db p v) := by
  have hm := merge_content db p user req v hv 0
  rw [Settings.storable_iff req _ user p, ← hm]
  simp only [Queries.NewRevision.fits, Bool.and_eq_true]
  constructor
  · rintro ⟨hs, h₁, h₂, h₃⟩
    refine ⟨?_, ⟨h₁, h₂⟩, h₃⟩
    rintro ⟨ho, hp⟩
    simp only [contentOf, rowOf, Option.bind_some, ho, hp] at hs
    simp at hs
  · rintro ⟨hs, ⟨h₁, h₂⟩, h₃⟩
    refine ⟨?_, h₁, h₂, h₃⟩
    by_contra hn
    simp only [contentOf, rowOf, Option.bind_some, not_or, Bool.not_eq_true,
      Option.isSome_eq_false_iff, Option.isNone_iff_eq_none] at hn
    exact hs hn

end Contents

/-! ## The transaction -/

/-- Over any rows the images leave the project with a revision of the content as
its latest one, and no membership changes. -/
def Publishes (p orgID : UUID) (c : Fields Value) (ws : List Image) : Prop :=
  ∃ d, ∀ db : Db, (∃ v, (db.replay ws).row .project p = some v ∧ v.organizationID = orgID ∧
      v.latestDeploymentRevisionID = some d) ∧
    (∃ r, (db.replay ws).row .deploymentRevision d = some r ∧ r.projectID = p ∧
      contentOf (some r) = c) ∧
    ∀ k, (db.replay ws).row .organizationUserAccount k = db.row .organizationUserAccount k

structure Kept (p orgID : UUID) (member : UUID → Bool) (db : Db) : Prop where
  project : ∃ v, db.row .project p = some v ∧ v.organizationID = orgID
  members : ∀ userID, Queries.isMember db userID orgID = member userID

section Images
variable {p orgID : UUID} {c : Fields Value} {ws : List Image}

theorem publishes_content (h : Publishes p orgID c ws) (db : Db) :
    content (db.replay ws) p = c := by
  obtain ⟨d, h⟩ := h
  obtain ⟨⟨v, hv, -, hd⟩, ⟨r, hr, -, hc⟩, -⟩ := h db
  rw [content, latestRow, hv]
  simpa [hd, hr] using hc

theorem publishes_kept (h : Publishes p orgID c ws) (member : UUID → Bool) (db : Db)
    (hk : Kept p orgID member db) : Kept p orgID member (db.replay ws) := by
  obtain ⟨d, h⟩ := h
  obtain ⟨⟨v, hv, ho, -⟩, -, hm⟩ := h db
  refine ⟨⟨v, hv, ho⟩, fun userID => ?_⟩
  rw [Queries.isMember, hm]
  exact hk.members userID

theorem publishes_ne (h : Publishes p orgID c ws) : ws ≠ [] := by
  obtain ⟨d, h⟩ := h
  rintro rfl
  obtain ⟨⟨v, hv, -⟩, -⟩ := h Store.empty
  cases hv

/-- The statements that store a revision and point the project to it. -/
theorem publishes_revision (dr : Queries.NewRevision) (hp : dr.projectID = p) (t t' : Tick)
    (d₁ d₂ : Db) (res : DeploymentRevision) (ws₁ ws₂ : List Image) (b : Unit)
    (hk : ∃ v, d₂.row .project p = some v ∧ v.organizationID = orgID)
    (hins : Queries.insertDeploymentRevision dr t d₁ = .ok (res, ws₁))
    (hupd : Queries.updateLatestDeploymentRevision res.id res.projectID t' (d₂.replay ws₁) =
      .ok (b, ws₂)) : dr.fits = true ∧
        ∃ createdAt, Publishes p orgID (contentOf (some (rowOf dr createdAt))) (ws₁++ws₂) := by
  obtain ⟨v, hv, ho⟩ := hk
  simp only [Queries.insertDeploymentRevision] at hins
  split at hins
  · next hfits =>
    obtain ⟨rfl, hws⟩ := Ownership.insertRow_ok _ _ _ _ _ _ _ hins
    subst hws
    refine ⟨hfits, dr.createdAt.getD t.start, t.fresh, fun db => ?_⟩
    have hrow : (d₂.set .deploymentRevision t.fresh
        (some (rowOf dr (dr.createdAt.getD t.start)))).row .project p = some v :=
      (d₂.set_table .deploymentRevision .project _ p _ (by decide)).trans hv
    simp only [Queries.updateLatestDeploymentRevision, Store.replay_cons, Store.replay_nil,
      Store.write, hp] at hupd
    simp only [rowOf, hp] at hrow
    rw [hrow] at hupd
    rw [(Ownership.putRow_ok _ _ _ _ _ _ _ hupd).2]
    simp only [List.singleton_append, Store.replay_cons, Store.replay_nil, Store.write]
    refine ⟨⟨_, Store.set_same _ _ _ _, ho, rfl⟩, ⟨_, ?_, hp, rfl⟩, fun k => ?_⟩
    · exact ((db.set .deploymentRevision t.fresh _).set_table .project .deploymentRevision p _ _
        (by decide)).trans (db.set_same _ _ _)
    · exact ((db.set .deploymentRevision t.fresh _).set_table .project .organizationUserAccount p
        _ _ (by decide)).trans (db.set_table .deploymentRevision .organizationUserAccount _ _ _
          (by decide))
  · cases hins

/-- A statement that only writes other tables, or a project as it points now. -/
theorem publishes_append (h : Publishes p orgID c ws) (ws' : List Image)
    (hw : ∀ t k v, (⟨t, k, v⟩ : Image) ∈ ws' → t = .deploymentRevisionEvent ∨ ∃ q, q ≠ p ∧
      (⟨t, k⟩ : Ref Key) = ⟨.project, q⟩) : Publishes p orgID c (ws++ws') := by
  obtain ⟨d, h⟩ := h
  refine ⟨d, fun db => ?_⟩
  have hsame : ∀ t (k : Key t), (t = .project → (⟨t, k⟩ : Ref Key) = ⟨.project, p⟩) →
      t ≠ .deploymentRevisionEvent → ((db.replay (ws++ws')).row t k) = (db.replay ws).row t k := by
    intro t k hp ht
    rw [Store.replay_append]
    refine Store.replay_untouched _ ws' t k fun w hm htouch => ?_
    obtain ⟨t', k', v'⟩ := w
    cases htouch
    rcases hw _ _ _ hm with rfl | ⟨q, hq, he⟩
    · exact ht rfl
    · cases he
      cases hp rfl
      exact hq rfl
  obtain ⟨⟨v, hv, hrest⟩, ⟨r, hr, hrest'⟩, hm⟩ := h db
  refine ⟨⟨v, ?_, hrest⟩, ⟨r, ?_, hrest'⟩, fun k => ?_⟩
  · rw [hsame .project p (fun _ => rfl) (by decide)]
    exact hv
  · rw [hsame .deploymentRevision d (by simp) (by decide)]
    exact hr
  · rw [hsame .organizationUserAccount k (by simp) (by decide)]
    exact hm k

theorem publishes_project (h : Publishes p orgID c ws) (db' : Db) (v : ProjectRow)
    (hv : (db'.replay ws).row .project p = some v) (v' : ProjectRow)
    (ho : v'.organizationID = v.organizationID)
    (hd : v'.latestDeploymentRevisionID = v.latestDeploymentRevisionID) :
    Publishes p orgID c (ws++[⟨.project, p, some v'⟩]) := by
  obtain ⟨d, h⟩ := h
  refine ⟨d, fun db => ?_⟩
  obtain ⟨⟨v₀, hv₀, ho₀, hd₀⟩, -, -⟩ := h db'
  cases hv.symm.trans hv₀
  obtain ⟨-, ⟨r, hr, hrest⟩, hm⟩ := h db
  rw [Store.replay_append]
  refine ⟨⟨v', Store.set_same _ _ _ _, ho.trans ho₀, hd.trans hd₀⟩, ⟨r, ?_, hrest⟩, fun k => ?_⟩
  · exact ((db.replay ws).set_table .project .deploymentRevision p d _ (by decide)).trans hr
  · exact ((db.replay ws).set_table .project .organizationUserAccount p k _
      (by decide)).trans (hm k)

theorem publishes_event (h : Publishes p orgID c ws) (revisionID : UUID)
    (type : DeploymentRevisionEventType) (timestamp : Option Time) (t t' : Tick) (d₁ d₂ : Db)
    (e : UUID) (b : Unit) (ws₁ ws₂ : List Image)
    (hins : Queries.insertDeploymentRevisionEvent revisionID type timestamp t d₁ = .ok (e, ws₁))
    (hupd : Queries.updateLatestDeploymentRevisionEvent e revisionID t' (d₂.replay (ws++ws₁)) =
      .ok (b, ws₂)) : Publishes p orgID c (ws++ws₁++ws₂) := by
  obtain ⟨-, v, -, rfl⟩ := Ownership.insertDeploymentRevisionEvent_ok _ _ _ _ _ _ _ hins
  have h₁ : Publishes p orgID c (ws++[⟨.deploymentRevisionEvent, t.fresh, some v⟩]) := by
    refine publishes_append h _ fun t' k v' hm => ?_
    cases List.mem_singleton.mp hm
    exact Or.inl rfl
  simp only [Queries.updateLatestDeploymentRevisionEvent] at hupd
  split at hupd
  · cases hupd
    rwa [List.append_nil]
  · next r hr =>
    split at hupd
    · cases hupd
      rwa [List.append_nil]
    · next v' hv' =>
      rw [(Ownership.putRow_ok _ _ _ _ _ _ _ hupd).2]
      by_cases hp : r.projectID = p
      · rw [hp] at hv' ⊢
        exact publishes_project h₁ d₂ v' hv' _ rfl rfl
      · refine publishes_append h₁ _ fun t' k v' hm => ?_
        cases List.mem_singleton.mp hm
        exact Or.inr ⟨_, hp, rfl⟩

end Images

/-! ## The duty of a settings request -/

section Duty
variable (env : Env) (user : UserAccount) (req : SettingsRequest) (p orgID : UUID)
variable (member : UUID → Bool)

/-- A request is allowed and checked, and commits its update of contents that its
transaction has read. -/
def settingsDuty : ApiDuty where
  fallible := True
  pool _ _ := False
  commit _ reads ws _ := (∃ d ∈ reads, Acceptable ((requested req).apply (content d p)) ∧
      Publishes p orgID ((requested req).apply (content d p)) ws) ∧
    checkSettings env req = .ok () ∧ p ≠ 0 ∧ member user.id = true
  done _ _ := True

variable {user req p member} (hc : checkSettings env req = .ok ()) (hp : p ≠ 0)
variable (hm : member user.id = true)
variable (Q : Except DbError Unit → ApiMode → Prop) (hQ : ∀ r c s reads, Q r (.closed c s reads))
include hc hp hm hQ

/-- The end of the transaction once its images publish the merged content. -/
theorem obeys_report (org : Organization) (status : ℕ) (body : Body) (reads : List Db)
    (ws : List Image) (d : Db) (hd : d ∈ reads)
    (ha : Acceptable ((requested req).apply (content d p)))
    (hw : Publishes p orgID ((requested req).apply (content d p)) ws) :
    Obeys (Kept p orgID member) (settingsDuty env user req p orgID member)
      (Finishes (Kept p orgID member) (settingsDuty env user req p orgID member) Q 1)
      (show Api (Except DbError Unit) from do
        let _ ← applyGateway env (.tx 1) org
        respond status body
        return .ok ()) (.opened false reads ws) := by
  have hcommit : ∀ sent reads', d ∈ reads' → Finishes (Kept p orgID member)
      (settingsDuty env user req p orgID member) Q 1 (.ok ()) (.opened sent reads' ws) := by
    intro sent reads' hd'
    refine ⟨fun _ => hQ _ _ _ _, Or.inr ⟨publishes_ne hw, fun db hk _ => ?_, hQ _ _ _ _⟩⟩
    exact ⟨⟨⟨d, hd', ha, hw⟩, hc, hp, hm⟩, publishes_kept hw member db hk⟩
  refine obeys_bind _ _ _ _ _ _ (obeys_applyGateway_tx _ _ env _ 1 org reads ws ?_ ?_ ?_)
  · intro e
    exact hQ _ _ _ _
  · intro _ db _ e
    exact hcommit false (db::reads) (List.mem_cons_of_mem db hd)
  · intro db _
    exact hcommit true (db::reads) (List.mem_cons_of_mem db hd)

theorem obeys_saveSettings :
    Obeys (Kept p orgID member) (settingsDuty env user req p orgID member)
      (Finishes (Kept p orgID member) (settingsDuty env user req p orgID member) Q 1)
      (saveSettings env user req p (.tx 1)) (.opened false [] []) := by
  refine obeys_bind _ _ _ _ _ _ (obeys_select_tx _ _ _ _ 1 _ [] [] (fun e _ => hQ _ _ _ _) ?_)
  intro d ps hk hread
  obtain ⟨v, hv, ho⟩ := hk.project
  rw [Store.replay_nil, hv] at hread
  have hlatest : ps.latestDeploymentRevision = Queries.latestRevision d p v := by
    cases hsum : Queries.summary d p v with
    | none => simp [hsum, Queries.collectExactlyOneRow] at hread
    | some ps' =>
      simp only [Option.bind_some, hsum, Option.toList_some, Queries.collectExactlyOneRow,
        Except.ok.injEq] at hread
      subst hread
      obtain ⟨o, -, rfl⟩ := (Summaries.summary_some d p v ps').mp hsum
      rfl
  change Obeys _ _ _ (if _ then _ else _) _
  rw [hlatest]
  split
  · exact ⟨fun _ => hQ _ _ _ _, Or.inl ⟨rfl, rfl, hQ _ _ _ _⟩⟩
  · next hsome =>
    refine obeys_bind _ _ _ _ _ _ (obeys_createDeploymentRevision _ _ _ 0 _ _ _ ?_ ?_)
    · rintro e m (rfl | rfl)
      · exact hQ _ _ _ _
      · exact hQ _ _ _ _
    · intro t₁ d₁ res ws₁ _ hins t₂ d₂ ws₂ hk₂ hupd
      rw [Store.replay_nil] at hins
      obtain ⟨hfits, createdAt, hpub⟩ := @publishes_revision p orgID
        (mergeSettings user req p (Queries.latestRevision d p v)) rfl t₁ t₂ d₁ d₂ res ws₁ ws₂ ()
        hk₂.project hins hupd
      rw [merge_content d p user req v hv] at hpub
      have hacc : Acceptable ((requested req).apply (content d p)) :=
        (acceptable_iff d p user req v hv).mpr
        ((Settings.storable_iff req _ user p).mpr ⟨hsome, hfits⟩)
      refine obeys_bind _ _ _ _ _ _ ?_
      change Obeys _ _ _ (if _ then _ else _) _
      split
      · refine obeys_addDeploymentRevisionEvent _ _ _ 1 _ _ _ _ _ (fun e => hQ _ _ _ _) ?_
        intro t₃ d₃ e ws₃ _ hev t₄ d₄ ws₄ _ hup
        refine obeys_report env orgID hc hp hm Q hQ _ _ _ _ _ d (by simp) hacc ?_
        exact publishes_event hpub _ _ _ _ _ _ _ e () ws₃ ws₄ hev hup
      · exact obeys_report env orgID hc hp hm Q hQ _ _ _ _ _ d (by simp) hacc hpub

end Duty

theorem obeys_putProjectSettings (env : Env) (user : UserAccount) (req : SettingsRequest)
    (p orgID : UUID) (member : UUID → Bool) :
    Obeys (Kept p orgID member) (settingsDuty env user req p orgID member)
      (Ended (settingsDuty env user req p orgID member))
      (putProjectSettings env user (.value p) (some req)) (.closed false false []) := by
  have hend : ∀ c s reads, Ended (settingsDuty env user req p orgID member) ()
    (.closed c s reads) :=
    fun c s reads => ⟨c, s, reads, rfl, trivial⟩
  cases hc : checkSettings env req with
  | error text =>
    simp only [putProjectSettings, hc]
    exact hend _ _ _
  | ok =>
    simp only [putProjectSettings, hc]
    change Obeys _ _ _ (withProject user (.value p) _) _
    refine obeys_withProject _ _ user _ _ _ (fun reads => hend _ _ _) ?_
    intro id d hid hne hk hacc
    cases hid
    obtain ⟨v, hv, hm⟩ := hacc
    obtain ⟨v', hv', ho⟩ := hk.project
    cases hv.symm.trans hv'
    rw [ho, hk.members] at hm
    let Q : Except DbError Unit → ApiMode → Prop := fun _ m => ∃ c s reads, m = .closed c s reads
    have hQ : ∀ r c s reads, Q r (.closed c s reads) := fun r c s reads => ⟨c, s, reads, rfl⟩
    have hsave := obeys_saveSettings env orgID hc hne hm Q hQ
    refine obeys_bind _ _ _ _ _ _ (obeys_mono _ _ Q _ (fun r m hr => ?_) _ _
      (obeys_runTx _ _ Q _ [d] (fun _ => hQ (.error .refused) false false [d]) hsave))
    obtain ⟨c, s, reads, rfl⟩ := hr
    cases r with
    | error e => exact hend _ _ _
    | ok => exact hend _ _ _

/-! ## Runs -/

section Runs
variable {σ : Type} (env : Env) (user : σ → UserAccount) (req : σ → SettingsRequest)
variable (p orgID : UUID) (member : UUID → Bool)

def put (i : σ) : Api Unit := putProjectSettings env (user i) (.value p) (some (req i))

def duty (i : σ) : ApiDuty := settingsDuty env (user i) (req i) p orgID member

variable [DecidableEq σ]

/-- A request that runs alone updates the content of the latest revision. -/
theorem put_alone (srv : Srv σ) (hs : Settled srv) (hk : Kept p orgID member srv.db) (i : σ)
    (hc : checkSettings env (req i) = .ok ()) (hp : p ≠ 0) (hm : member (user i).id = true)
    (ha : Acceptable ((requested (req i)).apply (content srv.db p))) :
    Settled (after (put env user req p) i srv) ∧
      Kept p orgID member (after (put env user req p) i srv).db ∧
      content (after (put env user req p) i srv).db p =
        (requested (req i)).apply (content srv.db p) ∧
      (after (put env user req p) i srv).wal.length = srv.wal.length+1 := by
  obtain ⟨v, hv, ho⟩ := hk.project
  have hmem : Queries.isMember srv.db (user i).id v.organizationID = true := by
    rw [ho, hk.members, hm]
  have hready := Settings.labelled_ready _ hs.labelled hs.sound p (user i).id v hv hmem
  have hst := (acceptable_iff srv.db p (user i) (req i) v hv).mp ha
  obtain ⟨hlong, hsound⟩ := Settings.putProjectSettings_commits i env (user i) srv (req i) p v hv hp
    hc hmem hready hst
  have hlabelled := labelled_alone env (fun _ => True) (put env user req p i)
    (ApiRuns.built_putProjectSettings env _ (user i) trivial trivial trivial _ _) i (fun _ => false)
    srv hs.labelled
  obtain ⟨log, hl, hkept, hlog⟩ := run_obeys backend srv (Kept p orgID member)
    (duty env user req p orgID member i) i (fun _ => false) (fun hn => absurd trivial hn)
    (put env user req p i) _ _ (obeys_putProjectSettings env (user i) (req i) p orgID member) srv {}
    [] ⟨by simp, rfl⟩ hk ⟨rfl, by simp, by simp, by simp⟩ (Or.inl rfl)
  refine ⟨⟨hlabelled, hsound⟩, hkept, ?_, hlong⟩
  rcases hlog with rfl | ⟨c, rfl, -, hpool | ⟨sent, reads, hpast, ⟨⟨d, hd, -, hw⟩, -⟩⟩⟩
  · have hwal := congrArg List.length hl.wal
    rw [List.append_nil] at hwal
    change _ = _ at hlong
    rw [put] at hwal
    omega
  · obtain ⟨_, _, h⟩ := hpool
    exact h.elim
  · rw [after, hl.db, settle_single, publishes_content hw, (past_nil srv _ _ (hpast d hd)).1]

variable (w₀ w' : ApiWorld σ)

def requesting : ApiWorld σ := ⟨⟨w₀.cfg.srv, fun _ => {}⟩, put env user req p⟩

/-- The requests leave a log of updates, and what they leave one after another in
the order of the log if none of them disturbs another. -/
theorem settings_runs (h₀ : Reaches env w₀)
    (hp : ∃ v, w₀.cfg.srv.db.row .project p = some v)
    (hr : Run backend postgres (requesting env user req p w₀) w') :
    ∃ log, w'.cfg.srv.wal = w₀.cfg.srv.wal++log ∧ w'.cfg.srv.db = w₀.cfg.srv.db.settle log ∧
      (log.map (fun c => c.client)).Nodup ∧
      Merges (fun i => requested (req i)) (fun c => c.since) w₀.cfg.srv
      (fun db => content db p) log ∧
      (Separate (fun i => requested (req i)) (fun c => c.since) w₀.cfg.srv log →
        content w'.cfg.srv.db p =
          content (serially (put env user req p) (log.map (fun c => c.client)) w₀.cfg.srv).db p ∧
        (serially (put env user req p) (log.map (fun c => c.client)) w₀.cfg.srv).wal.length =
          w₀.cfg.srv.wal.length+log.length) := by
  obtain ⟨v, hv⟩ := hp
  have hs := reaches_settled env w₀ h₀
  let member : UUID → Bool := fun userID => Queries.isMember w₀.cfg.srv.db userID v.organizationID
  have hk : Kept p v.organizationID member w₀.cfg.srv.db := ⟨⟨v, hv, rfl⟩, fun _ => rfl⟩
  have hidle := disciplined_idle (fun _ => 0) (Kept p v.organizationID member)
    (duty env user req p v.organizationID member) (requesting env user req p w₀) hk
    (fun _ => ⟨rfl, rfl⟩) (fun i => obeys_putProjectSettings env (user i) (req i) p _ member)
  obtain ⟨log, hd, -⟩ := run_disciplined backend w₀.cfg.srv (fun _ => 0)
    (Kept p v.organizationID member) (duty env user req p v.organizationID member) postgres
    (fun x i fail β a h => ⟨h.1, fun hn => absurd trivial hn, Nat.zero_le _⟩) (fun _ _ => True)
    (fun _ _ _ _ _ _ _ _ _ _ _ _ _ => trivial) _ w' [] hidle trivial hr
  have hdue : ∀ pre c post, log = pre++c::post → ∃ d, Past w₀.cfg.srv pre c.since d ∧
      content (w₀.cfg.srv.db.settle (pre++[c])) p =
        (requested (req c.client)).apply (content d p) ∧
      Acceptable ((requested (req c.client)).apply (content d p)) ∧
      checkSettings env (req c.client) = .ok () ∧ p ≠ 0 ∧ member (user c.client).id = true := by
    intro pre c post hlog
    rcases hd.due pre c post hlog with ⟨_, _, h⟩ | ⟨sent, reads, hpast, ⟨d, hd, ha, hw⟩, hrest⟩
    · exact h.elim
    · refine ⟨d, hpast d hd, ?_, ha, hrest⟩
      rw [settle_append, settle_single, publishes_content hw]
  have hmerges : Merges (fun i => requested (req i)) (fun c => c.since) w₀.cfg.srv
      (fun db => content db p) log := fun pre c post hlog =>
    let ⟨d, hpast, hc, _⟩ := hdue pre c post hlog
    ⟨d, hpast, hc⟩
  refine ⟨log, hd.logged.wal, hd.logged.db, hd.clients, hmerges, fun hsep => ?_⟩
  have hund := separate_undisturbed _ _ w₀.cfg.srv _ log hmerges hsep
  have hserial := serially_contents (fun i => requested (req i)) (fun db => content db p)
    (put env user req p) w₀.cfg.srv (fun srv => Settled srv ∧ Kept p v.organizationID member srv.db)
    log ⟨hs, hk⟩ hund
  obtain ⟨-, hcont, hlen⟩ := hserial (by
    intro pre c post srv hlog hinv hsame
    obtain ⟨d, -, hnew, hacc, hcheck, hne, hmem⟩ := hdue pre c post hlog
    rw [← hnew, ← hsame] at hacc
    obtain ⟨hset, hkept, hcont, hlen⟩ := put_alone env user req p _ member srv hinv.1 hinv.2
      c.client hcheck hne hmem hacc
    exact ⟨⟨hset, hkept⟩, hcont, hlen⟩)
  exact ⟨hd.logged.db ▸ hcont.symm, hlen⟩

end Runs

/-! ## Two requests on the project of the demonstration run -/

def demoRequest : Bool → SettingsRequest
  | true => ⟨some "ghcr.io/acme/docs:1", some 8080, true, false, none⟩
  | false => ⟨none, none, false, true, none⟩

/-- The requests one after another, or with the image committed after the other
request has read the latest revision. -/
def demoSchedule (overlap : Bool) : List (Bool × Bool) :=
  List.replicate (if overlap then 3 else 0) (false, false)++List.replicate 13 (true, false)++
    List.replicate (if overlap then 8 else 13) (false, false)

def demoPair (overlap : Bool) : Option (ApiWorld Bool × ApiWorld Bool) := do
  let w ← demoRunBy true
  let w' ← played (demoSchedule overlap) (requesting Env.demo (fun _ => .demo) demoRequest 4 w)
  return (w, w')

theorem demoPair_runs (overlap : Bool) (w w' : ApiWorld Bool)
    (h : demoPair overlap = some (w, w')) :
    Reaches Env.demo w ∧
      Run backend postgres (requesting Env.demo (fun _ => .demo) demoRequest 4 w) w' := by
  simp only [demoPair, Option.bind_eq_bind, Option.bind_eq_some_iff, Option.pure_def,
    Option.some.injEq, Prod.mk.injEq] at h
  obtain ⟨x, hx, y, hy, rfl, rfl⟩ := h
  exact ⟨demoRunBy_reaches true x hx, played_run _ _ _ hy⟩

/-- Without an overlap. -/
theorem settings_runs_demo : ∃ w w', demoPair false = some (w, w') ∧
    ∃ log, w'.cfg.srv.wal = w.cfg.srv.wal++log ∧ w'.cfg.srv.db = w.cfg.srv.db.settle log ∧
      (log.map (fun c => c.client)).Nodup ∧
      Merges (fun i => requested (demoRequest i)) (fun c => c.since) w.cfg.srv
        (fun db => content db 4) log ∧
      (Separate (fun i => requested (demoRequest i)) (fun c => c.since) w.cfg.srv log →
        content w'.cfg.srv.db 4 = content (serially (put Env.demo (fun _ => .demo) demoRequest 4)
          (log.map (fun c => c.client)) w.cfg.srv).db 4 ∧
        (serially (put Env.demo (fun _ => .demo) demoRequest 4) (log.map (fun c => c.client))
          w.cfg.srv).wal.length = w.cfg.srv.wal.length+log.length) := by
  have hsome : (demoPair false).isSome := by decide
  obtain ⟨⟨w, w'⟩, h⟩ := Option.isSome_iff_exists.mp hsome
  obtain ⟨hw, hr⟩ := demoPair_runs false w w' h
  have hrow : (demoPair false).all (fun x => (x.1.cfg.srv.db.row .project 4).isSome) := by decide
  rw [h] at hrow
  exact ⟨w, w', h, settings_runs Env.demo (fun _ => .demo) demoRequest 4 w w' hw
    (Option.isSome_iff_exists.mp hrow) hr⟩

/-- Both requests commit and report success, but the image is lost. -/
theorem image_undone : ∃ w w', Reaches Env.demo w ∧
    Run backend postgres (requesting Env.demo (fun _ => .demo) demoRequest 4 w) w' ∧
    (∀ i, i ∈ (w'.cfg.srv.wal.drop w.cfg.srv.wal.length).map (fun c => c.client) ∧
      some 200 ∈ (w'.cfg.ses i).out.map Settings.Output.status) ∧
    ∀ order ∈ [[true, false], [false, true]], content w'.cfg.srv.db 4 ≠ content
      (serially (put Env.demo (fun _ => .demo) demoRequest 4) order w.cfg.srv).db 4 := by
  have h : (demoPair true).any (fun x =>
      (∀ i, i ∈ (x.2.cfg.srv.wal.drop x.1.cfg.srv.wal.length).map (fun c => c.client) ∧
        some 200 ∈ (x.2.cfg.ses i).out.map Settings.Output.status) ∧
      ∀ order ∈ [[true, false], [false, true]], content x.2.cfg.srv.db 4 .ociURL ≠ content
        (serially (put Env.demo (fun _ => .demo) demoRequest 4) order
          x.1.cfg.srv).db 4 .ociURL) =
      true := by
    decide
  obtain ⟨⟨w, w'⟩, hw, hall⟩ := (Option.any_eq_true _ _).mp h
  obtain ⟨hdone, hlost⟩ := of_decide_eq_true hall
  obtain ⟨hreach, hrun⟩ := demoPair_runs true w w' hw
  exact ⟨w, w', hreach, hrun, hdone, fun order ho he => hlost order ho (congrFun he .ociURL)⟩

end Jetski.SettingsRuns
