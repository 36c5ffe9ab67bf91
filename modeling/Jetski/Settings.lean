import Jetski.Requests
import Jetski.Summaries

/-!
# Settings requests

The gateway is applied and the response written inside the transaction that
stores the new revision. Followed exactly for every choice of failing steps, a
settings request reports a revision that is not committed just when it gets as
far as its response and then the commit, or the query before the response, fails.
-/

set_option autoImplicit false

namespace Jetski.Settings

open Relational Schema Jetski.Types Database Handlers Reachability Requests

/-! ## Rows that are accepted -/

section Accepted
variable (db : Db)

theorem accepted_revision (d : UUID) (v : DeploymentRevisionRow)
    (hu : ∃ u, db.row .userAccount v.createdBy = some u)
    (hp : ∃ p, db.row .project v.projectID = some p) :
    schema.put db .deploymentRevision d v = .ok [⟨.deploymentRevision, d, some v⟩] := by
  have hkeys : schema.foreignKeys.filter (fun f => f.child = .deploymentRevision) =
      [revisionCreatedBy, revisionProject] := rfl
  refine put_accepted schema db .deploymentRevision d v (by simp [schema, uniques]) ?_
  simp only [hkeys, List.forall_mem_cons]
  refine ⟨dangles_parent revisionCreatedBy _ d v fun j hj => ?_,
    dangles_parent revisionProject _ d v fun j hj => ?_, by simp⟩
  · cases hj
    exact hu.imp fun u hu => (db.set_table _ _ _ _ _ (by decide)).trans hu
  · cases hj
    exact hp.imp fun p hp => (db.set_table _ _ _ _ _ (by decide)).trans hp

theorem accepted_event (e : UUID) (v : DeploymentRevisionEventRow)
    (hd : ∃ r, db.row .deploymentRevision v.deploymentRevisionID = some r) :
    schema.put db .deploymentRevisionEvent e v = .ok [⟨.deploymentRevisionEvent, e, some v⟩] := by
  have hkeys : schema.foreignKeys.filter (fun f => f.child = .deploymentRevisionEvent) =
      [eventRevision] := rfl
  refine put_accepted schema db .deploymentRevisionEvent e v (by simp [schema, uniques]) ?_
  simp only [hkeys, List.forall_mem_singleton]
  refine dangles_parent eventRevision _ e v fun j hj => ?_
  cases hj
  exact hd.imp fun r hr => (db.set_table _ _ _ _ _ (by decide)).trans hr

/-- A project may be pointed to other revisions and events that exist. -/
theorem accepted_project (hs : Sound schema db) (p : UUID) (v v' : ProjectRow)
    (hv : db.row .project p = some v) (ho : v'.organizationID = v.organizationID)
    (hn : v'.name = v.name) (hc : v'.createdBy = v.createdBy)
    (hr : ∀ d, v'.latestDeploymentRevisionID = some d →
      ∃ r, db.row .deploymentRevision d = some r)
    (he : ∀ e, v'.latestDeploymentRevisionEventID = some e →
      ∃ ev, db.row .deploymentRevisionEvent e = some ev) :
    schema.put db .project p v' = .ok [⟨.project, p, some v'⟩] := by
  have hunique : schema.uniques.filter (fun u => u.table = .project) =
      [⟨"project_name_unique", .project, fun _ v => (v.organizationID, v.name)⟩] := rfl
  have hkeys : schema.foreignKeys.filter (fun f => f.child = .project) =
      [projectCreatedBy, projectOrganization, projectLatestRevision, projectLatestEvent] := rfl
  refine put_accepted schema db .project p v' ?_ ?_
  · simp only [hunique, List.forall_mem_singleton]
    rw [Bool.eq_false_iff, ne_eq]
    intro hclash
    obtain ⟨k, w, hw, hk, heq⟩ := (clashes_iff
      ⟨"project_name_unique", .project, fun _ v => (v.organizationID, v.name)⟩ db p v').mp hclash
    obtain ⟨h₁, h₂⟩ := Prod.mk.inj heq
    exact hk (Summaries.sound_project_names db hs k p w v hw hv (h₁.trans ho) (h₂.trans hn))
  · simp only [hkeys, List.forall_mem_cons]
    refine ⟨dangles_parent projectCreatedBy _ p v' fun j hj => ?_,
      dangles_parent projectOrganization _ p v' fun j hj => ?_,
      dangles_parent projectLatestRevision _ p v' fun j hj => ?_,
      dangles_parent projectLatestEvent _ p v' fun j hj => ?_, by simp⟩
    · cases hj
      obtain ⟨u, hu⟩ := hs.parent projectCreatedBy (by simp [schema, foreignKeys]) p v _ hv rfl
      exact ⟨u, (db.set_table _ _ _ _ _ (by decide)).trans (hc ▸ hu)⟩
    · cases hj
      obtain ⟨o, hvo⟩ := hs.parent projectOrganization (by simp [schema, foreignKeys]) p v _ hv rfl
      exact ⟨o, (db.set_table _ _ _ _ _ (by decide)).trans (ho ▸ hvo)⟩
    · exact (hr j hj).imp fun r hr => (db.set_table _ _ _ _ _ (by decide)).trans hr
    · exact (he j hj).imp fun e he => (db.set_table _ _ _ _ _ (by decide)).trans he

variable {db}

theorem putRow_sound {β : Type} (hs : Sound schema db) (t : Table) (k : Key t) (v : Row t)
    (b b' : β) (ws : List Image) (h : Queries.putRow db t k v b = .ok (b', ws)) :
    Sound schema (db.replay ws) := by
  rw [Queries.putRow] at h
  split at h
  · cases h
  · next hp =>
    cases h
    exact put_sound schema db t k v _ hs hp

theorem insertRow_sound {β : Type} (hs : Sound schema db) (t : Table) (k : Key t) (v : Row t)
    (b b' : β) (ws : List Image) (h : Queries.insertRow db t k v b = .ok (b', ws)) :
    Sound schema (db.replay ws) := by
  rw [Queries.insertRow] at h
  split at h
  · cases h
  · exact putRow_sound hs t k v b b' ws h

/-- Rows in which a user can give a project a revision, under any identifier from
the next one on. -/
structure Ready (db : Db) (next : ℕ) (p userID : UUID) : Prop where
  sound : Sound schema db
  revisions : ∀ d, next ≤ d → db.row .deploymentRevision d = none
  events : ∀ e, next ≤ e → db.row .deploymentRevisionEvent e = none
  user : ∃ u, db.row .userAccount userID = some u
  project : ∃ v, db.row .project p = some v

/-- Rows in which a revision of a project is stored. -/
structure Stored (db : Db) (next : ℕ) (p : UUID) (res : DeploymentRevision) : Prop where
  sound : Sound schema db
  events : ∀ e, next ≤ e → db.row .deploymentRevisionEvent e = none
  revision : ∃ r, db.row .deploymentRevision res.id = some r ∧ r.projectID = p
  project : ∃ v, db.row .project p = some v

/-- A project points to a revision of its own, which was returned without a build number. -/
structure Pointed (db : Db) (p : UUID) (res : DeploymentRevision) : Prop where
  unnumbered : res.buildNumber = 0
  project : ∃ v, db.row .project p = some v ∧ v.latestDeploymentRevisionID = some res.id
  revision : ∃ r, db.row .deploymentRevision res.id = some r ∧ r.projectID = p

theorem insertRevision_unnumbered (dr : Queries.NewRevision) (t : Tick) (res : DeploymentRevision)
    (ws : List Image) (hf : Queries.insertDeploymentRevision dr t db = .ok (res, ws)) :
    res.buildNumber = 0 := by
  simp only [Queries.insertDeploymentRevision] at hf
  split at hf
  · obtain ⟨rfl, -⟩ := Ownership.insertRow_ok _ _ _ _ _ _ _ hf
    rfl
  · cases hf

section Statements
variable {next : ℕ} (dr : Queries.NewRevision) (t : Tick) (hfresh : next ≤ t.fresh)
variable (hr : Ready db next dr.projectID dr.createdBy)
include hfresh hr

theorem insertRevision_accepted (hfits : dr.fits = true) :
    ∃ r, Queries.insertDeploymentRevision dr t db = .ok r := by
  simp only [Queries.insertDeploymentRevision, hfits, if_true, Queries.insertRow,
    hr.revisions t.fresh hfresh, Queries.putRow]
  rw [accepted_revision db t.fresh _ hr.user hr.project]
  exact ⟨_, rfl⟩

omit hfresh in
theorem insertRevision_stored (res : DeploymentRevision) (ws : List Image)
    (hf : Queries.insertDeploymentRevision dr t db = .ok (res, ws)) :
    dr.fits = true ∧ ws ≠ [] ∧ res.projectID = dr.projectID ∧ res.ociURL = dr.ociURL ∧
      Stored (db.replay ws) next dr.projectID res := by
  obtain ⟨hid, hproj, hws⟩ := Ownership.insertDeploymentRevision_ok dr t db res ws hf
  simp only [Queries.insertDeploymentRevision] at hf
  split at hf
  · next hfits =>
    have hs := insertRow_sound hr.sound _ _ _ _ _ ws hf
    obtain ⟨rfl, -⟩ := Ownership.insertRow_ok _ _ _ _ _ _ _ hf
    subst hws
    refine ⟨hfits, by simp, rfl, rfl, hs, fun e he => ?_, ⟨_, db.set_same _ _ _, rfl⟩, ?_⟩
    · exact (db.set_table .deploymentRevision .deploymentRevisionEvent _ e _ (by decide)).trans
        (hr.events e he)
    · exact hr.project.imp fun v hv =>
        (db.set_table .deploymentRevision .project _ _ _ (by decide)).trans hv
  · cases hf

end Statements

section Pointers
variable {next : ℕ} {p : UUID} {res : DeploymentRevision} (h : Stored db next p res)
include h

theorem updateRevision_accepted (t : Tick) :
    ∃ ws, Queries.updateLatestDeploymentRevision res.id p t db = .ok ((), ws) := by
  obtain ⟨v, hv⟩ := h.project
  obtain ⟨r, hr, -⟩ := h.revision
  simp only [Queries.updateLatestDeploymentRevision, hv, Queries.putRow]
  rw [accepted_project db h.sound p v { v with latestDeploymentRevisionID := some res.id } hv rfl
    rfl rfl]
  · exact ⟨_, rfl⟩
  · intro d hd
    cases hd
    exact ⟨r, hr⟩
  · intro e he
    exact h.sound.parent projectLatestEvent (by simp [schema, foreignKeys]) p v e hv he

theorem updateRevision_stored (t : Tick) (ws : List Image)
    (hf : Queries.updateLatestDeploymentRevision res.id p t db = .ok ((), ws)) :
    Stored (db.replay ws) next p res := by
  obtain ⟨v, hv⟩ := h.project
  obtain ⟨r, hr, hp⟩ := h.revision
  simp only [Queries.updateLatestDeploymentRevision, hv] at hf
  have hs := putRow_sound h.sound _ _ _ _ _ ws hf
  rw [(Ownership.putRow_ok _ _ _ _ _ _ _ hf).2] at hs ⊢
  refine ⟨hs, fun e he => ?_, ⟨r, ?_, hp⟩, ⟨_, db.set_same _ _ _⟩⟩
  · exact (db.set_table .project .deploymentRevisionEvent _ e _ (by decide)).trans (h.events e he)
  · exact (db.set_table .project .deploymentRevision _ res.id _ (by decide)).trans hr

theorem updateRevision_pointed (t : Tick) (ws : List Image) (hnumber : res.buildNumber = 0)
    (hf : Queries.updateLatestDeploymentRevision res.id p t db = .ok ((), ws)) :
    Pointed (db.replay ws) p res := by
  have hstored := updateRevision_stored h t ws hf
  obtain ⟨v, hv⟩ := h.project
  simp only [Queries.updateLatestDeploymentRevision, hv] at hf
  obtain ⟨-, hws⟩ := Ownership.putRow_ok _ _ _ _ _ _ _ hf
  subst hws
  exact ⟨hnumber, ⟨_, db.set_same _ _ _, rfl⟩, hstored.revision⟩

theorem insertEvent_accepted (type : DeploymentRevisionEventType) (timestamp : Option Time)
    (t : Tick) (hfresh : next ≤ t.fresh) :
    ∃ r, Queries.insertDeploymentRevisionEvent res.id type timestamp t db = .ok r := by
  obtain ⟨r, hr, -⟩ := h.revision
  simp only [Queries.insertDeploymentRevisionEvent, Queries.insertRow, h.events t.fresh hfresh,
    Queries.putRow]
  rw [accepted_event db t.fresh _ ⟨r, hr⟩]
  exact ⟨_, rfl⟩

theorem updateEvent_accepted (type : DeploymentRevisionEventType) (timestamp : Option Time)
    (t t' : Tick) (e : UUID) (ws : List Image)
    (hf : Queries.insertDeploymentRevisionEvent res.id type timestamp t db = .ok (e, ws)) :
    ∃ ws', Queries.updateLatestDeploymentRevisionEvent e res.id t' (db.replay ws) =
      .ok ((), ws') := by
  obtain ⟨v, hv⟩ := h.project
  obtain ⟨r, hr, rfl⟩ := h.revision
  have hs := insertRow_sound h.sound _ _ _ _ _ ws hf
  obtain ⟨rfl, hws⟩ := Ownership.insertRow_ok _ _ _ _ _ _ _ hf
  subst hws
  have hr' := (db.set_table .deploymentRevisionEvent .deploymentRevision t.fresh res.id
    (some ⟨timestamp.getD t.now, res.id, type⟩) (by decide)).trans hr
  have hv' := (db.set_table .deploymentRevisionEvent .project t.fresh r.projectID
    (some ⟨timestamp.getD t.now, res.id, type⟩) (by decide)).trans hv
  simp only [Store.replay_cons, Store.replay_nil, Store.write] at hs ⊢
  simp only [Queries.updateLatestDeploymentRevisionEvent, hr', hv', Queries.putRow]
  rw [accepted_project _ hs r.projectID v { v with latestDeploymentRevisionEventID := some t.fresh }
    hv' rfl rfl rfl]
  · exact ⟨_, rfl⟩
  · intro d hd
    exact hs.parent projectLatestRevision (by simp [schema, foreignKeys]) _ v d hv' hd
  · intro e he
    cases he
    exact ⟨_, db.set_same _ _ _⟩

theorem updateEvent_sound (type : DeploymentRevisionEventType) (timestamp : Option Time)
    (t t' : Tick) (e : UUID) (b : Unit) (ws ws' : List Image)
    (hf : Queries.insertDeploymentRevisionEvent res.id type timestamp t db = .ok (e, ws))
    (hf' : Queries.updateLatestDeploymentRevisionEvent e res.id t' (db.replay ws) = .ok (b, ws')) :
    Sound schema ((db.replay ws).replay ws') := by
  have hs := insertRow_sound h.sound _ _ _ _ _ ws hf
  simp only [Queries.updateLatestDeploymentRevisionEvent] at hf'
  split at hf'
  · cases hf'
    exact hs
  · split at hf'
    · cases hf'
      exact hs
    · exact putRow_sound hs _ _ _ _ _ ws' hf'

end Pointers

theorem insertEvent_pointed {p : UUID} {res : DeploymentRevision} (h : Pointed db p res)
    (d : UUID) (type : DeploymentRevisionEventType) (timestamp : Option Time) (t : Tick) (e : UUID)
    (ws : List Image)
    (hf : Queries.insertDeploymentRevisionEvent d type timestamp t db = .ok (e, ws)) :
    Pointed (db.replay ws) p res := by
  obtain ⟨-, hws⟩ := Ownership.insertRow_ok _ _ _ _ _ _ _ hf
  subst hws
  obtain ⟨v, hv, hlatest⟩ := h.project
  obtain ⟨r, hr, hproject⟩ := h.revision
  exact ⟨h.unnumbered,
    ⟨v, (db.set_table .deploymentRevisionEvent .project _ _ _ (by decide)).trans hv, hlatest⟩,
    r, (db.set_table .deploymentRevisionEvent .deploymentRevision _ _ _ (by decide)).trans hr,
    hproject⟩

theorem updateEvent_pointed {p : UUID} {res : DeploymentRevision} (h : Pointed db p res)
    (e d : UUID) (t : Tick) (ws : List Image)
    (hf : Queries.updateLatestDeploymentRevisionEvent e d t db = .ok ((), ws)) :
    Pointed (db.replay ws) p res := by
  simp only [Queries.updateLatestDeploymentRevisionEvent] at hf
  split at hf
  · cases hf
    exact h
  · next r hr =>
    split at hf
    · cases hf
      exact h
    · next v hv =>
      obtain ⟨-, hws⟩ := Ownership.putRow_ok _ _ _ _ _ _ _ hf
      subst hws
      obtain ⟨v', hv', hlatest⟩ := h.project
      obtain ⟨r', hr', hproject⟩ := h.revision
      refine ⟨h.unnumbered, ?_, r',
        (db.set_table .project .deploymentRevision _ _ _ (by decide)).trans hr', hproject⟩
      by_cases hp : p = r.projectID
      · subst hp
        cases hv.symm.trans hv'
        exact ⟨_, db.set_same _ _ _, hlatest⟩
      · exact ⟨v', (db.set_key .project _ _ _ hp).trans hv', hlatest⟩

end Accepted

/-! ## Runs with given failing steps -/

section Runs
variable {σ : Type} (me : σ) (fails : StepName Stmt → Bool) {srv₀ srv : Srv σ} {s : Ses}

def revisionSteps : List (StepName Stmt) :=
  [.savepoint, .stmt .insertDeploymentRevision, .stmt .updateLatestDeploymentRevision, .release]

def eventSteps : List (StepName Stmt) :=
  [.stmt .insertDeploymentRevisionEvent, .stmt .updateLatestDeploymentRevisionEvent]

def Silent (srv₀ srv : Srv σ) (s : Ses) : Prop := srv.ext = srv₀.ext ∧ s.out = []

theorem wp_createDeploymentRevision (h : During srv₀ srv s []) (d : ℕ) (dr : Queries.NewRevision)
    (hr : Ready srv₀.db srv₀.next dr.projectID dr.createdBy)
    (Q : Except DbError DeploymentRevision → Srv σ → Ses → Prop)
    (he : ∀ e srv' s', Silent srv₀ srv' s' →
      ¬ (dr.fits = true ∧ ∀ st ∈ revisionSteps, fails st = false) → Q (.error e) srv' s')
    (hok : ∀ res srv' s' ws, dr.fits = true → (∀ st ∈ revisionSteps, fails st = false) →
      During srv₀ srv' s' ws → ws ≠ [] → res.ociURL = dr.ociURL →
      Stored (srv₀.db.replay ws) srv₀.next dr.projectID res →
      Pointed (srv₀.db.replay ws) dr.projectID res → Q (.ok res) srv' s') :
    (createDeploymentRevision (.tx (d+1)) dr).Wp backend me fails Q srv s := by
  have hfail : ∀ st ∈ revisionSteps, fails st = true →
      ¬ (dr.fits = true ∧ ∀ st ∈ revisionSteps, fails st = false) :=
    fun st hm hf hall => by simp [hall.2 st hm] at hf
  refine wp_savepoint backend me fails _ _ _ (d+1) _ h.live h.opened
    (fun hn => he _ _ _ ⟨h.ext, h.out⟩ (hfail _ (by simp [revisionSteps]) hn)) fun hsave => ?_
  have h₁ := during_savepoint h
  refine wp_tx backend me fails _ _ _ _ _ _ _ h₁.live h₁.opened (fun e hf => ?_)
    fun res ws hins hf => ?_
  · refine he _ _ _ ⟨h₁.ext, h₁.out⟩ fun hall => ?_
    rcases hf with hf | hf
    · exact hfail _ (by simp [revisionSteps]) hf hall
    · obtain ⟨r, hacc⟩ := insertRevision_accepted dr
        (Session.tick { s with levels := []::s.levels } srv.tock (.tx (d+1))) h₁.next hr hall.1
      rw [during_view h₁] at hf
      exact absurd (hacc.symm.trans hf) (by simp)
  · rw [during_view h₁] at hf
    have hnumber := insertRevision_unnumbered dr _ res ws hf
    obtain ⟨hfits, hne, hproj, hoci, hst⟩ := insertRevision_stored dr _ hr res ws hf
    have h₂ := during_push h₁ ws
    refine wp_tx backend me fails _ _ _ _ _ _ _ h₂.live h₂.opened (fun e hf => ?_)
      fun _ ws' hupd hf => ?_
    · refine he _ _ _ ⟨h₂.ext, h₂.out⟩ fun hall => ?_
      rcases hf with hf | hf
      · exact hfail _ (by simp [revisionSteps]) hf hall
      · rw [during_view h₂, hproj] at hf
        obtain ⟨ws', hacc⟩ := updateRevision_accepted hst _
        exact absurd (hacc.symm.trans hf) (by simp)
    · rw [during_view h₂, hproj] at hf
      have hst' := updateRevision_stored hst _ ws' hf
      have hpointed := updateRevision_pointed hst _ ws' hnumber hf
      have h₃ := during_push h₂ ws'
      refine wp_release backend me fails _ _ _ d _ h₃.live
        (fun hn => he _ _ _ ⟨h₃.ext, h₃.out⟩ (hfail _ (by simp [revisionSteps]) hn)) fun hrel => ?_
      refine hok res _ _ _ hfits ?_ (during_release h₃) (by simp [hne]) hoci ?_ ?_
      · simp [revisionSteps, hsave, hins, hupd, hrel]
      · rw [Store.replay_append]
        exact hst'
      · rw [Store.replay_append]
        exact hpointed

theorem wp_addDeploymentRevisionEvent {ws : List Image} (h : During srv₀ srv s ws) (d : ℕ)
    (p : UUID) (res : DeploymentRevision) (hst : Stored (srv₀.db.replay ws) srv₀.next p res)
    (type : DeploymentRevisionEventType) (timestamp : Option Time)
    (Q : Except DbError Unit → Srv σ → Ses → Prop)
    (he : ∀ e srv' s', Silent srv₀ srv' s' → ¬ (∀ st ∈ eventSteps, fails st = false) →
      Q (.error e) srv' s')
    (hpointed : Pointed (srv₀.db.replay ws) p res)
    (hok : ∀ srv' s' ws', (∀ st ∈ eventSteps, fails st = false) → During srv₀ srv' s' (ws++ws') →
      Sound schema (srv₀.db.replay (ws++ws')) → Pointed (srv₀.db.replay (ws++ws')) p res →
      Q (.ok ()) srv' s') :
    (addDeploymentRevisionEvent (.tx (d+1)) res.id type timestamp).Wp backend me fails Q srv s := by
  have hfail : ∀ st ∈ eventSteps, fails st = true → ¬ (∀ st ∈ eventSteps, fails st = false) :=
    fun st hm hf hall => by simp [hall st hm] at hf
  refine wp_tx backend me fails _ _ _ _ _ _ _ h.live h.opened (fun e hf => ?_)
    fun e ws₁ hins hf => ?_
  · refine he _ _ _ ⟨h.ext, h.out⟩ fun hall => ?_
    rcases hf with hf | hf
    · exact hfail _ (by simp [eventSteps]) hf hall
    · rw [during_view h] at hf
      obtain ⟨r, hacc⟩ := insertEvent_accepted hst type timestamp (s.tick srv (.tx (d+1))) h.next
      exact absurd (hacc.symm.trans hf) (by simp)
  · rw [during_view h] at hf
    have h₁ := during_push h ws₁
    refine wp_tx backend me fails _ _ _ _ _ _ _ h₁.live h₁.opened (fun e' hf' => ?_)
      fun _ ws₂ hupd hf' => ?_
    · refine he _ _ _ ⟨h₁.ext, h₁.out⟩ fun hall => ?_
      rcases hf' with hf' | hf'
      · exact hfail _ (by simp [eventSteps]) hf' hall
      · rw [during_view h₁, Store.replay_append] at hf'
        obtain ⟨ws₂, hacc⟩ := updateEvent_accepted hst type timestamp _ _ e ws₁ hf
        exact absurd (hacc.symm.trans hf') (by simp)
    · have h₂ := during_push h₁ ws₂
      rw [List.append_assoc] at h₂
      rw [during_view h₁, Store.replay_append] at hf'
      have hs := updateEvent_sound hst type timestamp _ _ e _ ws₁ ws₂ hf hf'
      have hp := updateEvent_pointed (insertEvent_pointed hpointed _ _ _ _ e ws₁ hf) e _ _ ws₂ hf'
      rw [← Store.replay_append, ← Store.replay_append] at hs hp
      exact hok _ _ _ (by simp [eventSteps, hins, hupd]) h₂ hs hp

end Runs

/-! ## What a settings request needs -/

section Request
variable (req : SettingsRequest) (latest : Option DeploymentRevision)

/-- The image that the request gives or leaves to the latest revision. -/
def imageOf : Option String := req.ociURL.or (latest.bind (fun r => r.ociURL))

def portOf : Option ℤ := req.port.or (latest.bind (fun r => r.port))

def proxyOf : Option String := req.proxyURL.or (latest.bind (fun r => r.proxyURL))

/-- There is a source, and the columns can hold what the request gives and what
it leaves to the latest revision. -/
structure Storable : Prop where
  source : (imageOf req latest).isSome = true ∨ (proxyOf req latest).isSome = true
  port : (portOf req latest).all Queries.isInt4 = true
  ociURL : (imageOf req latest).all Queries.storable = true
  proxyURL : (proxyOf req latest).all Queries.storable = true

variable (user : UserAccount) (p : UUID)

theorem merge_ociURL : (mergeSettings user req p latest).ociURL = imageOf req latest := by
  cases h : req.ociURL <;> simp [mergeSettings, imageOf, h]

theorem merge_port : (mergeSettings user req p latest).port = portOf req latest := by
  cases h : req.port <;> simp [mergeSettings, portOf, h]

theorem merge_proxyURL : (mergeSettings user req p latest).proxyURL = proxyOf req latest := by
  cases h : req.proxyURL <;> simp [mergeSettings, proxyOf, h]

theorem storable_iff : Storable req latest ↔
    ¬ ((mergeSettings user req p latest).ociURL = none ∧
      (mergeSettings user req p latest).proxyURL = none) ∧
      (mergeSettings user req p latest).fits = true := by
  rw [Queries.NewRevision.fits, merge_ociURL, merge_port, merge_proxyURL]
  constructor
  · rintro ⟨hs, h₁, h₂, h₃⟩
    refine ⟨fun ⟨ho, hp⟩ => ?_, by simp [h₁, h₂, h₃]⟩
    simp [ho, hp] at hs
  · rintro ⟨hs, hf⟩
    simp only [Bool.and_eq_true] at hf
    refine ⟨?_, hf.1.1, hf.1.2, hf.2⟩
    cases ho : imageOf req latest with
    | some url => exact Or.inl rfl
    | none => exact Or.inr (Option.isSome_iff_ne_none.mpr fun hp => hs ⟨ho, hp⟩)

/-- The steps of the transaction before the gateway is applied. -/
def transactionSteps : List (StepName Stmt) :=
  .stmt .getProjectSummary :: revisionSteps ++
    if (imageOf req latest).isSome then eventSteps else []

end Request

/-! ## The transaction -/

def Output.status : Output → Option ℕ
  | .response status _ => some status
  | .mail _ _ => none

def Succeeds (o : Output) : Prop := ∃ status ∈ Output.status o, 200 ≤ status ∧ status < 300

section Transaction
variable {σ : Type} (me : σ) (fails : StepName Stmt → Bool) {srv₀ srv : Srv σ} {s : Ses}
variable (env : Env) (user : UserAccount) (req : SettingsRequest)

/-- The response is given whether or not the gateway could be applied. -/
theorem wp_report {ws : List Image} (h : During srv₀ srv s ws)
    (org : Organization) (ps : ProjectSummary) (Q : Except DbError Unit → Srv σ → Ses → Prop)
    (hq : ∀ srv' s', srv'.wal = srv₀.wal → srv'.db = srv₀.db → s'.pending = ws →
      s'.aborted = fails (.stmt .getProjectSummaries) → .response 200 (.summary ps) ∈ s'.out →
      Q (.ok ()) srv' s') :
    Prog.Wp backend me fails (show Api (Except DbError Unit) from do
      let _ ← applyGateway env (.tx 1) org
      respondJSON (.summary ps)
      return .ok ()) Q srv s := by
  refine wp_bind backend me fails _ _ _ _ _ ?_
  refine wp_tx backend me fails _ _ _ _ _ _ _ h.live h.opened (fun e hf => ?_)
    fun pss ws' hread hf => ?_
  · have hfails : fails (.stmt .getProjectSummaries) = true := hf.resolve_right nofun
    exact hq _ _ h.wal h.db h.pending hfails.symm
      (List.mem_append_right _ (List.mem_singleton_self _))
  · cases hf
    have h₁ := during_push h []
    rw [List.append_nil] at h₁
    have hdone : ∀ srv' s', srv'.wal = srv₀.wal → srv'.db = srv₀.db →
        s'.pending = (s.push []).pending → s'.aborted = (s.push []).aborted →
        .response 200 (.summary ps) ∈ s'.out → Q (.ok ()) srv' s' := fun srv' s' hw hd hp ha ho =>
      hq srv' s' hw hd (hp.trans h₁.pending) (ha.trans (h₁.live.trans hread.symm)) ho
    exact wp_call backend me fails _ _ _ _ _
      (fun _ => hdone _ _ h₁.wal h₁.db rfl rfl
        (List.mem_append_right _ (List.mem_singleton_self _)))
      (fun _ => hdone _ _ h₁.wal h₁.db rfl rfl
        (List.mem_append_right _ (List.mem_singleton_self _)))

/-- The transaction ends silently or with a refusal, or with its response given
and its revision pending. -/
theorem wp_saveSettings (h : During srv₀ srv s []) (p : UUID) (v : ProjectRow)
    (hv : srv₀.db.row .project p = some v) (hr : Ready srv₀.db srv₀.next p user.id)
    (Q : Except DbError Unit → Srv σ → Ses → Prop)
    (he : ∀ r srv' s', srv'.ext = srv₀.ext → (∀ o ∈ s'.out, ¬ Succeeds o) →
      ¬ (Storable req (Queries.latestRevision srv₀.db p v) ∧
        ∀ st ∈ transactionSteps req (Queries.latestRevision srv₀.db p v), fails st = false) →
      Q r srv' s')
    (hok : ∀ srv' s', Storable req (Queries.latestRevision srv₀.db p v) →
      (∀ st ∈ transactionSteps req (Queries.latestRevision srv₀.db p v), fails st = false) →
      srv'.wal = srv₀.wal → srv'.db = srv₀.db → s'.pending ≠ [] →
      Sound schema (srv₀.db.replay s'.pending) → s'.aborted = fails (.stmt .getProjectSummaries) →
      (∃ ps res, .response 200 (.summary ps) ∈ s'.out ∧ ps.latestDeploymentRevision = some res ∧
        Pointed (srv₀.db.replay s'.pending) p res) → Q (.ok ()) srv' s') :
    (saveSettings env user req p (.tx 1)).Wp backend me fails Q srv s := by
  obtain ⟨ps, hps⟩ := Summaries.sound_summary srv₀.db hr.sound p v hv
  have hsum : Queries.getProjectSummary p (s.tick srv (.tx 1)) (s.view srv.db) = .ok (ps, []) := by
    rw [during_view h, Store.replay_nil, Queries.getProjectSummary, Queries.select, hv]
    simp [hps, Queries.collectExactlyOneRow, Except.map]
  have hlatest : ps.latestDeploymentRevision = Queries.latestRevision srv₀.db p v := by
    obtain ⟨o, -, rfl⟩ := (Summaries.summary_some srv₀.db p v ps).mp hps
    rfl
  rw [← hlatest] at he hok
  have hquiet : ∀ s' : Ses, s'.out = [] → ∀ o ∈ s'.out, ¬ Succeeds o := fun s' hs o ho => by
    rw [hs] at ho
    cases ho
  refine wp_tx backend me fails _ _ _ _ _ _ _ h.live h.opened (fun e hf => ?_)
    fun ps' ws hread hf => ?_
  · refine he _ _ _ h.ext (hquiet _ h.out) fun hall => ?_
    rcases hf with hf | hf
    · exact absurd hf (by simp [hall.2 (.stmt .getProjectSummary) (by simp [transactionSteps])])
    · exact absurd (hsum.symm.trans hf) (by simp)
  · cases hsum.symm.trans hf
    have h₁ := during_push h []
    rw [List.append_nil] at h₁
    change Prog.Wp _ _ _ (if _ then _ else _) _ _ _
    split
    · next hnone =>
      refine he _ _ _ h₁.ext (fun o ho => ?_) fun hall => ?_
      · change o ∈ (s.push []).out++_ at ho
        rw [h₁.out] at ho
        cases List.mem_singleton.mp ho
        simp [Succeeds, Output.status]
      · exact ((storable_iff req _ user p).mp hall.1).1 hnone
    · next hsome =>
      refine wp_bind backend me fails _ _ _ _ _ ?_
      refine wp_createDeploymentRevision me fails h₁ 0 _ hr _ (fun e srv' s' hs hn => ?_)
        fun res srv' s' ws hfits hrev h₂ hne hoci hstored hpointed => ?_
      · refine he _ _ _ hs.1 (hquiet _ hs.2) fun hall => hn ?_
        exact ⟨((storable_iff req _ user p).mp hall.1).2,
          fun st hm => hall.2 st (by simp [transactionSteps, hm])⟩
      · have hst := (storable_iff req _ user p).mpr ⟨hsome, hfits⟩
        rw [merge_ociURL] at hoci
        have hreport : ∀ srv' s' ws', During srv₀ srv' s' (ws++ws') →
            Sound schema (srv₀.db.replay (ws++ws')) → Pointed (srv₀.db.replay (ws++ws')) p res →
            (∀ st ∈ transactionSteps req ps.latestDeploymentRevision, fails st = false) →
            Prog.Wp backend me fails (show Api (Except DbError Unit) from do
              let _ ← applyGateway env (.tx 1) ps.organization
              respondJSON (.summary { ps with
                latestDeploymentRevisionID := some res.id
                latestDeploymentRevision := some res })
              return .ok ()) Q srv' s' := fun srv' s' ws' hd hs hpointed hall =>
          wp_report me fails env hd _ _ _ fun srv' s' hw hdb hp ha ho =>
            hok srv' s' hst hall hw hdb (by simp [hp, hne]) (hp.symm ▸ hs) ha
              ⟨_, res, ho, rfl, hp.symm ▸ hpointed⟩
        refine wp_bind backend me fails _ _ _ _ _ ?_
        change Prog.Wp _ _ _ (if _ then _ else _) _ _ _
        split
        · next himage =>
          rw [hoci] at himage
          refine wp_addDeploymentRevisionEvent me fails h₂ 0 p res hstored .progressing none _
            (fun e srv' s' hs hn => ?_) hpointed fun srv' s' ws' hev h₃ hsound hpointed' => ?_
          · exact he _ _ _ hs.1 (hquiet _ hs.2) fun hall =>
              hn fun st hm => hall.2 st (by simp [transactionSteps, himage, hm])
          · have hall : ∀ st ∈ transactionSteps req ps.latestDeploymentRevision,
              fails st = false := by
              simp only [transactionSteps, himage, if_true, List.cons_append, List.forall_mem_cons,
                List.forall_mem_append]
              exact ⟨hread, hrev, hev⟩
            exact hreport _ _ ws' h₃ hsound hpointed' hall
        · next himage =>
          rw [hoci] at himage
          have hall : ∀ st ∈ transactionSteps req ps.latestDeploymentRevision,
            fails st = false := by
            simp only [transactionSteps, himage, Bool.false_eq_true, if_false, List.append_nil,
              List.forall_mem_cons]
            exact ⟨hread, hrev⟩
          exact hreport _ _ [] (by rwa [List.append_nil]) (by simpa using hstored.sound)
            (by rwa [List.append_nil]) hall

end Transaction

/-! ## The request -/

section Report
variable {σ : Type} (me : σ) (fails : StepName Stmt → Bool)
variable (env : Env) (user : UserAccount)

/-- Without a new commit no response of success was given and no gateway changed. -/
def Honest (srv srv' : Srv σ) (s : Ses) : Prop :=
  srv'.wal.length = srv.wal.length → (∀ o ∈ s.out, ¬ Succeeds o) ∧ srv'.ext = srv.ext

/-- A request that is allowed, has a revision to store and none of whose steps
fails before it applies the gateway. -/
structure Responds (db : Db) (p : UUID) (v : ProjectRow) (req : SettingsRequest) : Prop where
  checked : checkSettings env req = .ok ()
  named : p ≠ 0
  project : db.row .project p = some v
  member : Queries.isMember db user.id v.organizationID = true
  access : fails (.stmt .canUserAccessProject) = false
  begins : fails .begin = false
  storable : Storable req (Queries.latestRevision db p v)
  steps : ∀ st ∈ transactionSteps req (Queries.latestRevision db p v), fails st = false

/-- The request responds, and then its query for the gateway or its commit fails. -/
def RespondsTooEarly (db : Db) (projectID : Param UUID) (body : Option SettingsRequest) : Prop :=
  ∃ p v req, projectID = .value p ∧ body = some req ∧ Responds fails env user db p v req ∧
    (fails (.stmt .getProjectSummaries) = true ∨ fails .commit = true)

variable {fails env user} in
theorem quiet_honest {srv srv' : Srv σ} {s : Ses} {projectID : Param UUID}
    {body : Option SettingsRequest} (hext : srv'.ext = srv.ext) (hout : ∀ o ∈ s.out, ¬ Succeeds o)
    (hn : ¬ RespondsTooEarly fails env user srv.db projectID body) :
    Honest srv srv' s ↔ ¬ RespondsTooEarly fails env user srv.db projectID body :=
  ⟨fun _ => hn, fun _ _ => ⟨hout, hext⟩⟩

theorem refused_quiet (status : ℕ) (body : Body) (h : 300 ≤ status) (out : List Output)
    (hout : ∀ o ∈ out, ¬ Succeeds o) : ∀ o ∈ out++[.response status body], ¬ Succeeds o := by
  intro o ho
  rcases List.mem_append.mp ho with ho | ho
  · exact hout o ho
  · cases List.mem_singleton.mp ho
    rintro ⟨st, hst, hs⟩
    cases hst
    omega

theorem labelled_ready (x : Ownership.Conf σ) (hl : Labelled Ownership.labelling x)
    (hs : Sound schema x.srv.db) (p userID : UUID) (v : ProjectRow)
    (hv : x.srv.db.row .project p = some v)
    (hm : Queries.isMember x.srv.db userID v.organizationID = true) :
    Ready x.srv.db x.srv.next p userID := by
  refine ⟨hs, fun d hd => ?_, fun e he => ?_, ?_, ⟨v, hv⟩⟩
  · exact labelled_fresh Ownership.labelling x hl .deploymentRevision d hd
  · exact labelled_fresh Ownership.labelling x hl .deploymentRevisionEvent e he
  · obtain ⟨m, hm⟩ := Option.isSome_iff_exists.mp hm
    exact hs.parent membershipUser (by simp [schema, foreignKeys]) _ m userID hm rfl

theorem reaches_ready (w : ApiWorld σ) [DecidableEq σ] (hw : Reaches env w) (p userID : UUID)
    (v : ProjectRow) (hv : w.cfg.srv.db.row .project p = some v)
    (hm : Queries.isMember w.cfg.srv.db userID v.organizationID = true) :
    Ready w.cfg.srv.db w.cfg.srv.next p userID :=
  let ⟨hl, hs⟩ := reaches_labelled env w hw
  labelled_ready w.cfg hl hs p userID v hv hm

theorem access_ok (db : Db) (userID p : UUID) (t : Tick) (b : Bool) (ws : List Image)
    (hf : Queries.canUserAccessProject userID p t db = .ok (b, ws)) : ws = [] ∧
      (b = false → ∀ v, db.row .project p = some v →
        Queries.isMember db userID v.organizationID = false) ∧
      (b = true → ∃ v, db.row .project p = some v ∧
        Queries.isMember db userID v.organizationID = true) := by
  simp only [Queries.canUserAccessProject, Queries.select, Except.map] at hf
  cases hf
  refine ⟨rfl, fun hb v hv => ?_, fun hb => ?_⟩
  · simpa [hv] using hb
  · cases hv : db.row .project p with
    | none => simp [hv] at hb
    | some v => exact ⟨v, rfl, by simpa [hv] using hb⟩

/-- The transaction of an allowed request and what the handler answers to its outcome. -/
theorem wp_transaction (srv : Srv σ) (req : SettingsRequest) (p : UUID) (v : ProjectRow)
    (hv : srv.db.row .project p = some v) (hnamed : p ≠ 0) (hcheck : checkSettings env req = .ok ())
    (hm : Queries.isMember srv.db user.id v.organizationID = true)
    (hacc : fails (.stmt .canUserAccessProject) = false)
    (hr : Ready srv.db srv.next p user.id) :
    Prog.Wp backend me fails (show Api Unit from do
      match ← runTx .pool (saveSettings env user req p) with
      | .error _ => internalServerError
      | .ok () => return)
      (fun _ srv' s' => Honest srv srv' s' ↔
        ¬ RespondsTooEarly fails env user srv.db (.value p) (some req))
      (srv.apply ⟨me, srv.wal.length, []⟩).tock {} := by
  have hnil : ∀ o ∈ ([] : List Output), ¬ Succeeds o := by simp
  refine wp_begin backend me fails _ _ _ _ rfl (fun hn => ?_) fun hbegin => ?_
  · refine quiet_honest rfl (refused_quiet 500 _ (by decide) [] hnil) ?_
    rintro ⟨p', v', req', hp, -, hresp, -⟩
    exact absurd hresp.begins (by simp [hn])
  · change Prog.Wp _ _ _ (Prog.bind (Prog.bind (saveSettings env user req p (.tx 1)) _) _) _ _ _
    rw [Prog.bind_assoc]
    refine wp_bind backend me fails _ _ _ _ _ ?_
    have hbegun := during_begin (srv.apply ⟨me, srv.wal.length, []⟩).tock ({} : Ses) srv
      rfl rfl rfl (Nat.le_succ _) rfl
    refine wp_saveSettings me fails env user req (hbegun _ _) p v hv hr _
      (fun r srv' s' hext hout hn => ?_) fun srv' s' hst hall hwal _ hne _ hab ⟨ps, _, hps, _⟩ => ?_
    · have hn : ¬ RespondsTooEarly fails env user srv.db (.value p) (some req) := by
        rintro ⟨p', v', req', hp, hb, hresp, -⟩
        cases hp
        cases hb
        cases hv.symm.trans hresp.project
        exact hn ⟨hresp.storable, hresp.steps⟩
      cases r with
      | error e => exact quiet_honest hext (refused_quiet 500 _ (by decide) _ hout) hn
      | ok =>
        exact wp_commit backend me fails _ _ _ _
          (fun _ => quiet_honest hext (refused_quiet 500 _ (by decide) _ hout) hn)
          (fun _ _ => quiet_honest hext hout hn)
    · have hresp : Responds fails env user srv.db p v req :=
        ⟨hcheck, hnamed, hv, hm, hacc, hbegin, hst, hall⟩
      refine wp_commit backend me fails _ _ _ _ (fun hlate => ?_) fun hc ha => ?_
      · refine iff_of_false (fun hh => ?_) (fun hn => hn ⟨p, v, req, rfl, rfl, hresp, ?_⟩)
        · exact (hh (congrArg List.length hwal)).1 _ (List.mem_append_left _ hps)
            (by simp [Succeeds, Output.status])
        · rw [← hab]
          exact hlate.symm
      · refine iff_of_true (fun hh => ?_) ?_
        · have hlong : (srv'.apply ⟨me, s'.since, s'.pending⟩).wal =
              srv'.wal++[⟨me, s'.since, s'.pending⟩] := if_neg (by simpa using hne)
          change (srv'.apply ⟨me, s'.since, s'.pending⟩).wal.length = _ at hh
          rw [hlong, hwal] at hh
          simp at hh
        · rintro ⟨p', v', req', -, -, -, hlate⟩
          rcases hlate with hl | hl
          · rw [hab, hl] at ha
            cases ha
          · rw [hc] at hl
            cases hl

variable (projectID : Param UUID) (body : Option SettingsRequest)

/-- What a settings request reports is committed for exactly those choices of
failing steps with which it does not respond too early. -/
theorem putProjectSettings_honest_iff (w : ApiWorld σ) [DecidableEq σ] (hw : Reaches env w) :
    Honest w.cfg.srv
      ((putProjectSettings env user projectID body).run backend me fails w.cfg.srv {}).2.1
      ((putProjectSettings env user projectID body).run backend me fails w.cfg.srv {}).2.2 ↔
      ¬ RespondsTooEarly fails env user w.cfg.srv.db projectID body := by
  have hready := reaches_ready env w hw
  generalize w.cfg.srv = srv at hready
  have hnil : ∀ o ∈ ([] : List Output), ¬ Succeeds o := by simp
  change Prog.Wp backend me fails (putProjectSettings env user projectID body)
    (fun _ srv' s' => Honest srv srv' s' ↔ ¬ RespondsTooEarly fails env user srv.db projectID body)
    srv {}
  cases body with
  | none =>
    refine quiet_honest rfl (refused_quiet 400 _ (by decide) [] hnil) ?_
    rintro ⟨p, v, req, -, hb, -⟩
    cases hb
  | some req =>
    simp only [putProjectSettings, Prog.bind_eq]
    cases hcheck : checkSettings env req with
    | error text =>
      refine quiet_honest rfl (refused_quiet 400 (.text text) (by decide) [] hnil) ?_
      rintro ⟨p, v, req', -, hb, hresp, -⟩
      cases hb
      cases hcheck.symm.trans hresp.checked
    | ok =>
      change Prog.Wp _ _ _ (withProject user projectID _) _ _ _
      cases projectID with
      | absent =>
        refine quiet_honest rfl hnil ?_
        rintro ⟨p, v, req', hp, -⟩
        cases hp
      | invalid =>
        refine quiet_honest rfl (refused_quiet 400 _ (by decide) [] hnil) ?_
        rintro ⟨p, v, req', hp, -⟩
        cases hp
      | value p =>
        refine wp_pool backend me fails _ _ _ _ _ _ (fun e hf => ?_) fun b ws hacc hf => ?_
        · refine quiet_honest rfl (refused_quiet 500 _ (by decide) [] hnil) ?_
          rintro ⟨p', v, req', hp, -, hresp, -⟩
          have hfails := hf.resolve_right
            (by simp [Queries.canUserAccessProject, Queries.select, Except.map])
          exact absurd hresp.access (by simp [hfails])
        · obtain ⟨rfl, hdenied, hgranted⟩ := access_ok srv.db user.id p _ b ws hf
          clear hf
          cases b with
          | false =>
            refine quiet_honest rfl (refused_quiet 404 _ (by decide) [] hnil) ?_
            rintro ⟨p', v, req', hp, -, hresp, -⟩
            cases hp
            exact absurd hresp.member (by simp [hdenied rfl v hresp.project])
          | true =>
            change Prog.Wp _ _ _ (if p = 0 then pure () else _) _ _ _
            split
            · next hzero =>
              refine quiet_honest rfl hnil ?_
              rintro ⟨p', v, req', hp, -, hresp, -⟩
              cases hp
              exact hresp.named hzero
            · next hnamed =>
              obtain ⟨v, hv, hm⟩ := hgranted rfl
              exact wp_transaction me fails env user srv req p v hv hnamed hcheck hm hacc
                (hready p user.id v hv hm)

end Report

/-- An allowed request with a revision to store commits it when no step fails. -/
theorem putProjectSettings_commits {σ : Type} (me : σ) (env : Env) (user : UserAccount)
    (srv : Srv σ) (req : SettingsRequest) (p : UUID) (v : ProjectRow)
    (hv : srv.db.row .project p = some v) (hnamed : p ≠ 0) (hcheck : checkSettings env req = .ok ())
    (hm : Queries.isMember srv.db user.id v.organizationID = true)
    (hr : Ready srv.db srv.next p user.id)
    (hst : Storable req (Queries.latestRevision srv.db p v)) :
    (putProjectSettings env user (.value p) (some req)).Wp backend me (fun _ => false)
      (fun _ srv' _ => srv'.wal.length = srv.wal.length+1 ∧ Sound schema srv'.db) srv {} := by
  have hsteps : ∀ st ∈ transactionSteps req (Queries.latestRevision srv.db p v),
      (fun _ => false : StepName Stmt → Bool) st = false := fun _ _ => rfl
  simp only [putProjectSettings, Prog.bind_eq, hcheck]
  change Prog.Wp _ _ _ (withProject user (.value p) _) _ _ _
  refine wp_pool backend me _ _ _ _ _ _ _ (fun e hf => ?_) fun b ws _ hf => ?_
  · simp [Queries.canUserAccessProject, Queries.select, Except.map] at hf
  · obtain ⟨rfl, hdenied, -⟩ := access_ok srv.db user.id p _ b ws hf
    cases b with
    | false => exact absurd hm (by simp [hdenied rfl v hv])
    | true =>
      change Prog.Wp _ _ _ (if p = 0 then pure () else _) _ _ _
      rw [if_neg hnamed]
      refine wp_begin backend me _ _ _ _ _ rfl (fun hn => by cases hn) fun _ => ?_
      change Prog.Wp _ _ _ (Prog.bind (Prog.bind (saveSettings env user req p (.tx 1)) _) _) _ _ _
      rw [Prog.bind_assoc]
      refine wp_bind backend me _ _ _ _ _ _ ?_
      have hbegun := during_begin (srv.apply ⟨me, srv.wal.length, []⟩).tock ({} : Ses) srv
        rfl rfl rfl (Nat.le_succ _) rfl
      refine wp_saveSettings me _ env user req (hbegun _ _) p v hv hr _
        (fun r srv' s' _ _ hn => absurd ⟨hst, hsteps⟩ hn)
        fun srv' s' _ _ hwal hdb hne hsound hab _ => ?_
      refine wp_commit backend me _ _ _ _ _ (fun hn => ?_) fun _ _ => ?_
      · rw [hab] at hn
        simp at hn
      · have hlong : (srv'.apply ⟨me, s'.since, s'.pending⟩).wal =
            srv'.wal++[⟨me, s'.since, s'.pending⟩] := if_neg (by simpa using hne)
        constructor
        · change (srv'.apply ⟨me, s'.since, s'.pending⟩).wal.length = _
          rw [hlong, hwal, List.length_append, List.length_singleton]
        · change Sound schema (srv'.db.replay s'.pending)
          rwa [hdb]

def demoSettings : Api Unit :=
  putProjectSettings Env.demo ⟨⟨0, "ada@acme.com"⟩, 1⟩ (.value 4)
    (some ⟨none, none, true, true, some "https://mcp.acme.dev/api"⟩)

/-- With a commit that fails. -/
theorem putProjectSettings_honest_iff_demo : ∃ w, demoRun = some w ∧
    (Honest w.cfg.srv (demoSettings.run backend () (fun st => st = .commit) w.cfg.srv {}).2.1
      (demoSettings.run backend () (fun st => st = .commit) w.cfg.srv {}).2.2 ↔
      ¬ RespondsTooEarly (fun st => st = .commit) Env.demo ⟨⟨0, "ada@acme.com"⟩, 1⟩ w.cfg.srv.db
        (.value 4) (some ⟨none, none, true, true, some "https://mcp.acme.dev/api"⟩)) := by
  obtain ⟨w, hw, hr⟩ := demoRun_reaches
  exact ⟨w, hw, putProjectSettings_honest_iff () _ Env.demo _ _ _ w hr⟩

/-- The success is on its way before the commit fails. -/
theorem uncommitted_success : ∃ w, demoRun = some w ∧ Reaches Env.demo w ∧
    ¬ Honest w.cfg.srv (demoSettings.run backend () (fun st => st = .commit) w.cfg.srv {}).2.1
      (demoSettings.run backend () (fun st => st = .commit) w.cfg.srv {}).2.2 := by
  obtain ⟨w, hw, hr⟩ := demoRun_reaches
  have h : demoRun.map (fun w =>
      let r := demoSettings.run backend () (fun st => st = .commit) w.cfg.srv {}
      (decide (r.2.1.wal.length = w.cfg.srv.wal.length), r.2.2.out.map Output.status)) =
      some (true, [some 200, some 500]) := by
    decide
  rw [hw] at h
  obtain ⟨hwal, hout⟩ := Prod.mk.inj (Option.some.inj h)
  refine ⟨w, hw, hr, fun hh => ?_⟩
  obtain ⟨o, ho, hs⟩ := List.mem_map.mp (hout ▸ List.mem_cons_self (a := some 200))
  refine (hh (of_decide_eq_true hwal)).1 o ho ?_
  cases o with
  | response status body =>
    cases hs
    simp [Succeeds, Output.status]
  | mail => cases hs

end Jetski.Settings
