import Jetski.Settings

/-!
# The response to new settings

A settings request answers with the summary that it loaded before the write,
patched with the row that the insert returned. The insert returns no build
number, and the event of the new revision is not patched in.
-/

set_option autoImplicit false

namespace Jetski.SettingsResponse

open Relational Schema Jetski.Types Database Handlers Reachability Settings

structure Same (ps ps' : ProjectSummary) : Prop where
  revision : ps.latestDeploymentRevision = ps'.latestDeploymentRevision
  revisionID : ps.latestDeploymentRevisionID = ps'.latestDeploymentRevisionID
  event : ps.latestDeploymentRevisionEvent = ps'.latestDeploymentRevisionEvent
  eventID : ps.latestDeploymentRevisionEventID = ps'.latestDeploymentRevisionEventID

theorem getProjectSummary_row (db : Db) (p : UUID) (ps : ProjectSummary)
    (h : (db.row .project p).bind (Queries.summary db p) = some ps) (t : Tick) :
    Queries.getProjectSummary p t db = .ok (ps, []) := by
  rw [Queries.getProjectSummary, Queries.select, h]
  rfl

/-- The summary of the query numbers the revision that the project points to. -/
theorem summary_numbered (db : Db) (hs : Sound schema db) (p : UUID) (res : DeploymentRevision)
    (h : Pointed db p res) (t : Tick) :
    ∃ ps dr, Queries.getProjectSummary p t db = .ok (ps, []) ∧
      ps.latestDeploymentRevision = some dr ∧ 0 < dr.buildNumber := by
  obtain ⟨v, hv, hlatest⟩ := h.project
  obtain ⟨r, hr, hproject⟩ := h.revision
  obtain ⟨ps, hps⟩ := Summaries.sound_summary db hs p v hv
  have hrow : (db.row .project p).bind (Queries.summary db p) = some ps := by
    rw [hv, Option.bind_some, hps]
  obtain ⟨o, -, rfl⟩ := (Summaries.summary_some db p v ps).mp hps
  have hcount : 0 < (db.scan .deploymentRevision).countP (fun r => r.2.projectID = p) :=
    List.countP_pos_iff.mpr ⟨(res.id, r), (db.mem_scan .deploymentRevision res.id r).mpr hr,
      by simpa using hproject⟩
  have hrevision : Queries.latestRevision db p v = some { (r : DeploymentRevisionRow) with
      id := res.id
      buildNumber := (db.scan .deploymentRevision).countP (fun r => r.2.projectID = p) } := by
    simp only [Queries.latestRevision, hlatest, Option.bind_eq_bind, Option.bind_some, hr]
    rfl
  exact ⟨_, _, getProjectSummary_row db p _ hrow t, hrevision, hcount⟩

section Response
variable {σ : Type} (me : σ) (fails : StepName Stmt → Bool) (env : Env) (user : UserAccount)

/-- A response that is the only one differs from the summary loaded afterwards. -/
def Outdated (projectID : Param UUID) (srv' : Srv σ) (s' : Ses) : Prop :=
  ∀ ps, s'.out = [.response 200 (.summary ps)] → ∀ t, ∃ p ps', projectID = .value p ∧
    Queries.getProjectSummary p t srv'.db = .ok (ps', []) ∧ ¬ Same ps ps'

theorem refused_outdated (projectID : Param UUID) (srv' : Srv σ) (s' : Ses)
    (h : ∀ o ∈ s'.out, ¬ Succeeds o) : Outdated projectID srv' s' := by
  intro ps hout
  rw [hout] at h
  have hrefused := h _ (.head _)
  simp [Succeeds, Output.status] at hrefused

theorem wp_transaction (srv : Srv σ) (req : SettingsRequest) (p : UUID) (v : ProjectRow)
    (hv : srv.db.row .project p = some v) (hr : Ready srv.db srv.next p user.id) :
    Prog.Wp backend me fails (show Api Unit from do
      match ← runTx .pool (saveSettings env user req p) with
      | .error _ => internalServerError
      | .ok () => return)
      (fun _ srv' s' => Outdated (.value p) srv' s')
      (srv.apply ⟨me, srv.wal.length, []⟩).tock {} := by
  have hnil : ∀ o ∈ ([] : List Output), ¬ Succeeds o := by simp
  refine wp_begin backend me fails _ _ _ _ rfl (fun _ => ?_) fun _ => ?_
  · exact refused_outdated _ _ _ (refused_quiet 500 _ (by decide) [] hnil)
  · change Prog.Wp _ _ _ (Prog.bind (Prog.bind (saveSettings env user req p (.tx 1)) _) _) _ _ _
    rw [Prog.bind_assoc]
    refine wp_bind backend me fails _ _ _ _ _ ?_
    have hbegun := during_begin (srv.apply ⟨me, srv.wal.length, []⟩).tock ({} : Ses) srv
      rfl rfl rfl (Nat.le_succ _) rfl
    refine wp_saveSettings me fails env user req (hbegun _ _) p v hv hr _
      (fun r srv' s' _ hout _ => ?_) fun srv' s' _ _ _ hdb _ hsound _ hresponse => ?_
    · cases r with
      | error e => exact refused_outdated _ _ _ (refused_quiet 500 _ (by decide) _ hout)
      | ok =>
        exact wp_commit backend me fails _ _ _ _
          (fun _ => refused_outdated _ _ _ (refused_quiet 500 _ (by decide) _ hout))
          (fun _ _ => refused_outdated _ _ _ hout)
    · obtain ⟨ps, res, hps, hlatest, hpointed⟩ := hresponse
      refine wp_commit backend me fails _ _ _ _ (fun _ => ?_) fun _ _ => ?_
      · intro ps' hout
        change s'.out++[_] = _ at hout
        have hlength := congrArg List.length hout
        have hpos := List.length_pos_of_mem hps
        rw [List.length_append, List.length_singleton, List.length_singleton] at hlength
        omega
      · intro ps' hout t
        change s'.out = _ at hout
        rw [hout] at hps
        cases List.mem_singleton.mp hps
        rw [← hdb] at hsound hpointed
        obtain ⟨ps', dr, hquery, hdr, hnumber⟩ := summary_numbered _ hsound p res hpointed t
        refine ⟨p, ps', rfl, hquery, fun hsame => ?_⟩
        have hrevision := hlatest.symm.trans (hsame.revision.trans hdr)
        have hunnumbered := hpointed.unnumbered
        rw [Option.some.inj hrevision] at hunnumbered
        omega

/-- Whichever steps fail, a settings request that is answered with a summary
alone is answered with another one than is loaded right afterwards. -/
theorem response_outdated (projectID : Param UUID) (body : Option SettingsRequest) (w : ApiWorld σ)
    [DecidableEq σ] (hw : Reaches env w) (ps : ProjectSummary)
    (hout : ((putProjectSettings env user projectID body).run backend me fails
      w.cfg.srv {}).2.2.out = [.response 200 (.summary ps)]) (t : Tick) :
    ∃ p ps', projectID = .value p ∧ Queries.getProjectSummary p t
      ((putProjectSettings env user projectID body).run backend me fails w.cfg.srv {}).2.1.db =
        .ok (ps', []) ∧ ¬ Same ps ps' := by
  have hready := reaches_ready env w hw
  generalize w.cfg.srv = srv at hready hout ⊢
  have hnil : ∀ o ∈ ([] : List Output), ¬ Succeeds o := by simp
  suffices h : Prog.Wp backend me fails (putProjectSettings env user projectID body)
      (fun _ srv' s' => Outdated projectID srv' s') srv {} from h ps hout t
  cases body with
  | none => exact refused_outdated _ _ _ (refused_quiet 400 _ (by decide) [] hnil)
  | some req =>
    simp only [putProjectSettings, Prog.bind_eq]
    cases hcheck : checkSettings env req with
    | error text =>
      exact refused_outdated _ _ _ (refused_quiet 400 (.text text) (by decide) [] hnil)
    | ok =>
      change Prog.Wp _ _ _ (withProject user projectID _) _ _ _
      cases projectID with
      | absent => exact refused_outdated _ _ _ hnil
      | invalid => exact refused_outdated _ _ _ (refused_quiet 400 _ (by decide) [] hnil)
      | value p =>
        refine wp_pool backend me fails _ _ _ _ _ _ (fun e _ => ?_) fun b ws _ hf => ?_
        · exact refused_outdated _ _ _ (refused_quiet 500 _ (by decide) [] hnil)
        · obtain ⟨rfl, -, hgranted⟩ := access_ok srv.db user.id p _ b ws hf
          clear hf
          cases b with
          | false => exact refused_outdated _ _ _ (refused_quiet 404 _ (by decide) [] hnil)
          | true =>
            change Prog.Wp _ _ _ (if p = 0 then pure () else _) _ _ _
            split
            · exact refused_outdated _ _ _ hnil
            · obtain ⟨v, hv, hm⟩ := hgranted rfl
              exact wp_transaction me fails env user srv req p v hv (hready p user.id v hv hm)

end Response

def summaryOf : List Output → Option ProjectSummary
  | [.response 200 (.summary ps)] => some ps
  | _ => none

theorem summaryOf_some (out : List Output) (ps : ProjectSummary) (h : summaryOf out = some ps) :
    out = [.response 200 (.summary ps)] := by
  unfold summaryOf at h
  split at h
  · cases h
    rfl
  · cases h

theorem response_outdated_demo : ∃ w, demoRun = some w ∧ ∃ ps p ps',
    Queries.getProjectSummary p ⟨0, 0, 0⟩
      (demoSettings.run backend () (fun _ => false) w.cfg.srv {}).2.1.db = .ok (ps', []) ∧
    ¬ Same ps ps' := by
  obtain ⟨w, hw, hr⟩ := demoRun_reaches
  have h : (demoRun.bind (fun w => summaryOf
      (demoSettings.run backend () (fun _ => false) w.cfg.srv {}).2.2.out)).isSome := by
    decide
  rw [hw] at h
  obtain ⟨ps, hps⟩ := Option.isSome_iff_exists.mp h
  obtain ⟨p, ps', -, hquery, hsame⟩ := response_outdated () (fun _ => false) Env.demo
    ⟨⟨0, "ada@acme.com"⟩, 1⟩ (.value 4) (some ⟨none, none, true, true,
      some "https://mcp.acme.dev/api"⟩) w hr ps (summaryOf_some _ ps hps) ⟨0, 0, 0⟩
  exact ⟨w, hw, ps, p, ps', hquery, hsame⟩

/-- The second revision of a project is answered with the build number 0. -/
theorem response_unnumbered : ∃ w, demoRun = some w ∧ Reaches Env.demo w ∧ ∃ ps ps',
    (demoSettings.run backend () (fun _ => false) w.cfg.srv {}).2.2.out =
      [.response 200 (.summary ps)] ∧
    Queries.getProjectSummary 4 ⟨0, 0, 0⟩
      (demoSettings.run backend () (fun _ => false) w.cfg.srv {}).2.1.db = .ok (ps', []) ∧
    ps.latestDeploymentRevision.map (fun dr => dr.buildNumber) = some 0 ∧
    ps'.latestDeploymentRevision.map (fun dr => dr.buildNumber) = some 2 ∧ ¬ Same ps ps' := by
  obtain ⟨w, hw, hr⟩ := demoRun_reaches
  have h : demoRun.any (fun w =>
      let r := demoSettings.run backend () (fun _ => false) w.cfg.srv {}
      (summaryOf r.2.2.out).any (fun ps =>
        ((r.2.1.db.row .project 4).bind (Queries.summary r.2.1.db 4)).any (fun ps' =>
          decide (ps.latestDeploymentRevision.map (fun dr => dr.buildNumber) = some 0 ∧
            ps'.latestDeploymentRevision.map (fun dr => dr.buildNumber) = some 2)))) = true := by
    decide
  rw [hw] at h
  obtain ⟨ps, hps, h'⟩ := (Option.any_eq_true _ _).mp (Option.any_some.symm.trans h)
  obtain ⟨ps', hps', hnumbers⟩ := (Option.any_eq_true _ _).mp h'
  obtain ⟨hzero, htwo⟩ := of_decide_eq_true hnumbers
  refine ⟨w, hw, hr, ps, ps', summaryOf_some _ ps hps, getProjectSummary_row _ 4 ps' hps' _, hzero,
    htwo, fun hsame => ?_⟩
  rw [hsame.revision, htwo] at hzero
  cases hzero

end Jetski.SettingsResponse
