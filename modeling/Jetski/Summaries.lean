import Jetski.Queries

/-!
# Project summaries

A summary joins a project with its organization, its latest revision and the
latest event of that revision. The summaries of an organization are in one to
one correspondence with its projects, and in a sound database a project with a
latest revision identifier has that revision.
-/

set_option autoImplicit false

namespace Jetski.Summaries

open Relational Schema Jetski.Types Queries

theorem summary_some (db : Db) (id : UUID) (p : ProjectRow) (ps : ProjectSummary) :
    summary db id p = some ps ↔ ∃ o, organization db p.organizationID = some o ∧
      ps = { p with
        id := id
        organization := o
        latestDeploymentRevision := latestRevision db id p
        latestDeploymentRevisionEvent := latestEvent db id p } := by
  rw [summary, Option.map_eq_some_iff]
  exact exists_congr (fun o => and_congr_right (fun _ => eq_comm))

theorem summary_project (db : Db) (id : UUID) (p : ProjectRow) (ps : ProjectSummary)
    (h : summary db id p = some ps) : ps.toProjectRow = p ∧ ps.id = id := by
  obtain ⟨o, -, rfl⟩ := (summary_some db id p ps).mp h
  exact ⟨rfl, rfl⟩

theorem mem_projectSummaries (env : Env) (db : Db) (orgID : UUID) (ps : ProjectSummary) :
    ps ∈ projectSummaries env db orgID ↔ ∃ id p, db.row .project id = some p ∧
      p.organizationID = orgID ∧ summary db id p = some ps := by
  rw [projectSummaries, List.mem_insertionSort, List.mem_filterMap]
  constructor
  · rintro ⟨⟨id, p⟩, hp, h⟩
    split at h
    · next ho => exact ⟨id, p, (db.mem_scan .project id p).mp hp, ho, h⟩
    · cases h
  · rintro ⟨id, p, hp, ho, h⟩
    exact ⟨(id, p), (db.mem_scan .project id p).mpr hp, by simp [ho, h]⟩

theorem projectSummaries_nodup (env : Env) (db : Db) (orgID : UUID) :
    (projectSummaries env db orgID).Nodup := by
  rw [projectSummaries, (List.perm_insertionSort _ _).nodup_iff]
  apply List.Nodup.filterMap _ (db.scan_nodup .project)
  intro x y ps hx hy
  simp only [Option.mem_def] at hx hy
  split at hx <;> split at hy
  · obtain ⟨hp, hid⟩ := summary_project db x.1 x.2 ps hx
    obtain ⟨hp', hid'⟩ := summary_project db y.1 y.2 ps hy
    exact Prod.ext (hid.symm.trans hid') (hp.symm.trans hp')
  all_goals simp at hx hy

theorem sound_project_names (db : Db) (h : Sound schema db) (id id' : UUID) (p p' : ProjectRow)
    (hp : db.row .project id = some p) (hp' : db.row .project id' = some p')
    (ho : p.organizationID = p'.organizationID) (hn : p.name = p'.name) : id = id' :=
  h.once ⟨"project_name_unique", .project, fun _ v => (v.organizationID, v.name)⟩
    (by simp [schema, uniques]) id id' p p' hp hp' (by simp [ho, hn])

theorem sound_organization_names (db : Db) (h : Sound schema db) (id id' : UUID)
    (o o' : OrganizationRow) (ho : db.row .organization id = some o)
    (ho' : db.row .organization id' = some o') (hn : o.name = o'.name) : id = id' :=
  h.once ⟨"organization_name_key", .organization, fun _ v => (0, v.name)⟩
    (by simp [schema, uniques]) id id' o o' ho ho' (by simp [hn])

/-- The projects of one organization have distinct names. -/
theorem projectSummaries_names (env : Env) (db : Db) (orgID : UUID) (h : Sound schema db) :
    ((projectSummaries env db orgID).map (fun ps => ps.name)).Nodup := by
  apply List.Nodup.map_on _ (projectSummaries_nodup env db orgID)
  intro ps hps ps' hps' hn
  obtain ⟨id, p, hp, ho, hs⟩ := (mem_projectSummaries env db orgID ps).mp hps
  obtain ⟨id', p', hp', ho', hs'⟩ := (mem_projectSummaries env db orgID ps').mp hps'
  have hname : p.name = p'.name := by
    rw [← (summary_project db id p ps hs).1, ← (summary_project db id' p' ps' hs').1]
    exact hn
  cases sound_project_names db h id id' p p' hp hp' (ho.trans ho'.symm) hname
  cases hp.symm.trans hp'
  exact Option.some.inj (hs.symm.trans hs')

theorem sound_summary (db : Db) (h : Sound schema db) (id : UUID) (p : ProjectRow)
    (hp : db.row .project id = some p) : ∃ ps, summary db id p = some ps := by
  obtain ⟨o, ho⟩ := h.parent projectOrganization (by simp [schema, foreignKeys]) id p
    p.organizationID hp rfl
  simp only [projectOrganization] at ho
  simp only [summary, organization, ho]
  exact ⟨_, rfl⟩

end Jetski.Summaries
