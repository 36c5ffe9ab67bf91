import Jetski.Reachability

/-!
# The migration to version 6

Version 6 adds the project of a log to its row, filled with the project of the
revision of the log. Contents of version 5 carry only the constraints of that
version, so their project pointers may lead anywhere; the migration leaves them
as they are.
-/

set_option autoImplicit false

namespace Jetski.Migration

open Relational Schema Jetski.Types Database Reachability

abbrev Db5 := Store Key Row5

def widen (projectID : MCPServerLogRow5 → UUID) : (t : Table) → Row5 t → Row t
  | .mcpServerLog, v => { v with projectID := projectID v }
  | .organization, v => v
  | .userAccount, v => v
  | .organizationUserAccount, v => v
  | .project, v => v
  | .deploymentRevision, v => v
  | .deploymentRevisionEvent, v => v
  | .contextProperty, v => v
  | .context, v => v

/-- A content of version 5 with the new column filled in. -/
def addProjectID (s : Db5) (projectID : MCPServerLogRow5 → UUID) : Db := s.map (widen projectID)

def blank (s : Db5) : Db := addProjectID s (fun _ => 0)

/-- The constraints of version 5 do not read the new column. -/
def schema5 : Constraints Key Row (UUID × String) :=
  ⟨tables, uniques, foreignKeys.filter (fun f => f.name ≠ "mcpserverlog_project_id_fkey")⟩

def Valid5 (s : Db5) : Prop := Sound schema5 (blank s)

instance (s : Db5) : Decidable (Valid5 s) := inferInstanceAs (Decidable (Sound _ _))

/-- `SELECT project_id FROM DeploymentRevision WHERE id = deployment_revision_id` -/
def revisionProjectID (s : Db5) (v : MCPServerLogRow5) : Option UUID :=
  (s.row .deploymentRevision v.deploymentRevisionID).map (fun r => r.projectID)

/-- `6_mcpserverlog_project_id.up.sql`. It fails if a log stays without project
or with one that does not exist. -/
def migrate6 (s : Db5) : Option Db :=
  if (s.scan .mcpServerLog).all (fun l =>
      ((revisionProjectID s l.2).bind (fun p => s.row .project p)).isSome) then
    some (addProjectID s (fun v => (revisionProjectID s v).getD 0))
  else none

section Rows
variable (s : Db5) (projectID projectID' : MCPServerLogRow5 → UUID)

theorem addProjectID_row (t : Table) (k : Key t) :
    (addProjectID s projectID).row t k = (s.row t k).map (widen projectID t) := rfl

theorem addProjectID_some (t : Table) (k : Key t) :
    (∃ v, (addProjectID s projectID).row t k = some v) ↔ ∃ v, s.row t k = some v := by
  simp [addProjectID_row, Option.map_eq_some_iff]

theorem addProjectID_other (t : Table) (h : t ≠ .mcpServerLog) (k : Key t) :
    (addProjectID s projectID).row t k = (addProjectID s projectID').row t k := by
  cases t <;> first | rfl | exact absurd rfl h

theorem addProjectID_revision (d : UUID) :
    (addProjectID s projectID).row .deploymentRevision d = s.row .deploymentRevision d :=
  Option.map_id'

/-- Every key but the new one reads the same columns as before. -/
theorem column_widen (f : Schema.ForeignKey) (hf : f ∈ foreignKeys)
    (hn : f.name ≠ "mcpserverlog_project_id_fkey") (k : Key f.child) (v : Row5 f.child) :
    f.column k (widen projectID f.child v) = f.column k (widen projectID' f.child v) := by
  simp only [foreignKeys, List.mem_cons, List.not_mem_nil, or_false] at hf
  rcases hf with rfl | rfl | rfl | rfl | rfl | rfl | rfl | rfl | rfl | rfl | rfl | rfl | rfl |
    rfl | rfl
  case inr.inr.inr.inr.inr.inr.inr.inr.inr.inr.inr.inr.inr.inr => exact absurd rfl hn
  all_goals rfl

theorem value_widen (u : Unique Key Row (UUID × String)) (hu : u ∈ uniques) (k : Key u.table)
    (v : Row5 u.table) :
    u.value k (widen projectID u.table v) = u.value k (widen projectID' u.table v) := by
  simp only [uniques, List.mem_cons, List.not_mem_nil, or_false] at hu
  rcases hu with rfl | rfl | rfl <;> rfl

end Rows

section Valid
variable (s : Db5) (h : Valid5 s)
include h

theorem valid5_parent (f : Schema.ForeignKey) (hf : f ∈ foreignKeys)
    (hn : f.name ≠ "mcpserverlog_project_id_fkey") (projectID : MCPServerLogRow5 → UUID)
    (k : Key f.child) (v : Row5 f.child) (j : Key f.parent) (hv : s.row f.child k = some v)
    (hj : f.column k (widen projectID f.child v) = some j) : ∃ w, s.row f.parent j = some w := by
  rw [column_widen projectID (fun _ => 0) f hf hn] at hj
  exact (addProjectID_some s _ f.parent j).mp (h.parent f
    (List.mem_filter.mpr ⟨hf, by simpa using hn⟩) k _ j
    ((addProjectID_row s _ f.child k).trans (by rw [hv]; rfl)) hj)

theorem valid5_log (l : UUID) (v : MCPServerLogRow5) (hv : s.row .mcpServerLog l = some v) :
    ∃ r p, s.row .deploymentRevision v.deploymentRevisionID = some r ∧
      s.row .project r.projectID = some p := by
  obtain ⟨r, hr⟩ := valid5_parent s h logRevision (by simp [foreignKeys]) (by decide) (fun _ => 0)
    l v _ hv rfl
  obtain ⟨p, hp⟩ := valid5_parent s h revisionProject (by simp [foreignKeys]) (by decide)
    (fun _ => 0) _ r _ hr rfl
  exact ⟨r, p, hr, hp⟩

theorem migrate6_valid :
    migrate6 s = some (addProjectID s (fun v => (revisionProjectID s v).getD 0)) := by
  rw [migrate6, if_pos]
  rw [List.all_eq_true]
  rintro ⟨l, v⟩ hmem
  obtain ⟨r, p, hr, hp⟩ := valid5_log s h l v ((s.mem_scan _ _ _).mp hmem)
  simp [revisionProjectID, hr, hp]

/-- The back-fill gives every log the project of its revision. -/
theorem migrate6_logs :
    LogProjects (addProjectID s (fun v => (revisionProjectID s v).getD 0)) := by
  intro l w hw
  obtain ⟨v, hv, rfl⟩ := Option.map_eq_some_iff.mp hw
  obtain ⟨r, p, hr, hp⟩ := valid5_log s h l v hv
  refine ⟨r, (addProjectID_revision s _ _).trans hr, ?_⟩
  simp [widen, revisionProjectID, hr]

/-- The migrated content satisfies the constraints of version 6. -/
theorem migrate6_sound :
    Sound schema (addProjectID s (fun v => (revisionProjectID s v).getD 0)) := by
  refine ⟨fun f hf k w j hw hj => ?_, fun u hu k k' w w' hw hw' he => ?_⟩
  · obtain ⟨v, hv, rfl⟩ := Option.map_eq_some_iff.mp hw
    rw [addProjectID_some]
    by_cases hn : f.name = "mcpserverlog_project_id_fkey"
    · simp only [schema, foreignKeys, List.mem_cons, List.not_mem_nil, or_false] at hf
      rcases hf with rfl | rfl | rfl | rfl | rfl | rfl | rfl | rfl | rfl | rfl | rfl | rfl | rfl |
        rfl | rfl
      case inr.inr.inr.inr.inr.inr.inr.inr.inr.inr.inr.inr.inr.inr =>
        obtain ⟨r, p, hr, hp⟩ := valid5_log s h k v hv
        cases hj
        refine ⟨p, ?_⟩
        change s.row .project ((revisionProjectID s v).getD 0) = some p
        simpa only [revisionProjectID, hr, Option.map_some, Option.getD_some] using hp
      all_goals exact absurd hn (by decide)
    · exact valid5_parent s h f hf hn _ k v j hv hj
  · obtain ⟨v, hv, rfl⟩ := Option.map_eq_some_iff.mp hw
    obtain ⟨v', hv', rfl⟩ := Option.map_eq_some_iff.mp hw'
    rw [value_widen _ (fun _ => 0) u hu k v, value_widen _ (fun _ => 0) u hu k' v'] at he
    exact h.once u hu k k' _ _ ((addProjectID_row s _ _ k).trans (by rw [hv]; rfl))
      ((addProjectID_row s _ _ k').trans (by rw [hv']; rfl)) he

end Valid

/-! ## The pointers after both -/

/-- Every interleaving keeps the pointers of projects and logs, and the
migration establishes those of the logs and keeps those of the projects. -/
theorem pointers_consistent (env : Env) :
    (∀ db, Reachable env db → LatestRevisions db ∧ LatestEvents db ∧ LogProjects db) ∧
    ∀ s, Valid5 s → ∃ db, migrate6 s = some db ∧ Sound schema db ∧ LogProjects db ∧
      (LatestRevisions (blank s) → LatestRevisions db) ∧
      (LatestEvents (blank s) → LatestEvents db) := by
  refine ⟨fun db h => ?_, fun s h => ?_⟩
  · have hc := reachable_consistent env db h
    exact ⟨hc.revisions, hc.events, hc.logs⟩
  · refine ⟨_, migrate6_valid s h, migrate6_sound s h, migrate6_logs s h, ?_, ?_⟩
    · exact latestRevisions_congr _ _ (addProjectID_other s _ _ _ (by decide))
        (addProjectID_other s _ _ _ (by decide))
    · exact latestEvents_congr _ _ (addProjectID_other s _ _ _ (by decide))
        (addProjectID_other s _ _ _ (by decide)) (addProjectID_other s _ _ _ (by decide))

def demoProject (createdBy organizationID : UUID) (name : String) (latest : UUID) : ProjectRow where
  createdAt := 0
  createdBy := createdBy
  organizationID := organizationID
  name := name
  latestDeploymentRevisionID := some latest
  latestDeploymentRevisionEventID := none

def demoRevision (createdBy projectID : UUID) : DeploymentRevisionRow where
  createdAt := 0
  createdBy := createdBy
  projectID := projectID
  port := none
  ociURL := none
  authenticated := true
  proxyURL := some "https://mcp.acme.dev/api"
  telemetry := false

def demoContent (latest : UUID) : Db5 := Store.empty.replay [
  ⟨.userAccount, 1, some ⟨0, "ada@acme.com"⟩⟩,
  ⟨.organization, 2, some ⟨0, "acme", ⟨none, ⟨true⟩⟩⟩⟩,
  ⟨.project, 3, some (demoProject 1 2 "docs" latest)⟩,
  ⟨.project, 4, some (demoProject 1 2 "wiki" 6)⟩,
  ⟨.deploymentRevision, 5, some (demoRevision 1 3)⟩,
  ⟨.deploymentRevision, 6, some (demoRevision 1 4)⟩,
  ⟨.mcpServerLog, 7, some ⟨some 1, some "s1", 0, 0, 5, none, none, none, none, some 200, none⟩⟩]

theorem pointers_consistent_demo :
    (∃ w, demoRun = some w ∧ LatestRevisions w.cfg.srv.db ∧ LatestEvents w.cfg.srv.db ∧
      LogProjects w.cfg.srv.db) ∧
    ∃ db, migrate6 (demoContent 5) = some db ∧ LogProjects db := by
  obtain ⟨w, hw, hr⟩ := demoRun_reachable
  refine ⟨⟨w, hw, (pointers_consistent Env.demo).1 w.cfg.srv.db hr⟩, ?_⟩
  obtain ⟨db, hm, -, hl, -⟩ := (pointers_consistent Env.demo).2 (demoContent 5) (by decide)
  exact ⟨db, hm, hl⟩

/-- A project of valid content may point to a revision of another one, and the
migration leaves it so. -/
theorem migration_keeps_stray_pointer : Valid5 (demoContent 6) ∧
    ∃ db, migrate6 (demoContent 6) = some db ∧ ¬ LatestRevisions db := by
  refine ⟨by decide, _, migrate6_valid _ (by decide), fun h => ?_⟩
  obtain ⟨r, hr, hp⟩ := h 3 (demoProject 1 2 "docs" 6) 6 (by rfl) rfl
  have : some r = some (demoRevision 1 4) := hr.symm.trans (by rfl)
  cases this
  cases hp

end Jetski.Migration
