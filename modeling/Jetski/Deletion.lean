import Jetski.Reachability

/-!
# Deleting a project

Migration 5 lets a deletion take along everything a project owns. The key that
migration 6 adds has no action, and its check runs before the cascade over the
revisions has reached their logs. So a project is deleted with exactly what it
owns as long as it has no logs, and not at all otherwise.
-/

set_option autoImplicit false

namespace Jetski.Deletion

open Relational Schema Jetski.Types Database Reachability

/-- The rows owned by a project, itself included. -/
def OwnedBy (db : Db) (p : UUID) : (t : Table) → Key t → Prop
  | .project, k => k = p
  | .deploymentRevision, k => ∃ r, db.row .deploymentRevision k = some r ∧ r.projectID = p
  | .deploymentRevisionEvent, k => ∃ e r, db.row .deploymentRevisionEvent k = some e ∧
    db.row .deploymentRevision e.deploymentRevisionID = some r ∧ r.projectID = p
  | .mcpServerLog, k => ∃ l, db.row .mcpServerLog k = some l ∧ l.projectID = p
  | .contextProperty, k => ∃ c, db.row .contextProperty k = some c ∧ c.projectID = p
  | .context, k => ∃ x c, db.row .context k = some x ∧
    db.row .contextProperty x.contextPropertyID = some c ∧ c.projectID = p
  | _, _ => False

/-- Exactly the rows of a project are gone. -/
def Deletes (db : Db) (p : UUID) (db' : Db) : Prop :=
  ∀ t k, (OwnedBy db p t k → db'.row t k = none) ∧
    (¬ OwnedBy db p t k → db'.row t k = db.row t k)

def HasLogs (db : Db) (p : UUID) : Prop :=
  ∃ l v, db.row .mcpServerLog l = some v ∧ v.projectID = p

section Owned
variable (db : Db) (p : UUID)

theorem owned_revision (d : UUID) (r : DeploymentRevisionRow)
    (hr : db.row .deploymentRevision d = some r) (hp : r.projectID = p) :
    Owned foreignKeys db ⟨.project, p⟩ ⟨.deploymentRevision, d⟩ :=
  .child (f := revisionProject) (by simp [foreignKeys]) rfl hr (congrArg some hp) .root

theorem owned_property (c : UUID) (v : ContextPropertyRow)
    (hv : db.row .contextProperty c = some v) (hp : v.projectID = p) :
    Owned foreignKeys db ⟨.project, p⟩ ⟨.contextProperty, c⟩ :=
  .child (f := propertyProject) (by simp [foreignKeys]) rfl hv (congrArg some hp) .root

variable (hc : Pointers db)
include hc

theorem ownedBy_of_owned (r : Ref Key) (h : Owned foreignKeys db ⟨.project, p⟩ r) :
    OwnedBy db p r.1 r.2 := by
  induction h with
  | root => rfl
  | @child f k v j hf hd hv hj _ ih =>
    simp only [foreignKeys, List.mem_cons, List.not_mem_nil, or_false] at hf
    rcases hf with rfl | rfl | rfl | rfl | rfl | rfl | rfl | rfl | rfl | rfl | rfl | rfl | rfl |
      rfl | rfl
    case inr.inr.inr.inr.inr.inr.inr.inl =>
      cases hj
      exact ⟨v, hv, ih⟩
    case inr.inr.inr.inr.inr.inr.inr.inr.inl =>
      cases hj
      obtain ⟨r, hr, hp⟩ := ih
      exact ⟨v, r, hv, hr, hp⟩
    case inr.inr.inr.inr.inr.inr.inr.inr.inr.inl =>
      cases hj
      obtain ⟨r, hr, hp⟩ := ih
      obtain ⟨r', hr', hp'⟩ := hc.logs k v hv
      cases hr.symm.trans hr'
      exact ⟨v, hv, hp'.symm.trans hp⟩
    case inr.inr.inr.inr.inr.inr.inr.inr.inr.inr.inl =>
      cases hj
      exact ⟨v, hv, ih⟩
    case inr.inr.inr.inr.inr.inr.inr.inr.inr.inr.inr.inl =>
      cases hj
      obtain ⟨c, hcp, hp⟩ := ih
      exact ⟨v, c, hv, hcp, hp⟩
    all_goals cases hd

theorem owned_of_ownedBy (t : Table) (k : Key t) (h : OwnedBy db p t k) :
    Owned foreignKeys db ⟨.project, p⟩ ⟨t, k⟩ := by
  cases t with
  | project => exact h ▸ .root
  | deploymentRevision =>
    obtain ⟨r, hr, hp⟩ := h
    exact owned_revision db p k r hr hp
  | deploymentRevisionEvent =>
    obtain ⟨e, r, he, hr, hp⟩ := h
    exact .child (f := eventRevision) (by simp [foreignKeys]) rfl he rfl
      (owned_revision db p _ r hr hp)
  | mcpServerLog =>
    obtain ⟨l, hl, hp⟩ := h
    obtain ⟨r, hr, hrp⟩ := hc.logs k l hl
    exact .child (f := logRevision) (by simp [foreignKeys]) rfl hl rfl
      (owned_revision db p _ r hr (hrp.trans hp))
  | contextProperty =>
    obtain ⟨c, hcp, hp⟩ := h
    exact owned_property db p k c hcp hp
  | context =>
    obtain ⟨x, c, hx, hcp, hp⟩ := h
    exact .child (f := contextProperty) (by simp [foreignKeys]) rfl hx rfl
      (owned_property db p _ c hcp hp)
  | organization | userAccount | organizationUserAccount => exact h.elim

/-- Only the project itself points to a revision or an event that it owns. -/
theorem pointers_owned : NullsOwned foreignKeys db ⟨.project, p⟩ := by
  intro f hf hd k v j hv hj ho
  have ho := ownedBy_of_owned db p hc _ ho
  simp only [foreignKeys, List.mem_cons, List.not_mem_nil, or_false] at hf
  rcases hf with rfl | rfl | rfl | rfl | rfl | rfl | rfl | rfl | rfl | rfl | rfl | rfl | rfl |
    rfl | rfl
  case inr.inr.inr.inr.inr.inr.inr.inr.inr.inr.inr.inr.inl =>
    obtain ⟨r, hr, hp⟩ := ho
    obtain ⟨r', hr', hk⟩ := hc.revisions k v j hv hj
    cases hr.symm.trans hr'
    cases hk.symm.trans hp
    exact .root
  case inr.inr.inr.inr.inr.inr.inr.inr.inr.inr.inr.inr.inr.inl =>
    obtain ⟨e, r, he, hr, hp⟩ := ho
    obtain ⟨e', r', he', hr', hk⟩ := hc.events k v j hv hj
    cases he.symm.trans he'
    cases hr.symm.trans hr'
    cases hk.symm.trans hp
    exact .root
  all_goals cases hd

theorem deleteRow_deletes (ws : List Image)
    (h : deleteRow foreignKeys tables .project p db = .ok ws) : Deletes db p (db.replay ws) := by
  intro t k
  obtain ⟨hgone, hkept⟩ := deleteRow_row foreignKeys tables .project p db ws (by decide)
    (pointers_owned db p hc) h ⟨t, k⟩
  exact ⟨fun ho => hgone (owned_of_ownedBy db p hc t k ho),
    fun hn => hkept (fun ho => hn (ownedBy_of_owned db p hc _ ho))⟩

end Owned

section Outcome
variable (db : Db) (p : UUID)

theorem fire_project : fire foreignKeys .project p =
    [⟨revisionProject, p⟩, ⟨propertyProject, p⟩, ⟨logProject, p⟩] := rfl

theorem deleteRow_ok (hp : p ∈ db.heap .project) (hl : ¬ HasLogs db p) :
    ∃ ws, deleteRow foreignKeys tables .project p db = .ok ws := by
  refine deleteRow_completes foreignKeys tables .project p db (by decide) (by decide) hp ?_
  intro e he hn
  rw [fire_project] at he
  simp only [List.mem_cons, List.not_mem_nil, or_false] at he
  rcases he with rfl | rfl | rfl
  · cases hn
  · cases hn
  · have hnull : ∀ g ∈ foreignKeys, g.onDelete = .setNull → g.child ≠ logProject.child := by decide
    refine ⟨hnull, fun k v hv hj => hl ⟨k, v, ?_, Option.some.inj hj⟩⟩
    exact (db.set_table .project .mcpServerLog p k none (by decide)).symm.trans hv

theorem deleteRow_error (hl : HasLogs db p) (ws : List Image) :
    deleteRow foreignKeys tables .project p db ≠ .ok ws := by
  obtain ⟨l, v, hv, hp⟩ := hl
  exact deleteRow_blocked foreignKeys tables logProject (by simp [foreignKeys]) rfl p db l v
    (by decide) hv (congrArg some hp) (by decide) ws

theorem deleteProject_run {σ : Type} (me : σ) (srv : Srv σ) (s : Ses)
    (v : ProjectRow) (hv : srv.db.row .project p = some v) :
    ((deleteProject .pool p).run backend me (fun _ => false) srv s).1 =
      (match deleteRow foreignKeys tables .project p srv.db with
        | .error e => .error (.deletion e)
        | .ok _ => .ok ()) ∧
    ∀ ws, deleteRow foreignKeys tables .project p srv.db = .ok ws →
      ((deleteProject .pool p).run backend me (fun _ => false) srv s).2.1.db =
        srv.db.replay ws := by
  cases hd : deleteRow foreignKeys tables .project p srv.db with
  | error e =>
    have hq : Queries.deleteProject p (s.tick srv .pool) srv.db = .error (.deletion e) := by
      simp [Queries.deleteProject, hv, hd]
    simp [deleteProject, query, Action.lift, Prog.run, Action.exec, Session.visible, hq]
  | ok ws =>
    have hq : Queries.deleteProject p (s.tick srv .pool) srv.db = .ok (1, ws) := by
      simp [Queries.deleteProject, hv, hd]
    simp [deleteProject, query, Action.lift, Prog.run, Action.exec, Session.visible, hq,
      Server.apply, Server.tock]

end Outcome

/-- A project of a reachable database is deleted with exactly what it owns if
and only if it has no logs. -/
theorem deleteProject_deletes_iff {σ : Type} (env : Env) (me : σ) (srv : Srv σ) (s : Ses)
    (hr : Reachable env srv.db) (p : UUID) (v : ProjectRow)
    (hv : srv.db.row .project p = some v) :
    (((deleteProject .pool p).run backend me (fun _ => false) srv s).1 = .ok () ∧
      Deletes srv.db p
        ((deleteProject .pool p).run backend me (fun _ => false) srv s).2.1.db) ↔
      ¬ HasLogs srv.db p := by
  obtain ⟨hres, hdb⟩ := deleteProject_run p me srv s v hv
  constructor
  · rintro ⟨hok, -⟩ hl
    cases hd : deleteRow foreignKeys tables .project p srv.db with
    | ok ws => exact deleteRow_error srv.db p hl ws hd
    | error e =>
      rw [hres, hd] at hok
      cases hok
  · intro hl
    obtain ⟨ws, hd⟩ := deleteRow_ok srv.db p (srv.db.complete _ _ _ hv) hl
    rw [hres, hdb ws hd, hd]
    exact ⟨rfl, deleteRow_deletes srv.db p (reachable_consistent env _ hr).toPointers ws hd⟩

theorem deleteProject_deletes_iff_demo : ∃ w, demoRun = some w ∧
    (((deleteProject .pool 4).run backend () (fun _ => false) w.cfg.srv {}).1 = .ok () ∧
      Deletes w.cfg.srv.db 4
        ((deleteProject .pool 4).run backend () (fun _ => false) w.cfg.srv {}).2.1.db ↔
      ¬ HasLogs w.cfg.srv.db 4) := by
  obtain ⟨w, hw, hr⟩ := demoRun_reachable
  have hp : (demoRun.bind (fun w => w.cfg.srv.db.row .project 4)).isSome := by decide
  rw [hw] at hp
  obtain ⟨v, hv⟩ := Option.isSome_iff_exists.mp hp
  exact ⟨w, hw, deleteProject_deletes_iff Env.demo () w.cfg.srv {} hr 4 v hv⟩

/-- One reported request is enough: its project can no longer be deleted. -/
theorem logged_project_stays : ∃ w, demoRun = some w ∧ Reachable Env.demo w.cfg.srv.db ∧
    (w.cfg.srv.db.row .project 4).isSome ∧
    ((deleteProject .pool 4).run backend () (fun _ => false) w.cfg.srv {}).1 =
      .error (.deletion (.violates "mcpserverlog_project_id_fkey")) := by
  obtain ⟨w, hw, hr⟩ := demoRun_reachable
  have h : demoRun.map (fun w => ((w.cfg.srv.db.row .project 4).isSome,
      ((deleteProject .pool 4).run backend () (fun _ => false) w.cfg.srv {}).1)) =
      some (true, .error (.deletion (.violates "mcpserverlog_project_id_fkey"))) := by decide
  rw [hw] at h
  obtain ⟨hp, he⟩ := Prod.mk.inj (Option.some.inj h)
  exact ⟨w, hw, hr, hp, he⟩

end Jetski.Deletion
