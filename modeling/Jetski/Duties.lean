import Jetski.Requests
import Jetski.Relational.Discipline

/-!
# Database functions under a duty

Rules for clients that run interleaved with others: from a mode in which a
database function starts to the modes in which it may end, with the rows that it
has read and the images that it keeps pending.
-/

set_option autoImplicit false

namespace Jetski.Duties

open Relational Schema Jetski.Types Database Handlers

abbrev ApiMode := Mode Key Row
abbrev ApiDuty := Duty Key Row

section Rules
variable (J : Db → Prop) (du : ApiDuty) {α : Type}

abbrev Obeys (Q : α → ApiMode → Prop) (p : Api α) (m : ApiMode) : Prop := p.Obeys J du Q m

theorem obeys_select {β : Type} (Q : Except DbError β → ApiMode → Prop) (name : Stmt)
    (rows : Db → Except DbError β) (c s : Bool) (reads : List Db)
    (he : ∀ e, (du.fallible ∨ ∃ db, rows db = .error e) → Q (.error e) (.closed c s reads))
    (hq : ∀ db b, J db → rows db = .ok b → Q (.ok b) (.closed c s (db::reads))) :
    Obeys J du Q (query name .pool (Queries.select rows)) (.closed c s reads) := by
  refine ⟨fun hf e => he e (Or.inl hf), fun t db hJ => ?_⟩
  cases hr : rows db with
  | error e =>
    constructor
    · intro e' hf
      simp only [Queries.select, hr, Except.map] at hf
      cases hf
      exact he e (Or.inr ⟨db, hr⟩)
    · intro b ws hf
      simp only [Queries.select, hr, Except.map] at hf
      cases hf
  | ok b =>
    constructor
    · intro e' hf
      simp only [Queries.select, hr, Except.map] at hf
      cases hf
    · intro b' ws hf
      simp only [Queries.select, hr, Except.map] at hf
      cases hf
      exact Or.inl ⟨rfl, hq db b hJ hr⟩

theorem obeys_select_tx {β : Type} (Q : Except DbError β → ApiMode → Prop) (name : Stmt) (d : ℕ)
    (rows : Db → Except DbError β) (reads : List Db) (ws : List Image)
    (he : ∀ e, (du.fallible ∨ ∃ db, rows db = .error e) → Q (.error e) .aborted)
    (hq : ∀ db b, J db → rows (db.replay ws) = .ok b → Q (.ok b) (.opened false (db::reads) ws)) :
    Obeys J du Q (query name (.tx d) (Queries.select rows)) (.opened false reads ws) := by
  refine ⟨rfl, fun hf e => he e (Or.inl hf), fun t db hJ => ?_⟩
  cases hr : rows (db.replay ws) with
  | error e =>
    constructor
    · intro e' hf
      simp only [Queries.select, hr, Except.map] at hf
      cases hf
      exact he e (Or.inr ⟨_, hr⟩)
    · intro b ws' hf
      simp only [Queries.select, hr, Except.map] at hf
      cases hf
  | ok b =>
    constructor
    · intro e' hf
      simp only [Queries.select, hr, Except.map] at hf
      cases hf
    · intro b' ws' hf
      simp only [Queries.select, hr, Except.map] at hf
      cases hf
      have hdone := hq db b hJ hr
      rwa [← List.append_nil ws] at hdone

abbrev Finishes (Q : Except DbError α → ApiMode → Prop) (d : ℕ) (r : Except DbError α)
    (m : ApiMode) : Prop :=
  Obeys J du Q (finish (.tx d) r) m

theorem obeys_runTx (Q : Except DbError α → ApiMode → Prop) (f : Handle → Api (Except DbError α))
    (reads : List Db) (hn : du.fallible → Q (.error .refused) (.closed false false reads))
    (hf : Obeys J du (Finishes J du Q 1) (f (.tx 1)) (.opened false [] [])) :
    Obeys J du Q (runTx .pool f) (.closed false false reads) := by
  refine ⟨rfl, rfl, hn, ?_⟩
  exact obeys_bind J du Q (f (.tx 1)) (finish (.tx 1)) _ hf

theorem obeys_savepoint (Q : Except DbError α → ApiMode → Prop) (d : ℕ)
    (f : Handle → Api (Except DbError α)) (reads : List Db) (ws : List Image)
    (hn : du.fallible → Q (.error .refused) .aborted)
    (hf : Obeys J du (Finishes J du Q (d+2)) (f (.tx (d+2))) (.opened false reads ws)) :
    Obeys J du Q (runTx (.tx (d+1)) f) (.opened false reads ws) := by
  refine ⟨rfl, hn, ?_⟩
  exact obeys_bind J du Q (f (.tx (d+2))) (finish (.tx (d+2))) _ hf

/-- An error in the outermost transaction undoes it. -/
theorem finishes_error (Q : Except DbError α → ApiMode → Prop) (e : DbError) (m : ApiMode)
    (hm : (∃ reads ws, m = .opened false reads ws) ∨ m = .aborted ∨ m = .undone)
    (h : Q (.error e) (.closed false false [])) : Finishes J du Q 1 (.error e) m := by
  rcases hm with ⟨reads, ws, rfl⟩ | rfl | rfl
  · exact ⟨rfl, h⟩
  · exact h
  · exact h

/-! ## Revisions and events -/

theorem obeys_createDeploymentRevision (Q : Except DbError DeploymentRevision → ApiMode → Prop)
    (d : ℕ) (dr : Queries.NewRevision) (reads : List Db) (ws : List Image)
    (he : ∀ e m, m = .aborted ∨ m = .undone → Q (.error e) m)
    (hok : ∀ t₁ d₁ res ws₁, J d₁ →
      Queries.insertDeploymentRevision dr t₁ (d₁.replay ws) = .ok (res, ws₁) →
      ∀ t₂ d₂ ws₂, J d₂ → Queries.updateLatestDeploymentRevision res.id res.projectID t₂
        (d₂.replay (ws++ws₁)) = .ok ((), ws₂) →
      Q (.ok res) (.opened false (d₂::d₁::reads) (ws++ws₁++ws₂))) :
    Obeys J du Q (createDeploymentRevision (.tx (d+1)) dr) (.opened false reads ws) := by
  have haborted : ∀ e, Finishes J du Q (d+2) (.error e) .aborted := by
    intro e
    exact he e .undone (Or.inr rfl)
  refine obeys_savepoint J du Q d _ reads ws (fun _ => he _ _ (Or.inl rfl)) ?_
  refine obeys_bind J du _ _ _ _ ⟨rfl, fun _ e => haborted e, fun t₁ d₁ hJ₁ =>
    ⟨fun e _ => haborted e, fun res ws₁ hins => ?_⟩⟩
  refine obeys_bind J du _ _ _ _ ⟨rfl, fun _ e => haborted e, fun t₂ d₂ hJ₂ =>
    ⟨fun e _ => haborted e, fun b ws₂ hupd => ?_⟩⟩
  exact ⟨rfl, fun _ => he _ _ (Or.inl rfl), hok t₁ d₁ res ws₁ hJ₁ hins t₂ d₂ ws₂ hJ₂ hupd⟩

theorem obeys_addDeploymentRevisionEvent (Q : Except DbError Unit → ApiMode → Prop) (d : ℕ)
    (revisionID : UUID) (type : DeploymentRevisionEventType) (timestamp : Option Time)
    (reads : List Db) (ws : List Image) (he : ∀ e, Q (.error e) .aborted)
    (hok : ∀ t₁ d₁ e ws₁, J d₁ →
      Queries.insertDeploymentRevisionEvent revisionID type timestamp t₁ (d₁.replay ws) =
        .ok (e, ws₁) →
      ∀ t₂ d₂ ws₂, J d₂ → Queries.updateLatestDeploymentRevisionEvent e revisionID t₂
        (d₂.replay (ws++ws₁)) = .ok ((), ws₂) →
      Q (.ok ()) (.opened false (d₂::d₁::reads) (ws++ws₁++ws₂))) :
    Obeys J du Q (addDeploymentRevisionEvent (.tx d) revisionID type timestamp)
      (.opened false reads ws) := by
  refine obeys_bind J du _ _ _ _ ⟨rfl, fun _ e => he e, fun t₁ d₁ hJ₁ =>
    ⟨fun e _ => he e, fun e ws₁ hins => ?_⟩⟩
  exact ⟨rfl, fun _ e => he e, fun t₂ d₂ hJ₂ =>
    ⟨fun e _ => he e, fun b ws₂ hupd => hok t₁ d₁ e ws₁ hJ₁ hins t₂ d₂ ws₂ hJ₂ hupd⟩⟩

/-! ## Gateways -/

variable (env : Env)

theorem obeys_applyGateway (Q : Except DbError Unit → ApiMode → Prop) (org : Organization)
    (c : Bool) (reads : List Db)
    (he : du.fallible → ∀ e reads, Q (.error e) (.closed c false reads))
    (hok : ∀ db, J db → Q (.ok ()) (.closed c true (db::reads))) :
    Obeys J du Q (applyGateway env .pool org) (.closed c false reads) := by
  refine obeys_bind J du _ _ _ _ (obeys_select J du _ _ _ c false reads ?_ ?_)
  · rintro e (hf | ⟨db, hr⟩)
    · exact he hf e reads
    · cases hr
  · intro db pss hJ hr
    exact ⟨rfl, fun hf => he hf .refused (db::reads), hok db hJ⟩

theorem obeys_applyGateway_tx (Q : Except DbError Unit → ApiMode → Prop) (d : ℕ)
    (org : Organization) (reads : List Db) (ws : List Image) (ha : ∀ e, Q (.error e) .aborted)
    (he : du.fallible → ∀ db, J db → ∀ e, Q (.error e) (.opened false (db::reads) ws))
    (hok : ∀ db, J db → Q (.ok ()) (.opened true (db::reads) ws)) :
    Obeys J du Q (applyGateway env (.tx d) org) (.opened false reads ws) := by
  refine obeys_bind J du _ _ _ _ (obeys_select_tx J du _ _ d _ reads ws (fun e _ => ha e) ?_)
  intro db pss hJ hr
  exact ⟨rfl, fun hf => he hf db hJ .refused, hok db hJ⟩

/-! ## Access -/

variable (user : UserAccount)

theorem obeys_withProject (Q : Unit → ApiMode → Prop) (projectID : Param UUID)
    (f : UUID → Api Unit) (hq : ∀ reads, Q () (.closed false false reads))
    (hf : ∀ id db, projectID = .value id → id ≠ 0 → J db → Requests.Accessible db user.id id →
      Obeys J du Q (f id) (.closed false false [db])) :
    Obeys J du Q (withProject user projectID f) (.closed false false []) := by
  refine obeys_bind J du _ _ _ _ ?_
  cases projectID with
  | absent => exact hq []
  | invalid => exact hq []
  | value id =>
    refine obeys_bind J du _ _ _ _ (obeys_select J du _ _ _ false false [] (fun e _ => hq []) ?_)
    intro db b hJ hr
    cases b with
    | false => exact hq [db]
    | true =>
      change Obeys J du Q (if id = 0 then pure () else f id) (.closed false false [db])
      split
      · exact hq [db]
      · next hid =>
        refine hf id db rfl hid hJ ?_
        cases hp : db.row .project id with
        | none => simp [hp] at hr
        | some p => exact ⟨p, hp, by simpa [hp] using hr⟩

theorem obeys_withOrganization (Q : Unit → ApiMode → Prop) (organizationID : Param UUID)
    (f : Organization → Api Unit) (hq : ∀ reads, Q () (.closed false false reads))
    (hf : ∀ org db, J db → organizationID = .value org.id →
      Queries.organization db org.id = some org → Queries.isMember db user.id org.id = true →
      Obeys J du Q (f org) (.closed false false [db])) :
    Obeys J du Q (withOrganization user organizationID f) (.closed false false []) := by
  refine obeys_bind J du _ _ _ _ ?_
  cases organizationID with
  | absent => exact hq []
  | invalid => exact hq []
  | value orgID =>
    refine obeys_bind J du _ _ _ _ (obeys_select J du _ _ _ false false [] (fun e _ => hq []) ?_)
    intro db b hJ hr
    obtain ⟨member, org⟩ := b
    cases member with
    | false => exact hq [db]
    | true =>
      obtain ⟨hid, hm, ho⟩ := Queries.partOfOrg_true db user.id orgID org hr
      subst hid
      exact hf org db hJ rfl ho hm

end Rules
end Jetski.Duties
