import Jetski.Handlers
import Jetski.Reachability
import Jetski.Relational.Alone

/-!
# Members

A member request checks that its caller is a member and then writes, in two
statements. Nobody can remove himself, so a removal whose caller is still a
member when it is executed leaves at least the caller.
-/

set_option autoImplicit false

namespace Jetski.Members

open Relational Schema Jetski.Types Database Handlers Ownership Reachability

inductive MemberRequest where
  | add (organizationID : Param UUID) (email : Option String)
  | remove (organizationID userID : Param UUID)

def perform (env : Env) (user : UserAccount) : MemberRequest → Api Unit
  | .add organizationID email => putOrganizationMember env user organizationID email
  | .remove organizationID userID => deleteOrganizationMember user organizationID userID

def HasMember (db : Db) (orgID : UUID) : Prop := ∃ userID, Queries.isMember db userID orgID = true

section Requests
variable {σ : Type} [DecidableEq σ] (env : Env) (user : σ → UserAccount)
  (req : σ → MemberRequest)

/-- The server executes a removal only while its caller is a member. -/
def attended : Admit Key Row Stmt DbError KubeCall Output Cluster σ :=
  fun x i fail β a => postgres x i fail β a ∧
    (a.name = .stmt .removeUserFromOrganization → ∀ orgID userID,
      req i = .remove (.value orgID) userID → Queries.isMember x.srv.db (user i).id orgID = true)

/-- The organization has a member, and no open transaction removes anyone. -/
structure Manned (orgID : UUID) (x : Conf σ) : Prop where
  member : HasMember x.srv.db orgID
  pending : ∀ i k, ⟨.organizationUserAccount, k, none⟩ ∉ (x.ses i).pending

/-! ## Actions -/

theorem manned_exec {β : Type} (orgID : UUID) (x : Conf σ) (i : σ) (fail : Bool)
    (a : Action Key Row Stmt DbError KubeCall Output β)
    (ha : ∀ k, ⟨.organizationUserAccount, k, none⟩ ∉ a.writes x.srv (x.ses i))
    (h : Manned orgID x) : Manned orgID (x.exec backend i fail a).2 := by
  constructor
  · obtain ⟨ws, hdb, hws⟩ := exec_replay backend i fail a x.srv (x.ses i)
    obtain ⟨userID, hm⟩ := h.member
    refine ⟨userID, ?_⟩
    change ((a.exec backend i fail x.srv (x.ses i)).2.1.db.row _ _).isSome = true
    rw [hdb]
    refine x.srv.db.replay_kept ws _ _ hm fun hw => ?_
    rcases hws _ hw with hw | hw
    · exact h.pending i _ hw
    · exact ha _ hw
  · intro j k hw
    by_cases hj : j = i
    · subst hj
      simp only [Config.exec, Function.update_self] at hw
      rcases exec_pending backend j fail a x.srv (x.ses j) _ hw with hw | hw
      · exact h.pending j _ hw
      · exact ha _ hw
    · simp only [Config.exec, Function.update_of_ne hj] at hw
      exact h.pending j _ hw

/-- A removal by a member other than the removed one. -/
theorem manned_remove (orgID target removedFrom : UUID) (x : Conf σ) (i : σ) (fail : Bool)
    (userID : UUID) (hne : userID ≠ target)
    (hmember : Queries.isMember x.srv.db userID removedFrom = true) (h : Manned orgID x) :
    Manned orgID (x.exec backend i fail (.stmt Stmt.removeUserFromOrganization .pool
      (Queries.removeUserFromOrganization target removedFrom))).2 := by
  have hexec : ∀ r, r = (Action.stmt Stmt.removeUserFromOrganization .pool
      (Queries.removeUserFromOrganization target removedFrom) :
        Action Key Row Stmt DbError KubeCall Output _).exec backend i fail x.srv (x.ses i) →
      r.2.2 = x.ses i ∧ (r.2.1.db = x.srv.db ∨
        r.2.1.db = x.srv.db.set .organizationUserAccount (removedFrom, target) none) := by
    rintro r rfl
    have hview : (x.ses i).visible x.srv .pool = x.srv.db := rfl
    rw [Action.exec]
    split
    · exact ⟨rfl, Or.inl rfl⟩
    · cases hm : Queries.isMember x.srv.db target removedFrom with
      | false =>
        simp only [Queries.removeUserFromOrganization, hview, hm]
        exact ⟨rfl, Or.inl rfl⟩
      | true =>
        simp only [Queries.removeUserFromOrganization, hview, hm, if_true]
        exact ⟨trivial, Or.inr rfl⟩
  obtain ⟨hses, hdb⟩ := hexec _ rfl
  constructor
  · rcases hdb with hdb | hdb
    · obtain ⟨u, hu⟩ := h.member
      refine ⟨u, ?_⟩
      simp only [Config.exec, Queries.isMember]
      rw [hdb]
      exact hu
    · -- the caller stays
      by_cases horg : orgID = removedFrom
      · subst horg
        refine ⟨userID, ?_⟩
        have hkey : (orgID, userID) ≠ (orgID, target) := fun he => hne (Prod.mk.inj he).2
        simp only [Config.exec, Queries.isMember]
        rw [hdb, Store.set_key _ _ _ _ _ hkey]
        exact hmember
      · obtain ⟨u, hu⟩ := h.member
        refine ⟨u, ?_⟩
        have hkey : (orgID, u) ≠ (removedFrom, target) := fun he => horg (Prod.mk.inj he).1
        simp only [Config.exec, Queries.isMember]
        rw [hdb, Store.set_key _ _ _ _ _ hkey]
        exact hu
  · intro j k
    simp only [Config.exec, hses, Function.update_eq_self]
    exact h.pending j k

/-! ## Programs -/

variable (i : σ)

/-- Whatever the others do, every action of the program keeps all organizations manned. -/
abbrev Stays (orgID : UUID) {α : Type} (Q : α → Prop) (p : Api α) : Prop :=
  ∀ x, Safe backend (attended user req) (fun _ _ => True)
    (fun x y => Manned orgID x → Manned orgID y) i (fun a _ => Q a) p x

variable (orgID : UUID)

theorem stays_ret {α : Type} (Q : α → Prop) (a : α) (h : Q a) :
    Stays user req i orgID Q (.ret a) := fun _ _ _ => h

theorem stays_bind {α β : Type} (Q : α → Prop) (Q' : β → Prop) (p : Api α) (f : α → Api β)
    (hp : Stays user req i orgID Q p) (hf : ∀ a, Q a → Stays user req i orgID Q' (f a)) :
    Stays user req i orgID Q' (p.bind f) := fun x =>
  safe_bind backend (attended user req) _ _ i (fun a _ => Q a) (fun b _ => Q' b) p f
    (fun _ => trivial) (fun a x ha => hf a ha x) x (hp x)

theorem stays_act {α β : Type} (Q : α → Prop) (K : β → Prop)
    (a : Action Key Row Stmt DbError KubeCall Output β) (k : β → Api α)
    (ha : ∀ y fail, attended user req y i fail _ a →
      (Manned orgID y → Manned orgID (y.exec backend i fail a).2) ∧ K (y.exec backend i fail a).1)
    (hk : ∀ b, K b → Stays user req i orgID Q (k b)) : Stays user req i orgID Q (.act a k) := by
  intro x y _ fail hadm
  obtain ⟨hm, hK⟩ := ha y fail hadm
  exact ⟨hm, hk _ hK _⟩

/-- Actions that write nothing. -/
theorem stays_silent {α β : Type} (Q : α → Prop)
    (a : Action Key Row Stmt DbError KubeCall Output β) (k : β → Api α)
    (ha : ∀ (srv : Srv σ) s, a.writes srv s = [])
    (hk : ∀ b, Stays user req i orgID Q (k b)) : Stays user req i orgID Q (.act a k) := by
  refine stays_act user req i orgID Q (fun _ => True) a k (fun y fail _ => ⟨?_, trivial⟩)
    (fun b _ => hk b)
  apply manned_exec
  intro k hw
  rw [ha] at hw
  cases hw

/-- A statement that removes no membership. -/
theorem stays_query {β : Type} (Q : Except DbError β → Prop) (name : Stmt) (hd : Handle)
    (f : Queries.Sql β) (he : ∀ e, Q (.error e))
    (hf : ∀ t db b ws, f t db = .ok (b, ws) →
      (∀ k, ⟨.organizationUserAccount, k, none⟩ ∉ ws) ∧ Q (.ok b)) :
    Stays user req i orgID Q (query name hd f) := by
  refine stays_act user req i orgID Q Q _ _ (fun y fail _ => ⟨?_, ?_⟩)
    (fun b hb => stays_ret user req i orgID Q b hb)
  · apply manned_exec
    intro k hw
    rw [Action.writes] at hw
    split at hw
    · next b ws hok => exact (hf _ _ _ _ hok).1 k hw
    · cases hw
  · cases hr : ((Action.stmt name hd f : Action Key Row Stmt DbError KubeCall Output _).exec backend
        i fail y.srv (y.ses i)).1 with
    | error e =>
      simp only [Config.exec, hr]
      exact he e
    | ok b =>
      obtain ⟨ws, hok⟩ := exec_stmt_ok backend i fail name hd f y.srv (y.ses i) b hr
      simp only [Config.exec, hr]
      exact (hf _ _ _ _ hok).2

theorem stays_select {β : Type} (Q : Except DbError β → Prop) (name : Stmt) (hd : Handle)
    (rows : Db → Except DbError β) (he : ∀ e, Q (.error e))
    (hq : ∀ db b, rows db = .ok b → Q (.ok b)) :
    Stays user req i orgID Q (query name hd (Queries.select rows)) := by
  refine stays_query user req i orgID Q name hd _ he fun t db b ws hf => ?_
  rw [Queries.select] at hf
  cases hr : rows db with
  | error e =>
    rw [hr] at hf
    cases hf
  | ok b' =>
    rw [hr] at hf
    cases hf
    exact ⟨by simp, hq db _ hr⟩

theorem stays_runTx {α : Type} (db : Handle) (f : Handle → Api (Except DbError α))
    (hf : ∀ tx, Stays user req i orgID (fun _ => True) (f tx)) :
    Stays user req i orgID (fun _ => True) (runTx db f) := by
  refine stays_silent user req i orgID _ (.begin db) _ (fun _ _ => rfl) fun tx => ?_
  cases tx with
  | none => exact stays_ret user req i orgID _ _ trivial
  | some tx =>
    refine stays_bind user req i orgID _ _ (f tx) _ (hf tx) fun r _ => ?_
    cases r with
    | error e =>
      exact stays_silent user req i orgID _ (.rollback tx) _ (fun _ _ => rfl)
        fun _ => stays_ret user req i orgID _ _ trivial
    | ok a =>
      refine stays_silent user req i orgID _ (.commit tx) _ (fun _ _ => rfl) fun ok => ?_
      cases ok <;> exact stays_ret user req i orgID _ _ trivial

theorem stays_respond (status : ℕ) (body : Body) :
    Stays user req i orgID (fun _ => True) (respond status body) :=
  stays_silent user req i orgID _ (.emit _) _ (fun _ _ => rfl)
    fun _ => stays_ret user req i orgID _ _ trivial

/-- The organization that the access check returns is the one of the path. -/
theorem stays_withOrganization (organizationID : Param UUID) (f : Organization → Api Unit)
    (h : ∀ org, organizationID = .value org.id → Stays user req i orgID (fun _ => True) (f org)) :
    Stays user req i orgID (fun _ => True) (withOrganization (user i) organizationID f) := by
  refine stays_bind user req i orgID (fun r => ∀ org, r = some org → organizationID = .value org.id)
    _ _ _ ?_ fun r hr => ?_
  · cases organizationID with
    | absent => exact stays_ret user req i orgID _ _ (fun _ h => by cases h)
    | invalid =>
      exact stays_bind user req i orgID _ _ _ _ (stays_respond user req i orgID _ _)
        fun _ _ => stays_ret user req i orgID _ _ (fun _ h => by cases h)
    | value id =>
      have hcheck : Stays user req i orgID (fun r : Except DbError (Bool × Organization) =>
          ∀ x, r = .ok x → x.2.id = id) (isUserPartOfOrg .pool (user i).id id) := by
        refine stays_select user req i orgID _ _ _ _ (fun e x h => by cases h)
          fun db b hb x hx => ?_
        cases hx
        obtain ⟨v, -, hv, -⟩ := Queries.partOfOrg_ok db (user i).id id _ _ hb
        rw [hv]
      refine stays_bind user req i orgID _ _ _ _ hcheck fun r hid => ?_
      have hdenied : ∀ status body, Stays user req i orgID
          (fun r => ∀ org : Organization, r = some org → Param.value id = .value org.id)
          (show Api _ from do
            respond status body
            return none) := fun _ _ =>
        stays_bind user req i orgID _ _ _ _ (stays_respond user req i orgID _ _)
          fun _ _ => stays_ret user req i orgID _ _ (fun _ h => by cases h)
      match r with
      | .error e => exact hdenied _ _
      | .ok (false, org) => exact hdenied _ _
      | .ok (true, org) =>
        refine stays_ret user req i orgID _ _ fun org' ho => ?_
        cases ho
        rw [hid _ rfl]
  · cases r with
    | none => exact stays_ret user req i orgID _ _ trivial
    | some org => exact h org (hr org rfl)

/-! ## The two requests -/

theorem stays_putOrganizationMember (organizationID : Param UUID) (email : Option String) :
    Stays user req i orgID (fun _ => True)
      (putOrganizationMember env (user i) organizationID email) := by
  refine stays_withOrganization user req i orgID _ _ fun org _ => ?_
  cases email with
  | none => exact stays_respond user req i orgID _ _
  | some email =>
    refine stays_bind user req i orgID _ _ _ _
      (stays_runTx user req i orgID _ _ fun tx => ?_) fun r _ => ?_
    · have hcreate : Stays user req i orgID (fun _ => True)
          (Database.getUserByEmailOrCreate env tx (Validation.trimSpace email)) := by
        refine stays_bind user req i orgID (fun _ => True) _ _ _
          (stays_query user req i orgID _ _ _ _ (fun _ => trivial)
            fun t db b ws hf => ⟨?_, trivial⟩)
          fun r _ => stays_ret user req i orgID _ _ trivial
        rw [Queries.getUserByEmailOrCreate] at hf
        split at hf
        · split at hf
          · rw [(insertRow_ok _ _ _ _ _ _ _ hf).2]
            simp
          · rw [read_ok _ b ws hf]
            simp
        · cases hf
      refine stays_bind user req i orgID _ _ _ _ hcreate fun r _ => ?_
      cases r with
      | error e => exact stays_ret user req i orgID _ _ trivial
      | ok member =>
        have hadd : Stays user req i orgID (fun _ => True)
            (addUserToOrganization tx member.id org.id) := by
          refine stays_query user req i orgID _ _ _ _ (fun _ => trivial)
            fun t db b ws hf => ⟨?_, trivial⟩
          rw [Queries.addUserToOrganization] at hf
          split at hf
          · cases hf
            simp
          · rw [(putRow_ok _ _ _ _ _ _ _ hf).2]
            simp
        refine stays_bind user req i orgID _ _ _ _ hadd fun r _ => ?_
        cases r with
        | error e => cases e <;> exact stays_ret user req i orgID _ _ trivial
        | ok _ => exact stays_ret user req i orgID _ _ trivial
    · cases r with
      | error e => exact stays_respond user req i orgID _ _
      | ok member =>
        exact stays_silent user req i orgID _ (.emit _) _ (fun _ _ => rfl)
          fun _ => stays_respond user req i orgID _ _

theorem stays_deleteOrganizationMember (organizationID userID : Param UUID)
    (hreq : req i = .remove organizationID userID) :
    Stays user req i orgID (fun _ => True)
      (deleteOrganizationMember (user i) organizationID userID) := by
  refine stays_withOrganization user req i orgID _ _ fun org horg => ?_
  have hid : Stays user req i orgID (fun _ => True) (getUserID userID) := by
    cases userID with
    | absent => exact stays_ret user req i orgID _ _ trivial
    | invalid =>
      exact stays_bind user req i orgID _ _ _ _ (stays_respond user req i orgID _ _)
        fun _ _ => stays_ret user req i orgID _ _ trivial
    | value id => exact stays_ret user req i orgID _ _ trivial
  refine stays_bind user req i orgID _ _ _ _ hid fun target _ => ?_
  split
  · exact stays_ret user req i orgID _ _ trivial
  · split
    · exact stays_respond user req i orgID _ _
    · next hother =>
      have hremove : Stays user req i orgID (fun _ => True)
          (removeUserFromOrganization .pool target org.id) := by
        refine stays_act user req i orgID _ (fun _ => True) _ _ (fun y fail hadm => ⟨?_, trivial⟩)
          fun _ _ => stays_ret user req i orgID _ _ trivial
        have hcaller := hadm.2 rfl org.id userID (horg ▸ hreq)
        exact manned_remove orgID target org.id y i fail (user i).id hother hcaller
      refine stays_bind user req i orgID _ _ _ _ hremove fun r _ => ?_
      cases r <;> exact stays_respond user req i orgID _ _

/-- If every removal is executed while its caller is a member, no run of member
requests leaves an organization without members. -/
theorem members_remain (w₀ w : ApiWorld σ) (hidle : ∀ i, (w₀.cfg.ses i).levels = [])
    (hprog : ∀ i, w₀.prog i = perform env (user i) (req i))
    (hmember : HasMember w₀.cfg.srv.db orgID) (h : Run backend (attended user req) w₀ w) :
    HasMember w.cfg.srv.db orgID := by
  have hmanned : Manned orgID w₀.cfg := by
    refine ⟨hmember, fun i k hw => ?_⟩
    rw [Session.pending, hidle i] at hw
    cases hw
  have hcompatible : Compatible (fun (_ : σ) (_ _ : Conf σ) => True)
      (fun _ x y => Manned orgID x → Manned orgID y) :=
    ⟨fun _ _ => trivial, fun _ _ _ _ _ _ => trivial, fun _ _ _ _ _ _ => trivial⟩
  have hsafe : AllSafe backend (attended user req) (fun _ _ _ => True)
      (fun _ x y => Manned orgID x → Manned orgID y) (fun _ _ => True) w₀ := by
    intro i
    rw [hprog i]
    cases hr : req i with
    | add organizationID email =>
      exact stays_putOrganizationMember env user req i orgID organizationID email w₀.cfg
    | remove organizationID userID =>
      exact stays_deleteOrganizationMember user req i orgID organizationID userID hr w₀.cfg
  exact (run_safe backend (attended user req) _ _ (fun _ _ => True) hcompatible (Manned orgID)
    (fun _ _ _ hg hx => hg hx) w₀ w h hsafe hmanned).2.member

end Requests

/-! ## Two members who remove each other -/

def demoDb : Db := Store.empty.replay [
  ⟨.organization, 1, some ⟨0, "acme", ⟨none, ⟨true⟩⟩⟩⟩,
  ⟨.userAccount, 2, some ⟨0, "ada@acme.com"⟩⟩,
  ⟨.userAccount, 3, some ⟨0, "bob@acme.com"⟩⟩,
  ⟨.organizationUserAccount, (1, 2), some ⟨0⟩⟩,
  ⟨.organizationUserAccount, (1, 3), some ⟨0⟩⟩]

def demoUser : Bool → UserAccount
  | true => ⟨⟨0, "ada@acme.com"⟩, 2⟩
  | false => ⟨⟨0, "bob@acme.com"⟩, 3⟩

def demoRequest (i : Bool) : MemberRequest := .remove (.value 1) (.value (demoUser !i).id)

def demoStart : ApiWorld Bool :=
  ⟨⟨{ db := demoDb, next := 4, ext := fun _ => none }, fun _ => {}⟩,
    fun i => perform Env.demo (demoUser i) (demoRequest i)⟩

theorem demoStart_member : HasMember demoStart.cfg.srv.db 1 := ⟨2, by decide⟩

/-- One request after the other, or both access checks first. -/
def demoSchedule (overlap : Bool) : List (Bool × Bool) :=
  if overlap then [(true, false), (false, false), (true, false), (false, false), (true, false),
    (false, false)]
  else [(true, false), (true, false), (true, false), (false, false), (false, false)]

def demoCheck (x : Conf Bool) (i fail : Bool) (β : Type)
    (a : Action Key Row Stmt DbError KubeCall Output β) : Bool :=
  postgres x i fail β a ∧
    (a.name = .stmt .removeUserFromOrganization →
      Queries.isMember x.srv.db (demoUser i).id 1 = true)

theorem demoCheck_attended (x : Conf Bool) (i fail : Bool) (β : Type)
    (a : Action Key Row Stmt DbError KubeCall Output β) (h : demoCheck x i fail β a = true) :
    attended demoUser demoRequest x i fail β a := by
  obtain ⟨hpostgres, hmember⟩ := of_decide_eq_true h
  refine ⟨hpostgres, fun hname orgID userID hreq => ?_⟩
  cases hreq
  exact hmember hname

/-- The second caller is no member any more and gets no further than the check. -/
theorem members_remain_demo : ∃ w, play backend demoCheck (demoSchedule false) demoStart = some w ∧
    HasMember w.cfg.srv.db 1 := by
  have hsome : (play backend demoCheck (demoSchedule false) demoStart).isSome := by decide
  obtain ⟨w, hw⟩ := Option.isSome_iff_exists.mp hsome
  exact ⟨w, hw, members_remain Env.demo demoUser demoRequest 1 demoStart w (fun _ => rfl)
    (fun _ => rfl) demoStart_member
    (play_run backend (attended demoUser demoRequest) _ demoCheck_attended _ _ _ hw)⟩

/-- Both removals are accepted, and nobody is left. -/
theorem members_locked_out : ∃ w, HasMember demoStart.cfg.srv.db 1 ∧
    Run backend postgres demoStart w ∧
    (∀ i, (w.cfg.ses i).out.length = 1) ∧ ¬ HasMember w.cfg.srv.db 1 := by
  have h : (played (demoSchedule true) demoStart).any (fun w =>
      (∀ i, (w.cfg.ses i).out.length = 1) ∧
        (w.cfg.srv.db.scan .organizationUserAccount).isEmpty) = true := by
    decide
  obtain ⟨w, hw, hall⟩ := (Option.any_eq_true _ _).mp h
  obtain ⟨hout, hempty⟩ := of_decide_eq_true hall
  refine ⟨w, demoStart_member, played_run _ _ _ hw, hout, ?_⟩
  rintro ⟨u, hu⟩
  obtain ⟨v, hv⟩ := Option.isSome_iff_exists.mp hu
  have hmem := (w.cfg.srv.db.mem_scan .organizationUserAccount (1, u) v).mpr hv
  rw [List.isEmpty_iff.mp hempty] at hmem
  cases hmem

end Jetski.Members
