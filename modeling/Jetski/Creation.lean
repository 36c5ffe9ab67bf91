import Jetski.Handlers
import Jetski.Ownership
import Jetski.Relational.Alone

/-!
# Creating an organization

An organization and the membership of its creator are two statements on the
pool, not a transaction. If the second one fails, an organization without
members stays behind and its name is taken; in every other case the request is
atomic.
-/

set_option autoImplicit false

namespace Jetski.Creation

open Relational Schema Jetski.Types Database Handlers Validation

/-! ## The two statements -/

section Statements
variable (db : Db)

theorem createOrganization_accepted (name : String) (t : Tick)
    (hnew : db.row .organization t.fresh = none)
    (hfree : ∀ o v, db.row .organization o = some v → v.name ≠ name) :
    Queries.createOrganization name t db = .ok ({
      toOrganizationRow := ⟨t.start, name, ⟨none, ⟨true⟩⟩⟩
      id := t.fresh }, [⟨.organization, t.fresh, some ⟨t.start, name, ⟨none, ⟨true⟩⟩⟩⟩]) := by
  have hunique : schema.uniques.filter (fun u => u.table = .organization) =
      [⟨"organization_name_key", .organization, fun _ v => (0, v.name)⟩] := rfl
  have hkeys : schema.foreignKeys.filter (fun f => f.child = .organization) = [] := rfl
  have hput : schema.put db .organization t.fresh ⟨t.start, name, ⟨none, ⟨true⟩⟩⟩ =
      .ok [⟨.organization, t.fresh, some ⟨t.start, name, ⟨none, ⟨true⟩⟩⟩⟩] := by
    refine put_accepted schema db .organization t.fresh _ ?_ (by simp [hkeys])
    simp only [hunique, List.forall_mem_singleton]
    rw [Bool.eq_false_iff, ne_eq]
    intro hclash
    obtain ⟨k, w, hw, -, heq⟩ := (clashes_iff
      ⟨"organization_name_key", .organization, fun _ v => (0, v.name)⟩ db t.fresh _).mp hclash
    exact hfree k w hw (Prod.mk.inj heq).2
  simp only [Queries.createOrganization, Queries.insertRow, hnew, Queries.putRow, hput]

theorem createOrganization_ok (name : String) (t : Tick) (org : Organization) (ws : List Image)
    (h : Queries.createOrganization name t db = .ok (org, ws)) :
    db.row .organization t.fresh = none ∧
      (∀ o v, db.row .organization o = some v → v.name ≠ name) ∧ org.id = t.fresh ∧
      ws = [⟨.organization, t.fresh, some ⟨t.start, name, ⟨none, ⟨true⟩⟩⟩⟩] := by
  simp only [Queries.createOrganization, Queries.insertRow] at h
  split at h
  · cases h
  · next hnew =>
    obtain ⟨rfl, hws⟩ := Ownership.putRow_ok _ _ _ _ _ _ _ h
    refine ⟨hnew, fun o v hv he => ?_, rfl, hws⟩
    simp only [Queries.putRow] at h
    split at h
    · cases h
    · next hput =>
      have hsame := put_unique schema
        ⟨"organization_name_key", .organization, fun _ v => (0, v.name)⟩ (by simp [schema, uniques])
        db t.fresh _ _ hput o v hv (by simp [he])
      rw [hsame] at hv
      exact absurd (hnew.symm.trans hv) (by simp)

/-- A membership is stored if there is none and both of its ends exist. -/
theorem addUser_accepted (userID orgID : UUID) (t : Tick)
    (hm : Queries.isMember db userID orgID = false)
    (ho : ∃ v, db.row .organization orgID = some v)
    (hu : ∃ u, db.row .userAccount userID = some u) :
    Queries.addUserToOrganization userID orgID t db =
      .ok ((), [⟨.organizationUserAccount, (orgID, userID), some ⟨t.start⟩⟩]) := by
  have hunique : schema.uniques.filter (fun u => u.table = .organizationUserAccount) = [] := rfl
  have hkeys : schema.foreignKeys.filter (fun f => f.child = .organizationUserAccount) =
      [membershipOrganization, membershipUser] := rfl
  have hput : schema.put db .organizationUserAccount (orgID, userID) ⟨t.start⟩ =
      .ok [⟨.organizationUserAccount, (orgID, userID), some ⟨t.start⟩⟩] := by
    refine put_accepted schema db _ _ _ (by simp [hunique]) ?_
    simp only [hkeys, List.forall_mem_cons]
    refine ⟨dangles_parent membershipOrganization _ (orgID, userID) ⟨t.start⟩ fun j hj => ?_,
      dangles_parent membershipUser _ (orgID, userID) ⟨t.start⟩ fun j hj => ?_, by simp⟩
    · cases hj
      exact ho.imp fun v hv => (db.set_table _ _ _ _ _ (by decide)).trans hv
    · cases hj
      exact hu.imp fun u hu => (db.set_table _ _ _ _ _ (by decide)).trans hu
  simp only [Queries.addUserToOrganization, hm, Queries.putRow, hput]
  rfl

theorem addUser_ok (userID orgID : UUID) (t : Tick) (b : Unit) (ws : List Image)
    (h : Queries.addUserToOrganization userID orgID t db = .ok (b, ws)) :
    Queries.isMember db userID orgID = true ∧ ws = [] ∨
      (∃ u, db.row .userAccount userID = some u) ∧
        ws = [⟨.organizationUserAccount, (orgID, userID), some ⟨t.start⟩⟩] := by
  simp only [Queries.addUserToOrganization] at h
  split at h
  · next hm =>
    cases h
    exact Or.inl ⟨hm, rfl⟩
  · have hws := (Ownership.putRow_ok _ _ _ _ _ _ _ h).2
    refine Or.inr ⟨?_, hws⟩
    simp only [Queries.putRow] at h
    split at h
    · cases h
    · next hput =>
      obtain ⟨u, hu⟩ := put_parent schema membershipUser (by simp [schema, foreignKeys]) db
        (orgID, userID) ⟨t.start⟩ _ hput userID rfl
      exact ⟨u, (db.set_table .organizationUserAccount .userAccount _ userID _
        (by decide)).symm.trans hu⟩

end Statements

/-! ## The request -/

section Request
variable {σ : Type} (me : σ) (fails : StepName Stmt → Bool) (user : UserAccount)

/-- The organization exists since the request and its creator is a member, or the
rows are as they were. -/
def Atomic (srv srv' : Srv σ) (name : Option String) : Prop :=
  (∃ n o v, name = some n ∧ srv.db.row .organization o = none ∧
    srv'.db.row .organization o = some v ∧ v.name = trimSpace n ∧
    Queries.isMember srv'.db user.id o = true) ∨ srv'.db = srv.db

/-- A free and valid name is taken by the first statement, and the creator does
not become a member because the second one fails or the account is gone. -/
structure Orphans (srv : Srv σ) (n : String) : Prop where
  valid : validateName (trimSpace n) = .ok ()
  created : fails (.stmt .createOrganization) = false
  new : srv.db.row .organization srv.next = none
  free : ∀ o v, srv.db.row .organization o = some v → v.name ≠ trimSpace n
  stranger : Queries.isMember srv.db user.id srv.next = false
  lost : fails (.stmt .addUserToOrganization) = true ∨ srv.db.row .userAccount user.id = none

variable {fails user} in
theorem unchanged_atomic {srv srv' : Srv σ} {name : Option String} (h : srv'.db = srv.db)
    (hn : ¬ ∃ n, name = some n ∧ Orphans fails user srv n) :
    Atomic user srv srv' name ↔ ¬ ∃ n, name = some n ∧ Orphans fails user srv n :=
  ⟨fun _ => hn, fun _ => Or.inr h⟩

/-- The second statement and the answer to it, once the organization is there. -/
theorem wp_creator (srv : Srv σ) (n : String) (org : Organization) (hid : org.id = srv.next)
    (hvalid : validateName (trimSpace n) = .ok ())
    (hc : fails (.stmt .createOrganization) = false)
    (hnew : srv.db.row .organization srv.next = none)
    (hfree : ∀ o v, srv.db.row .organization o = some v → v.name ≠ trimSpace n) (t : Time) :
    Prog.Wp backend me fails (show Api Unit from do
      match ← addUserToOrganization .pool user.id org.id with
      | .error _ => internalServerError
      | .ok () => respondJSON (.organization org))
      (fun _ srv' _ => Atomic user srv srv' (some n) ↔
        ¬ ∃ n', some n = some n' ∧ Orphans fails user srv n')
      (srv.apply ⟨me, srv.wal.length,
        [⟨.organization, srv.next, some ⟨t, trimSpace n, ⟨none, ⟨true⟩⟩⟩⟩]⟩).tock {} := by
  let v : OrganizationRow := ⟨t, trimSpace n, ⟨none, ⟨true⟩⟩⟩
  let db₁ := srv.db.set .organization srv.next (some v)
  have hrow : db₁.row .organization srv.next = some v := srv.db.set_same _ _ _
  have hother : ∀ userID, Queries.isMember db₁ userID srv.next =
      Queries.isMember srv.db userID srv.next := fun userID =>
    congrArg Option.isSome
      (srv.db.set_table .organization .organizationUserAccount _ _ _ (by decide))
  have huser : db₁.row .userAccount user.id = srv.db.row .userAccount user.id :=
    srv.db.set_table .organization .userAccount _ _ _ (by decide)
  rw [hid]
  refine wp_pool backend me fails _ _ _ _ _ _ (fun e hf => ?_) fun b ws hadd hf => ?_
  · by_cases hm : Queries.isMember srv.db user.id srv.next = true
    · have hno : ¬ ∃ n', some n = some n' ∧ Orphans fails user srv n' := by
        rintro ⟨n', -, ho⟩
        exact absurd (ho.stranger.symm.trans hm) (by simp)
      exact ⟨fun _ => hno, fun _ => Or.inl ⟨n, srv.next, v, rfl, hnew, hrow, rfl,
        (hother user.id).trans hm⟩⟩
    · have hm : Queries.isMember srv.db user.id srv.next = false := by simpa using hm
      have hlost : fails (.stmt .addUserToOrganization) = true ∨
          srv.db.row .userAccount user.id = none := by
        refine hf.imp_right fun hf => ?_
        cases hu : srv.db.row .userAccount user.id with
        | none => rfl
        | some u =>
          have hacc := addUser_accepted db₁ user.id srv.next (Session.tick ({} : Ses) (srv.apply
            ⟨me, srv.wal.length, [⟨.organization, srv.next, some v⟩]⟩).tock .pool)
            ((hother user.id).trans hm) ⟨v, hrow⟩ ⟨u, huser.trans hu⟩
          exact absurd (hacc.symm.trans hf) (by simp)
      refine iff_of_false (fun ha => ?_) fun hno => hno ⟨n, rfl, hvalid, hc, hnew, hfree, hm, hlost⟩
      rcases ha with ⟨n', o, v', -, hno, hsome, -, hmo⟩ | hsame
      · change db₁.row .organization o = some v' at hsome
        by_cases ho : o = srv.next
        · subst ho
          exact absurd (((hother user.id).trans hm).symm.trans hmo) (by simp)
        · rw [srv.db.set_key .organization srv.next o _ ho] at hsome
          exact absurd (hno.symm.trans hsome) (by simp)
      · have : db₁.row .organization srv.next = none := (congrArg (fun db : Db =>
          db.row .organization srv.next) hsame).trans hnew
        exact absurd (hrow.symm.trans this) (by simp)
  · have hkept : ¬ ∃ n', some n = some n' ∧ Orphans fails user srv n' := by
      rintro ⟨n', -, ho⟩
      rcases ho.lost with hl | hl
      · exact absurd (hadd.symm.trans hl) (by simp)
      · rcases addUser_ok _ _ _ _ _ ws hf with ⟨hm, -⟩ | ⟨⟨u, hu⟩, -⟩
        · exact absurd (((hother user.id).trans ho.stranger).symm.trans hm) (by simp)
        · exact absurd ((huser.trans hl).symm.trans hu) (by simp)
    have hmember : (db₁.replay ws).row .organization srv.next = some v ∧
        Queries.isMember (db₁.replay ws) user.id srv.next = true := by
      rcases addUser_ok _ _ _ _ _ ws hf with ⟨hm, rfl⟩ | ⟨-, rfl⟩
      · exact ⟨hrow, hm⟩
      · constructor
        · exact (db₁.set_table .organizationUserAccount .organization _ _ _ (by decide)).trans hrow
        · exact congrArg Option.isSome (db₁.set_same .organizationUserAccount _ _)
    exact iff_of_true (Or.inl ⟨n, srv.next, v, rfl, hnew, hmember.1, rfl, hmember.2⟩) hkept

/-- A request to create an organization is atomic for exactly those choices of
failing statements with which it does not leave an organization without members. -/
theorem postOrganization_atomic_iff (srv : Srv σ) (name : Option String) :
    Atomic user srv ((postOrganizationHandler user name).run backend me fails srv {}).2.1 name ↔
      ¬ ∃ n, name = some n ∧ Orphans fails user srv n := by
  change Prog.Wp backend me fails (postOrganizationHandler user name)
    (fun _ srv' _ => Atomic user srv srv' name ↔ ¬ ∃ n, name = some n ∧ Orphans fails user srv n)
    srv {}
  cases name with
  | none => exact unchanged_atomic rfl (by simp)
  | some n =>
    cases hvalid : validateName (trimSpace n) with
    | error text =>
      simp only [postOrganizationHandler, hvalid]
      refine unchanged_atomic rfl ?_
      rintro ⟨n', hn, ho⟩
      cases hn
      cases hvalid.symm.trans ho.valid
    | ok =>
      simp only [postOrganizationHandler, hvalid]
      refine wp_pool backend me fails _ _ _ _ _ _ (fun e hf => ?_) fun org ws hc hf => ?_
      · have hno : ¬ ∃ n', some n = some n' ∧ Orphans fails user srv n' := by
          rintro ⟨n', hn, ho⟩
          cases hn
          rcases hf with hf | hf
          · exact absurd (ho.created.symm.trans hf) (by simp)
          · have hacc := createOrganization_accepted srv.db (trimSpace n)
              (Session.tick ({} : Ses) srv .pool) ho.new ho.free
            exact absurd (hacc.symm.trans hf) (by simp)
        cases e with
        | violation v => cases v <;> exact unchanged_atomic rfl hno
        | _ => exact unchanged_atomic rfl hno
      · obtain ⟨hnew, hfree, hid, rfl⟩ := createOrganization_ok _ _ _ _ _ hf
        exact wp_creator me fails user srv n org hid hvalid hc hnew hfree _

end Request

def demoServer : Srv Unit where
  db := Store.empty.set .userAccount 1 (some ⟨0, "ada@acme.com"⟩)
  next := 2
  ext _ := none

def orphaned : Srv Unit :=
  ((postOrganizationHandler .demo (some "acme")).run backend ()
    (fun st => st = .stmt .addUserToOrganization) demoServer {}).2.1

/-- It leaves the organization without members. -/
theorem organization_orphaned : ¬ Atomic .demo demoServer orphaned (some "acme") := by
  have hnone : orphaned.db.heap .organizationUserAccount = [] := by decide
  have hnew : orphaned.db.row .organization 2 ≠ none := by decide
  have hold : demoServer.db.row .organization 2 = none := by decide
  rintro (⟨n, o, v, -, -, -, -, hm⟩ | hsame)
  · obtain ⟨m, hm⟩ := Option.isSome_iff_exists.mp hm
    have := orphaned.db.complete .organizationUserAccount _ m hm
    rw [hnone] at this
    cases this
  · exact hnew (hsame ▸ hold)

end Jetski.Creation
