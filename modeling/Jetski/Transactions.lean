import Jetski.Handlers
import Jetski.Ownership
import Jetski.Relational.Failures

/-!
# Nested transactions

A function passed to `RunTx` sends statements on the handle in its context and
may open further transactions, which are savepoints of its own. What it does,
as it sees it, is a list of row images: those of its statements and of the
nested transactions that returned no error. The outermost commit makes exactly
this list visible, or nothing at all.
-/

set_option autoImplicit false

namespace Jetski.Transactions

open Relational Schema Jetski.Types Database

/-- A function of the handle in its context. -/
inductive TxFunc : Type → Type 1
  | ret {α : Type} (r : Except DbError α) : TxFunc α
  | stmt {α β : Type} (name : Stmt) (f : Queries.Sql β) (k : Except DbError β → TxFunc α) : TxFunc α
  | runTx {α β : Type} (f : TxFunc β) (k : Except DbError β → TxFunc α) : TxFunc α

namespace TxFunc

def on {α : Type} : TxFunc α → Handle → Api (Except DbError α)
  | .ret r, _ => .ret r
  | .stmt name f k, db => (query name db f).bind (fun b => (k b).on db)
  | .runTx f k, db => (Database.runTx db f.on).bind (fun r => (k r).on db)

/-- The function returns and has written the images: a failed nested transaction
has written nothing. -/
inductive Does : {α : Type} → TxFunc α → Db → Except DbError α → List Image → Prop
  | ret {α : Type} (r : Except DbError α) (db : Db) : Does (.ret r) db r []
  | stmt {α β : Type} {name : Stmt} {f : Queries.Sql β} {k : Except DbError β → TxFunc α} {db : Db}
    {r : Except DbError α} {ws ws' : List Image} (t : Tick) (b : β) :
    f t db = .ok (b, ws) → Does (k (.ok b)) (db.replay ws) r ws' →
      Does (.stmt name f k) db r (ws++ws')
  | nested {α β : Type} {f : TxFunc β} {k : Except DbError β → TxFunc α} {db : Db}
    {r : Except DbError α} {ws ws' : List Image} (b : β) :
    Does f db (.ok b) ws → Does (k (.ok b)) (db.replay ws) r ws' →
      Does (.runTx f k) db r (ws++ws')
  | failed {α β : Type} {f : TxFunc β} {k : Except DbError β → TxFunc α} {db : Db}
    {r : Except DbError α} {ws : List Image} (e : DbError) :
    Does (k (.error e)) db r ws → Does (.runTx f k) db r ws

end TxFunc

section Runs
variable {σ : Type} (me : σ)

/-! ## Inside a transaction -/

/-- Only the innermost level has changed, unless the transaction is aborted, and
by what the function did. -/
structure Within {α : Type} (f : TxFunc α) (srv : Srv σ) (s : Ses) (r : Except DbError α)
    (srv' : Srv σ) (s' : Ses) : Prop where
  db : srv'.db = srv.db
  outer : s.levels.tail <:+ s'.levels
  does : s'.aborted = false → ∃ ws, f.Does (s.view srv.db) r ws ∧ s'.levels = (s.push ws).levels

theorem push_levels (s : Ses) (ws : List Image) (hl : s.levels ≠ []) :
    (s.push ws).levels.length = s.levels.length ∧ (s.push ws).levels.tail = s.levels.tail ∧
      (s.push ws).aborted = s.aborted := by
  obtain ⟨l, ls, h⟩ := List.exists_cons_of_ne_nil hl
  rw [Session.push, h]
  exact ⟨rfl, rfl, rfl⟩

theorem push_push (s : Ses) (ws ws' : List Image) (hl : s.levels ≠ []) :
    ((s.push ws).push ws').levels = (s.push (ws++ws')).levels := by
  obtain ⟨l, ls, h⟩ := List.exists_cons_of_ne_nil hl
  simp [Session.push, h]

theorem push_view (s : Ses) (ws : List Image) (db : Db) (hl : s.levels ≠ []) :
    (s.push ws).view db = (s.view db).replay ws := by
  rw [Session.view, Session.view, s.pending_push ws hl, Store.replay_append]

theorem push_same (s s₁ : Ses) (ws : List Image) (h : s₁.levels = s.levels) :
    (s₁.push ws).levels = (s.push ws).levels := by
  cases hl : s.levels with
  | nil => simp [Session.push, h, hl]
  | cons l ls => simp [Session.push, h, hl]

theorem view_same (s s₁ : Ses) (db db₁ : Db) (hl : s₁.levels = s.levels) (hdb : db₁ = db) :
    s₁.view db₁ = s.view db := by
  rw [Session.view, Session.view, Session.pending, Session.pending, hl, hdb]

/-- In an aborted transaction nothing happens. -/
theorem on_aborted {α : Type} (f : TxFunc α) (d : ℕ) (srv : Srv σ) (s : Ses)
    (ha : s.aborted = true) : (f.on (.tx d)).Always backend me
      (fun _ srv' s' => srv'.db = srv.db ∧ s'.levels = s.levels ∧ s'.aborted = true) srv s := by
  induction f generalizing srv s with
  | ret r => exact ⟨rfl, rfl, ha⟩
  | stmt name f k ih =>
    intro fail
    simp only [Action.exec, ha, true_or, if_true]
    exact ih _ srv.tock s ha
  | runTx f k _ ih =>
    rw [TxFunc.on, runTx_eq]
    intro fail
    simp only [Action.exec, ha, true_or, or_true, if_true]
    exact ih _ srv.tock { s with aborted := true } rfl

/-- A nested transaction returned: without an error its level has become part of
the one around it; after an error that one is as it was, unless it is aborted. -/
structure Nests {α : Type} (f : TxFunc α) (srv : Srv σ) (s : Ses) (r : Except DbError α)
    (srv' : Srv σ) (s' : Ses) : Prop where
  db : srv'.db = srv.db
  outer : s.levels.tail <:+ s'.levels
  committed : ∀ a, r = .ok a → s'.aborted = false ∧
    ∃ ws, f.Does (s.view srv.db) (.ok a) ws ∧ s'.levels = (s.push ws).levels
  undone : ∀ e, r = .error e → s'.aborted = false → s'.levels = s.levels

/-- The rollback to a savepoint drops the levels that were opened since, and
the transaction is usable again. -/
theorem finish_error {α : Type} (e : DbError) (srv₁ : Srv σ) (s s₁ : Ses) (hl : s.levels ≠ [])
    (hs : s.levels <:+ s₁.levels) :
    (finish (α := α) (.tx (s.levels.length+1)) (.error e)).Always backend me
      (fun r srv' s' => r = .error e ∧ srv'.db = srv₁.db ∧ s'.levels = s.levels ∧
        s'.aborted = false) srv₁ s₁ := by
  have hd : s.levels.length+1 ≠ 1 := by
    have := List.length_pos_iff.mpr hl
    omega
  refine always_rollback backend me _ _ _ _ hd _ ?_
  refine ⟨rfl, rfl, ?_, rfl⟩
  exact (List.suffix_iff_eq_drop.mp hs).symm

theorem finish_nests {α : Type} (f : TxFunc α) (srv srv₁ : Srv σ) (s s₁ : Ses)
    (r : Except DbError α) (hl : s.levels ≠ [])
    (h : Within f srv { s with levels := []::s.levels } r srv₁ s₁) :
    (finish (.tx (s.levels.length+1)) r).Always backend me (Nests f srv s) srv₁ s₁ := by
  have htail : s.levels.tail <:+ s₁.levels := (List.tail_suffix _).trans h.outer
  cases r with
  | error e =>
    refine always_mono backend me _ _ (fun r srv' s' hr => ?_) _ _ _
      (finish_error me e srv₁ s s₁ hl h.outer)
    obtain ⟨rfl, hdb, hlevels, hab⟩ := hr
    refine ⟨hdb.trans h.db, hlevels ▸ List.tail_suffix _, ?_, fun _ _ _ => hlevels⟩
    intro a ha
    cases ha
  | ok a =>
    have hd : s.levels.length+1 ≠ 1 := by
      have := List.length_pos_iff.mpr hl
      omega
    refine always_release backend me _ _ _ _ hd _ ?_ fun hlive => ?_
    · refine ⟨h.db, htail, fun a ha => ?_, fun e _ hlive => absurd hlive (by simp)⟩
      cases ha
    · obtain ⟨ws, hdoes, hlevels⟩ := h.does hlive
      obtain ⟨l, ls, hcons⟩ := List.exists_cons_of_ne_nil hl
      have hrelease : s₁.release.levels = (s.push ws).levels ∧ s₁.release.aborted = s₁.aborted := by
        simp only [Session.push, hcons, List.nil_append] at hlevels ⊢
        simp only [Session.release, hlevels]
        exact ⟨trivial, trivial⟩
      have hview : ({ s with levels := []::s.levels } : Ses).view srv.db = s.view srv.db := by
        simp [Session.view, Session.pending]
      refine ⟨h.db, ?_, fun a' ha => ?_, fun e he => ?_⟩
      · rw [hrelease.1, ← (push_levels s ws hl).2.1]
        exact List.tail_suffix _
      · cases ha
        exact ⟨hrelease.2.trans hlive, ws, hview ▸ hdoes, hrelease.1⟩
      · cases he

theorem nests_of_within {α : Type} (f : TxFunc α) (g : Handle → Api (Except DbError α))
    (srv : Srv σ) (s : Ses) (hl : s.levels ≠ [])
    (hf : (g (.tx (s.levels.length+1))).Always backend me
      (Within f srv.tock { s with levels := []::s.levels }) srv.tock
        { s with levels := []::s.levels }) :
    (runTx (.tx s.levels.length) g).Always backend me (Nests f srv s) srv s := by
  rw [runTx_eq]
  refine always_savepoint backend me _ _ _ _ _ ?_ ?_
  · exact ⟨rfl, List.tail_suffix _, nofun, fun e _ hlive => nomatch hlive⟩
  · refine always_bind backend me _ _ _ _ _ (always_mono backend me _ _ ?_ _ _ _ hf)
    exact fun r srv₁ s₁ h => finish_nests me f srv srv₁ s s₁ r hl ⟨h.db, h.outer, h.does⟩

/-- What a function does after a nested transaction has returned. -/
theorem within_nested {α β : Type} (f : TxFunc β) (k : Except DbError β → TxFunc α)
    (srv srv₁ : Srv σ) (s s₁ : Ses) (r : Except DbError β) (hl : s.levels ≠ [])
    (h : Nests f srv s r srv₁ s₁) (hk : s₁.levels ≠ [] → s₁.aborted = false →
      ((k r).on (.tx s₁.levels.length)).Always backend me (Within (k r) srv₁ s₁) srv₁ s₁) :
    ((k r).on (.tx s.levels.length)).Always backend me (Within (.runTx f k) srv s) srv₁ s₁ := by
  by_cases hab : s₁.aborted = true
  · refine always_mono backend me _ _ (fun r' srv' s' hr => ?_) _ _ _
      (on_aborted me (k r) _ srv₁ s₁ hab)
    obtain ⟨hdb, hlevels, hab'⟩ := hr
    refine ⟨hdb.trans h.db, hlevels ▸ h.outer, fun hlive => ?_⟩
    rw [hab'] at hlive
    cases hlive
  · have hlive : s₁.aborted = false := by simpa using hab
    cases r with
    | error e =>
      have hlevels := h.undone e rfl hlive
      have hrest := hk (hlevels ▸ hl) hlive
      rw [hlevels] at hrest
      refine always_mono backend me _ _ (fun r' srv' s' hw => ?_) _ _ _ hrest
      refine ⟨hw.db.trans h.db, hlevels ▸ hw.outer, fun ha => ?_⟩
      obtain ⟨ws, hdoes, hws⟩ := hw.does ha
      rw [view_same s s₁ srv.db srv₁.db hlevels h.db] at hdoes
      exact ⟨ws, .failed e hdoes, hws.trans (push_same s s₁ ws hlevels)⟩
    | ok b =>
      obtain ⟨-, ws, hdoes, hlevels⟩ := h.committed b rfl
      obtain ⟨hlength, htail, -⟩ := push_levels s ws hl
      rw [← hlevels] at hlength htail
      have hne : s₁.levels ≠ [] := by
        rw [← List.length_pos_iff, hlength]
        exact List.length_pos_iff.mpr hl
      have hrest := hk hne hlive
      rw [hlength] at hrest
      refine always_mono backend me _ _ (fun r' srv' s' hw => ?_) _ _ _ hrest
      refine ⟨hw.db.trans h.db, htail ▸ hw.outer, fun ha => ?_⟩
      obtain ⟨ws', hdoes', hws'⟩ := hw.does ha
      rw [view_same (s.push ws) s₁ srv.db srv₁.db hlevels h.db, push_view s ws _ hl] at hdoes'
      refine ⟨ws++ws', .nested b hdoes hdoes', hws'.trans ?_⟩
      rw [push_same (s.push ws) s₁ ws' hlevels, push_push s ws ws' hl]

theorem within_ret {α : Type} (r : Except DbError α) (srv : Srv σ) (s : Ses) (hl : s.levels ≠ []) :
    Within (.ret r) srv s r srv s := by
  obtain ⟨l, ls, h⟩ := List.exists_cons_of_ne_nil hl
  exact ⟨rfl, List.tail_suffix _, fun _ => ⟨[], .ret r _, by simp [Session.push, h]⟩⟩

/-- A statement, on whatever handle of the transaction it is sent. -/
theorem within_stmt {α β : Type} (name : Stmt) (f : Queries.Sql β) (k : Except DbError β → TxFunc α)
    (d : ℕ) (srv : Srv σ) (s : Ses) (hl : s.levels ≠ []) (ha : s.aborted = false)
    (hk : ∀ b srv' s', s'.levels.length = s.levels.length → s'.levels ≠ [] → s'.aborted = false →
      ((k (.ok b)).on (.tx d)).Always backend me (Within (k (.ok b)) srv' s') srv' s') :
    ((TxFunc.stmt name f k).on (.tx d)).Always backend me (Within (.stmt name f k) srv s) srv
      s := by
  refine always_tx backend me _ srv s name _ f _ (fun e => ?_) (fun b ws hf => ?_) ha hl
  · refine always_mono backend me _ _ (fun r srv' s' h => ?_) _ _ _
      (on_aborted me (k (.error e)) _ srv.tock { s with aborted := true } rfl)
    obtain ⟨hdb, hlevels, hab⟩ := h
    refine ⟨hdb, ?_, fun hlive => ?_⟩
    · rw [hlevels]
      exact List.tail_suffix _
    · rw [hab] at hlive
      cases hlive
  · obtain ⟨hlength, htail, hab⟩ := push_levels s ws hl
    have hne : (s.push ws).levels ≠ [] := by
      rw [← List.length_pos_iff, hlength]
      exact List.length_pos_iff.mpr hl
    refine always_mono backend me _ _ (fun r srv' s' h => ?_) _ _ _
      (hk b srv.tock (s.push ws) hlength hne (hab.trans ha))
    refine ⟨h.db, htail ▸ h.outer, fun hlive => ?_⟩
    obtain ⟨ws', hdoes, hlevels⟩ := h.does hlive
    have hview : (s.push ws).view srv.tock.db = (s.view srv.db).replay ws := push_view s ws _ hl
    rw [hview] at hdoes
    exact ⟨ws++ws', .stmt _ b hf hdoes, hlevels.trans (push_push s ws ws' hl)⟩

theorem on_within {α : Type} (f : TxFunc α) (srv : Srv σ) (s : Ses) (hl : s.levels ≠ [])
    (ha : s.aborted = false) :
    (f.on (.tx s.levels.length)).Always backend me (Within f srv s) srv s := by
  induction f generalizing srv s with
  | ret r => exact within_ret r srv s hl
  | stmt name f k ih =>
    refine within_stmt me name f k _ srv s hl ha fun b srv' s' hlength hne hlive => ?_
    rw [← hlength]
    exact ih (.ok b) srv' s' hne hlive
  | runTx f k ihf ihk =>
    refine always_bind backend me _ _ _ _ _ (always_mono backend me _ _ ?_ _ _ _
      (nests_of_within me f f.on srv s hl ?_))
    · exact fun r srv₁ s₁ h => within_nested me f k srv srv₁ s s₁ r hl h (ihk r srv₁ s₁)
    · exact ihf srv.tock { s with levels := []::s.levels } (by simp) ha

/-! ## The law of `RunTx` -/

/-- The outermost transaction has committed what its function did, or nothing. -/
def Settles {α : Type} (f : TxFunc α) (srv : Srv σ) (r : Except DbError α) (srv' : Srv σ) : Prop :=
  match r with
  | .ok a => ∃ ws, f.Does srv.db (.ok a) ws ∧ srv'.db = srv.db.replay ws
  | .error _ => srv'.db = srv.db

theorem finish_settles {α : Type} (f : TxFunc α) (srv srv₁ : Srv σ) (s s₁ : Ses)
    (r : Except DbError α) (h : Within f srv { s with levels := [[]] } r srv₁ s₁) :
    (finish (.tx 1) r).Always backend me (fun r srv' _ => Settles f srv r srv') srv₁ s₁ := by
  cases r with
  | error e => exact fun fail => h.db
  | ok a =>
    refine always_commit backend me _ _ _ _ h.db fun hlive => ?_
    obtain ⟨ws, hdoes, hlevels⟩ := h.does hlive
    have hpending : s₁.pending = ws := by
      rw [Session.pending, hlevels]
      simp [Session.push]
    refine ⟨ws, hdoes, ?_⟩
    change srv₁.db.replay s₁.pending = _
    rw [hpending, h.db]

theorem runTx_settles {α : Type} (f : TxFunc α) (srv : Srv σ) (s : Ses) :
    (runTx .pool f.on).Always backend me (fun r srv' _ => Settles f srv r srv') srv s := by
  rw [runTx_eq]
  refine always_begin backend me _ _ _ _ rfl ?_
  let opened : Ses := { s with
    levels := [[]], aborted := false, start := srv.clock, since := srv.wal.length }
  have hin := on_within me f srv.tock opened (by simp [opened]) rfl
  refine always_bind backend me _ _ _ _ _ (always_mono backend me _ _ ?_ _ _ _ hin)
  exact fun r srv₁ s₁ h => finish_settles me f srv srv₁ s s₁ r ⟨h.db, h.outer, h.does⟩

/-- Whichever steps fail, the outermost transaction is all or nothing, and a
nested one whose function returns an error undoes its own writes only. -/
theorem runTx_law {α : Type} (f : TxFunc α) (srv : Srv σ) (s : Ses) :
    (runTx .pool f.on).Always backend me (fun r srv' _ => Settles f srv r srv') srv s ∧
    (s.levels ≠ [] → s.aborted = false →
      (runTx (.tx s.levels.length) f.on).Always backend me (Nests f srv s) srv s ∧
      (f.on (.tx (s.levels.length+1))).Always backend me (fun r srv₁ s₁ => ∀ e, r = .error e →
        (finish (.tx (s.levels.length+1)) r).Always backend me (fun r' srv' s' => r' = .error e ∧
          srv'.db = srv.db ∧ s'.levels = s.levels ∧ s'.aborted = false) srv₁ s₁)
        srv.tock { s with levels := []::s.levels }) := by
  refine ⟨runTx_settles me f srv s, fun hl ha => ?_⟩
  have hin := on_within me f srv.tock { s with levels := []::s.levels } (by simp) ha
  refine ⟨nests_of_within me f f.on srv s hl hin, always_mono backend me _ _ ?_ _ _ _ hin⟩
  rintro r srv₁ s₁ h e rfl
  refine always_mono backend me _ _ ?_ _ _ _ (finish_error me e srv₁ s s₁ hl h.outer)
  rintro r' srv' s' ⟨rfl, hdb, hlevels, hab⟩
  exact ⟨rfl, hdb.trans h.db, hlevels, hab⟩

end Runs

/-! ## Errors that are swallowed -/

/-- Creates an organization, swallows the error of a nested transaction and
returns none itself. -/
def swallowing (nested : TxFunc Unit) : TxFunc Unit :=
  .stmt .createOrganization (Queries.createOrganization "acme") (fun r => match r with
    | .error e => .ret (.error e)
    | .ok _ => .runTx nested (fun _ => .ret (.ok ())))

/-- Creates the organization a second time and swallows the error of the statement. -/
def repeating : TxFunc Unit :=
  .stmt .createOrganization (Queries.createOrganization "acme") (fun _ => .ret (.ok ()))

def demoSrv : Srv Unit := { db := Store.empty, ext := fun _ => none }

/-- In a transaction that has just begun. -/
theorem runTx_law_demo : (runTx (.tx 1) (swallowing (.ret (.ok ()))).on).Always backend ()
    (Nests (swallowing (.ret (.ok ()))) demoSrv { levels := [[]] }) demoSrv { levels := [[]] } :=
  ((runTx_law () (swallowing (.ret (.ok ()))) demoSrv { levels := [[]] }).2 (by simp) rfl).1

def demoOutcome (nested : TxFunc Unit) (fails : StepName Stmt → Bool) :
    Except DbError Unit × Bool :=
  let r := (runTx .pool (swallowing nested).on).run backend () fails demoSrv {}
  (r.1, (r.2.1.db.scan .organization).isEmpty)

/-- Without a savepoint, without its release and after a swallowed statement
the organization is lost with the nested transaction. -/
theorem swallowed_errors_lose :
    demoOutcome (.ret (.ok ())) (fun st => st = .savepoint) = (.error .refused, true) ∧
    demoOutcome (.ret (.ok ())) (fun st => st = .release) = (.error .refused, true) ∧
    demoOutcome repeating (fun _ => false) = (.error .refused, true) := by
  decide

/-- The error of the nested function itself can be swallowed. -/
example : demoOutcome (.ret (.error .refused)) (fun _ => false) = (.ok (), false) := by decide

/-! ## The transaction of a member request -/

def addMember (env : Env) (orgID : UUID) (email : String) : TxFunc UserAccount :=
  .stmt .getUserByEmailOrCreate (Queries.getUserByEmailOrCreate env email) (fun r =>
    match r.mapError notFound with
    | .error e => .ret (.error e)
    | .ok member =>
      .stmt .addUserToOrganization (Queries.addUserToOrganization member.id orgID) (fun r =>
        match r with
        | .error .alreadyExists => .ret (.ok member)
        | .error e => .ret (.error e)
        | .ok () => .ret (.ok member)))

/-- The callback of a member request is such a function. -/
theorem member_transaction {σ : Type} (me : σ) (env : Env) (orgID : UUID) (email : String)
    (f : Handle → Api (Except DbError UserAccount))
    (hf : ∀ tx, f tx = (addMember env orgID email).on tx)
    (srv : Srv σ) (s : Ses) (Q : Except DbError UserAccount → Srv σ → Ses → Prop)
    (hq : ∀ r srv' s', Settles (addMember env orgID email) srv r srv' → Q r srv' s') :
    (runTx .pool f).Always backend me Q srv s := by
  rw [funext hf]
  exact always_mono backend me _ _ hq _ _ _ (runTx_settles me _ srv s)

/-- A member request leaves the rows as they were, or with the user and the
membership together. -/
theorem putOrganizationMember_settles {σ : Type} (me : σ) (env : Env) (user : UserAccount)
    (organizationID : Param UUID) (email : Option String) (srv : Srv σ) (s : Ses) :
    (Handlers.putOrganizationMember env user organizationID email).Always backend me
      (fun _ srv' _ => srv'.db = srv.db ∨ ∃ orgID email member ws,
        (addMember env orgID email).Does srv.db (.ok member) ws ∧ srv'.db = srv.db.replay ws)
      srv s := by
  refine always_bind backend me _ _ _ _ _ ?_
  cases organizationID with
  | absent => exact Or.inl rfl
  | invalid => exact fun _ => Or.inl rfl
  | value id =>
    refine always_bind backend me _ _ _ _ _ (always_pool backend me _ srv s _ _ _
      (fun e fail => Or.inl rfl) fun b ws hf => ?_)
    have hws : ws = [] := Ownership.read_ok _ b ws hf
    subst hws
    obtain ⟨member, org⟩ := b
    cases member with
    | false => exact fun fail => Or.inl rfl
    | true =>
      cases email with
      | none => exact fun fail => Or.inl rfl
      | some email =>
        refine always_bind backend me _ _ _ _ _ ?_
        refine member_transaction me env org.id (Validation.trimSpace email) _ (fun tx => ?_)
          _ s _ fun r srv' s' h => ?_
        · refine congrArg (Prog.act _) (funext fun r => ?_)
          cases r with
          | error e => rfl
          | ok member =>
            refine congrArg (Prog.act _) (funext fun r => ?_)
            cases r with
            | error e => cases e <;> rfl
            | ok _ => rfl
        · cases r with
          | error e => exact fun fail => Or.inl h
          | ok member =>
            intro fail fail'
            exact Or.inr ⟨_, _, member, h⟩

end Jetski.Transactions
