import Jetski.Routes
import Jetski.Ownership
import Jetski.Relational.Alone

/-!
# The gateway webhook

A gateway reports every call that it has served. The handler looks up the
account of the caller, although a log may be stored without one, and returns
without a status when the lookup fails. The row that an insert returns is
decoded after it was committed, so a call whose row cannot be read back is
stored and answered with an error. Every other exit accounts for the call: the
log is stored and the answer is a success, or neither. The project of a missing
revision is null, which is refused before the key of the revision is checked,
so the violation that is answered as a bad request never comes up.
-/

set_option autoImplicit false

namespace Jetski.Webhook

open Relational Schema Jetski.Types Database Handlers Routes

/-! ## The statements -/

section Statements
variable (env : Env) (db : Db)

theorem mem_usersWithEmail (email : String) (u : UserAccount) :
    u ∈ Queries.usersWithEmail db email ↔
      ∃ v, db.row .userAccount u.id = some v ∧ v.email = email ∧ u = { v with id := u.id } := by
  simp only [Queries.usersWithEmail, List.mem_filterMap]
  constructor
  · rintro ⟨⟨k, v⟩, hm, h⟩
    split at h
    · next he =>
      cases h
      exact ⟨v, (db.mem_scan .userAccount k v).mp hm, he, rfl⟩
    · cases h
  · rintro ⟨v, hv, he, hu⟩
    refine ⟨(u.id, v), (db.mem_scan .userAccount u.id v).mpr hv, ?_⟩
    rw [if_pos he, ← hu]

theorem usersWithEmail_nodup (email : String) : (Queries.usersWithEmail db email).Nodup := by
  apply List.Nodup.filterMap _ (db.scan_nodup .userAccount)
  intro x y u hx hy
  simp only [Option.mem_def] at hx hy
  split at hx <;> split at hy
  · have hsame := hx.trans hy.symm
    exact Prod.ext (congrArg UserAccount.id (Option.some.inj hsame))
      (congrArg UserAccount.toUserAccountRow (Option.some.inj hsame))
  all_goals simp at hx hy

/-- Exactly one account has the address. -/
def OneAccount (email : String) : Prop :=
  ∃ k v, db.row .userAccount k = some v ∧ v.email = email ∧
    ∀ k' v', db.row .userAccount k' = some v' → v'.email = email → k' = k

theorem oneAccount_iff (email : String) :
    OneAccount db email ↔ ∃ u, Queries.usersWithEmail db email = [u] := by
  constructor
  · rintro ⟨k, v, hv, he, hone⟩
    refine ⟨{ v with id := k }, ?_⟩
    have hall : ∀ u ∈ Queries.usersWithEmail db email, u = { v with id := k } := by
      intro u hu
      obtain ⟨w, hw, hwe, hu⟩ := (mem_usersWithEmail db email u).mp hu
      have hk := hone u.id w hw hwe
      rw [hk] at hw hu
      cases hv.symm.trans hw
      exact hu
    have hmem : { v with id := k } ∈ Queries.usersWithEmail db email :=
      (mem_usersWithEmail db email _).mpr ⟨v, hv, he, rfl⟩
    have hnodup := usersWithEmail_nodup db email
    rcases hus : Queries.usersWithEmail db email with _ | ⟨u, _ | ⟨u', us⟩⟩
    · simp [hus] at hmem
    · rw [hall u (by simp [hus])]
    · have hu := hall u (by simp [hus])
      have hu' := hall u' (by simp [hus])
      simp [hus, hu, hu'] at hnodup
  · rintro ⟨u, hu⟩
    obtain ⟨v, hv, he, -⟩ := (mem_usersWithEmail db email u).mp (by simp [hu])
    refine ⟨u.id, v, hv, he, fun k' v' hv' he' => ?_⟩
    have hmem := (mem_usersWithEmail db email { v' with id := k' }).mpr ⟨v', hv', he', rfl⟩
    rw [hu, List.mem_singleton] at hmem
    exact congrArg UserAccount.id hmem

theorem getUserByEmail_ok_iff (email : String) (t : Tick) :
    (∃ u, Queries.getUserByEmail env email t db = .ok (u, [])) ↔
      Queries.storable (env.toLower email) = true ∧ OneAccount db (env.toLower email) := by
  rw [oneAccount_iff]
  simp only [Queries.getUserByEmail, Queries.select]
  by_cases hs : Queries.storable (env.toLower email) = true
  · simp only [hs, if_true, true_and]
    rcases Queries.usersWithEmail db (env.toLower email) with _ | ⟨u, _ | ⟨u', us⟩⟩
    · simp [Queries.collectExactlyOneRow, Except.map]
    · simp [Queries.collectExactlyOneRow, Except.map]
    · simp [Queries.collectExactlyOneRow, Except.map]
  · simp [hs, Except.map]

/-- A stored log is one row image under a new key. -/
theorem createMCPServerLog_ok (data : MCPServerLogRow5) (t : Tick) (l : UUID × MCPServerLogRow)
    (ws : List Image) (h : Logs.createMCPServerLog data t db = .ok (l, ws)) :
    ∃ r, db.row .deploymentRevision data.deploymentRevisionID = some r ∧
      db.row .mcpServerLog t.fresh = none ∧
      l = (t.fresh, { Logs.storedLog data with projectID := r.projectID }) ∧
      ws = [⟨.mcpServerLog, l.1, some l.2⟩] := by
  rw [Logs.createMCPServerLog] at h
  split at h
  · split at h
    · cases h
    · next r hr =>
      rw [Queries.insertRow] at h
      split at h
      · cases h
      · next hnew =>
        obtain ⟨rfl, hws⟩ := Ownership.putRow_ok _ _ _ _ _ _ _ h
        exact ⟨r, hr, hnew, rfl, hws⟩
  · cases h

/-- The log of an account is stored if the database can hold its values under a
new key, and its revision and the project of the revision are there. -/
theorem createMCPServerLog_stores (data : MCPServerLogRow5) (t : Tick)
    (huser : ∀ u ∈ data.userAccountID, (db.row .userAccount u).isSome) :
    (∃ l ws, Logs.createMCPServerLog data t db = .ok (l, ws)) ↔
      Logs.fits data ∧ db.row .mcpServerLog t.fresh = none ∧
        ∃ r, db.row .deploymentRevision data.deploymentRevisionID = some r ∧
          (db.row .project r.projectID).isSome := by
  constructor
  · rintro ⟨l, ws, h⟩
    obtain ⟨r, hr, hnew, rfl, -⟩ := createMCPServerLog_ok db data t l ws h
    rw [Logs.createMCPServerLog] at h
    split at h
    · next hfits =>
      simp only [hr, Queries.insertRow, hnew, Queries.putRow] at h
      split at h
      · cases h
      · next ws' hput =>
        obtain ⟨p, hp⟩ := put_parent schema logProject (by simp [schema, foreignKeys]) db t.fresh _
          ws' hput r.projectID rfl
        have hp := (db.set_table .mcpServerLog .project _ _ _ (by decide)).symm.trans hp
        exact ⟨hfits, hnew, r, hr, Option.isSome_iff_exists.mpr ⟨p, hp⟩⟩
    · cases h
  · rintro ⟨hfits, hnew, r, hr, hproject⟩
    have hput : ∀ v : MCPServerLogRow, v.userAccountID = data.userAccountID →
        v.deploymentRevisionID = data.deploymentRevisionID → v.projectID = r.projectID →
        schema.put db .mcpServerLog t.fresh v = .ok [⟨.mcpServerLog, t.fresh, some v⟩] := by
      intro v hu hd hp
      refine put_accepted schema db .mcpServerLog t.fresh v (by simp [schema, uniques]) ?_
      intro f hf
      have hf : f = logUser ∨ f = logRevision ∨ f = logProject := by
        simpa [schema, foreignKeys, membershipOrganization, membershipUser, projectCreatedBy,
          projectOrganization, revisionCreatedBy, contextUser, revisionProject, eventRevision,
          propertyProject, contextProperty, projectLatestRevision, projectLatestEvent, logUser,
          logRevision, logProject] using hf
      rcases hf with rfl | rfl | rfl
      · refine dangles_parent logUser _ _ _ fun j hj => ?_
        obtain ⟨w, hw⟩ := Option.isSome_iff_exists.mp (huser j (hu ▸ hj))
        exact ⟨w, (db.set_table .mcpServerLog .userAccount _ _ _ (by decide)).trans hw⟩
      · refine dangles_parent logRevision _ _ _ fun j hj => ?_
        cases hj
        exact ⟨r, (db.set_table .mcpServerLog .deploymentRevision _ _ _ (by decide)).trans
          (hd ▸ hr)⟩
      · refine dangles_parent logProject _ _ _ fun j hj => ?_
        cases hj
        obtain ⟨w, hw⟩ := Option.isSome_iff_exists.mp hproject
        exact ⟨w, (db.set_table .mcpServerLog .project _ _ _ (by decide)).trans (hp ▸ hw)⟩
    let v : MCPServerLogRow := ⟨Logs.storedLog data, r.projectID⟩
    refine ⟨(t.fresh, v), [⟨.mcpServerLog, t.fresh, some v⟩], ?_⟩
    rw [Logs.createMCPServerLog, if_pos hfits]
    simp only [hr, Queries.insertRow, hnew, Queries.putRow]
    rw [hput v rfl rfl rfl]

theorem getUserByEmail_row (email : String) (t : Tick) (u : UserAccount) (ws : List Image)
    (h : Queries.getUserByEmail env email t db = .ok (u, ws)) :
    (db.row .userAccount u.id).isSome := by
  simp only [Queries.getUserByEmail, Queries.select] at h
  split at h
  · rcases hus : Queries.usersWithEmail db (env.toLower email) with _ | ⟨u', _ | ⟨u'', us⟩⟩
    · simp [hus, Queries.collectExactlyOneRow, Except.map] at h
    · simp only [hus, Queries.collectExactlyOneRow, Except.map, Except.ok.injEq,
        Prod.mk.injEq] at h
      obtain ⟨v, hv, -⟩ := (mem_usersWithEmail db (env.toLower email) u).mp (by simp [hus, h.1])
      exact Option.isSome_iff_exists.mpr ⟨v, hv⟩
    · simp [hus, Queries.collectExactlyOneRow, Except.map] at h
  · cases h

end Statements

/-! ## The handler -/

section Handler
variable {σ : Type} (me : σ) (fails : StepName Stmt → Bool) (env : Env)

def answered (out : List Output) : ℕ :=
  match out with
  | .response status _ :: _ => status
  | _ => 200

def Success (out : List Output) : Prop := 200 ≤ answered out ∧ answered out < 300

/-- Exactly one log was stored: of the revision and with the fields of the payload. -/
def Recorded (srv srv' : Srv σ) (id : UUID) (payload : WebhookPayload) : Prop :=
  ∃ k v user, v.toMCPServerLogRow5 = Logs.storedLog (mcpLogEntry payload id user) ∧
    srv.db.row .mcpServerLog k = none ∧ ∀ k', srv'.db.row .mcpServerLog k' =
      if k' = k then some v else srv.db.row .mcpServerLog k'

/-- A success means that the call was recorded, an error that no log was stored. -/
def Accounts (srv srv' : Srv σ) (out : List Output) (id : UUID) (payload : WebhookPayload) : Prop :=
  (Success out → Recorded srv srv' id payload) ∧
    (¬ Success out → ∀ k, srv'.db.row .mcpServerLog k = srv.db.row .mcpServerLog k)

def KnownCaller (db : Db) (payload : WebhookPayload) : Prop :=
  fails (.stmt .getUserByEmail) = false ∧
    Queries.storable (env.toLower payload.subjectEmail) = true ∧
    OneAccount db (env.toLower payload.subjectEmail)

/-- The insert of the call succeeds: its statement does not fail, the database can
hold the payload under a new key, and the revision and its project are there. -/
def Stores (srv : Srv σ) (id : UUID) (payload : WebhookPayload) : Prop :=
  fails (.stmt .createMCPServerLog) = false ∧
    (∀ user, Logs.fits (mcpLogEntry payload id user)) ∧
    srv.db.row .mcpServerLog (srv.next+1) = none ∧
    ∃ r, srv.db.row .deploymentRevision id = some r ∧ (srv.db.row .project r.projectID).isSome

/-- The request and the response of the payload can be decoded from its row. -/
def ReadBack (payload : WebhookPayload) : Prop :=
  (Logs.decodeColumn env.unmarshalRequest payload.mcpRequest).isSome ∧
    (Logs.decodeColumn env.unmarshalResponse payload.mcpResponse).isSome

/-- Storing the log of a known caller and answering. -/
theorem wp_store (srv₀ srv : Srv σ) (id : UUID) (payload : WebhookPayload) (user : UserAccount)
    (hdb : srv.db = srv₀.db) (hnext : srv.next = srv₀.next+1)
    (huser : (srv.db.row .userAccount user.id).isSome) :
    Prog.Wp backend me fails (show Api Unit from do
      match ← createMCPServerLog env .pool (mcpLogEntry payload id user) with
      | .error .notFound => respond 400 (.text "Bad Request")
      | .error _ => respond 500 (.text "query MCPServerLog failed")
      | .ok _ => return)
      (fun _ srv' s' => Accounts srv₀ srv' s'.out id payload ↔
        (Stores fails srv₀ id payload → ReadBack env payload)) srv {} := by
  have hstores : Stores fails srv₀ id payload ↔ fails (.stmt .createMCPServerLog) = false ∧
      ∃ l ws, Logs.createMCPServerLog (mcpLogEntry payload id user)
        (Session.tick ({} : Ses) srv .pool) srv.db = .ok (l, ws) := by
    have hlooked : ∀ u ∈ (mcpLogEntry payload id user).userAccountID,
        (srv.db.row .userAccount u).isSome := by
      intro u hu
      cases hu
      exact huser
    rw [createMCPServerLog_stores srv.db _ _ hlooked]
    rw [show (Session.tick ({} : Ses) srv .pool).fresh = srv₀.next+1 from hnext, hdb]
    -- whether the payload fits does not depend on the account
    exact and_congr_right fun _ => and_congr_left fun _ => ⟨fun h => h user, fun h _ => h⟩
  have herror : ∀ (srv' : Srv σ) status body, srv'.db = srv₀.db → 300 ≤ status →
      Accounts srv₀ srv' ([]++[.response status body]) id payload := by
    intro srv' status body hd hs
    constructor
    · intro h
      have hlow : status < 300 := h.2
      omega
    · intro _ k
      rw [hd]
  refine wp_pool backend me fails _ _ _ _ _ _ (fun e hf => ?_) fun l ws hrun hf => ?_
  · have hno : ¬ Stores fails srv₀ id payload := by
      rw [hstores]
      rintro ⟨hrun, l, ws, hl⟩
      rcases hf with hf | hf
      · exact absurd (hrun.symm.trans hf) (by simp)
      · exact absurd (hl.symm.trans hf) (by simp)
    change Prog.Wp _ _ _ (Prog.bind (.ret (Except.error (badRevision e))) _) _ _ _
    rw [Prog.bind_ret]
    cases badRevision e with
    | notFound => exact iff_of_true (herror _ 400 _ hdb (by decide)) fun h => absurd h hno
    | _ => exact iff_of_true (herror _ 500 _ hdb (by decide)) fun h => absurd h hno
  · have hyes := hstores.mpr ⟨hrun, l, ws, hf⟩
    obtain ⟨r, -, hnew, hl, rfl⟩ := createMCPServerLog_ok _ _ _ l ws hf
    rw [hdb] at hnew
    have hrow : ∀ k', (srv.db.replay [⟨.mcpServerLog, l.1, some l.2⟩]).row .mcpServerLog k' =
        if k' = l.1 then some l.2 else srv₀.db.row .mcpServerLog k' := by
      intro k'
      change (srv.db.set .mcpServerLog _ _).row .mcpServerLog k' = _
      rw [hdb, Store.set_row]
    change Prog.Wp _ _ _ (Prog.bind (.ret (Logs.scanLog env l)) _) _ _ _
    rw [Prog.bind_ret]
    have hread : Logs.Readable env l.2.toMCPServerLogRow5 ↔ ReadBack env payload := by
      rw [hl]
      exact Iff.rfl
    cases hscan : Logs.scanLog env l with
    | ok log =>
      have hok := hread.mp ((Logs.scanLog_iff env l log).mp hscan).1
      refine iff_of_true ⟨fun _ => ?_, fun h => ?_⟩ fun _ => hok
      · refine ⟨l.1, l.2, user, by rw [hl], by rw [hl]; exact hnew, hrow⟩
      · exact absurd (show Success [] from ⟨by decide, by decide⟩) h
    | error e =>
      obtain ⟨rfl, hbad⟩ := Logs.scanLog_error env l e hscan
      have hlost : ∀ (srv' : Srv σ) status body, srv'.db =
          srv.db.replay [⟨.mcpServerLog, l.1, some l.2⟩] → 300 ≤ status →
          ¬ Accounts srv₀ srv' ([]++[.response status body]) id payload := by
        intro srv' status body hd hs h
        have hkeep := h.2 (fun h => absurd h.2 (Nat.not_lt.mpr hs)) l.1
        rw [hd, hrow, if_pos rfl, hl, hnew] at hkeep
        cases hkeep
      exact iff_of_false (hlost _ 500 _ rfl (by decide)) fun h => hbad (hread.mpr (h hyes))

/-- A call of a payload is accounted for exactly if the lookup of the caller's
account succeeds and the row, if one is stored, can be read back. -/
theorem gatewayWebhook_accounts_iff (srv : Srv σ) (id : UUID) (payload : WebhookPayload) :
    Accounts srv ((gatewayWebhook env (.value id) (some payload)).run backend me fails srv {}).2.1
      ((gatewayWebhook env (.value id) (some payload)).run backend me fails srv {}).2.2.out id
        payload ↔ KnownCaller fails env srv.db payload ∧
          (Stores fails srv id payload → ReadBack env payload) := by
  have hlookup := getUserByEmail_ok_iff env srv.db payload.subjectEmail
    (Session.tick ({} : Ses) srv .pool)
  change Prog.Wp backend me fails (gatewayWebhook env (.value id) (some payload))
    (fun _ srv' s' => Accounts srv srv' s'.out id payload ↔ KnownCaller fails env srv.db payload ∧
      (Stores fails srv id payload → ReadBack env payload)) srv {}
  refine wp_pool backend me fails _ _ _ _ _ _ (fun e hf => ?_) fun user ws hread hf => ?_
  · refine iff_of_false (fun h => ?_) fun hk => ?_
    · obtain ⟨k, v, -, -, hnone, hrow⟩ := h.1 (show Success [] from ⟨by decide, by decide⟩)
      have hk := (hrow k).symm.trans hnone
      rw [if_pos rfl] at hk
      cases hk
    · obtain ⟨⟨hread, hs, hone⟩, -⟩ := hk
      obtain ⟨u, hu⟩ := hlookup.mpr ⟨hs, hone⟩
      rcases hf with hf | hf
      · exact absurd (hread.symm.trans hf) (by simp)
      · exact absurd (hu.symm.trans hf) (by simp)
  · have hws := Ownership.read_ok _ user ws hf
    subst hws
    have hknown : KnownCaller fails env srv.db payload := ⟨hread, hlookup.mp ⟨user, hf⟩⟩
    have huser : (srv.db.row .userAccount user.id).isSome :=
      getUserByEmail_row env srv.db payload.subjectEmail _ user [] hf
    have hstore := wp_store me fails env srv (srv.apply ⟨me, srv.wal.length, []⟩).tock id payload
      user rfl rfl huser
    simp only [hknown, true_and]
    exact hstore

/-! ## A missing revision -/

def missingError (data : MCPServerLogRow5) : DbError :=
  if fails (.stmt .createMCPServerLog) = true then .refused
  else if Logs.fits data then .notNull "project_id"
  else .invalid

theorem createMCPServerLog_run (srv : Srv σ) (data : MCPServerLogRow5)
    (hmissing : srv.db.row .deploymentRevision data.deploymentRevisionID = none) :
    (createMCPServerLog env .pool data).run backend me fails srv {} =
      (.error (missingError fails data), srv.tock, {}) := by
  have hlog : ∀ t, Logs.createMCPServerLog data t srv.db =
      .error (if Logs.fits data then .notNull "project_id" else .invalid) := by
    intro t
    rw [Logs.createMCPServerLog, hmissing]
    split
    · rfl
    · rfl
  have hview : ({} : Ses).visible srv .pool = srv.db := rfl
  change Prog.run backend me fails (Prog.act (.stmt .createMCPServerLog .pool
    (Logs.createMCPServerLog data)) _) srv {} = _
  rw [missingError, Prog.run, Action.exec, Action.name, hview, hlog]
  cases fails (.stmt .createMCPServerLog) with
  | true => rfl
  | false =>
    cases Logs.fits data with
    | true => rfl
    | false => rfl

/-- Nothing is stored, and the error is the one that is answered with 400. -/
def MissingReported (srv : Srv σ) (data : MCPServerLogRow5) : Prop :=
  ((createMCPServerLog env .pool data).run backend me fails srv {}).2.1.db = srv.db ∧
    ((createMCPServerLog env .pool data).run backend me fails srv {}).1 = .error .notFound

theorem missingError_ne (data : MCPServerLogRow5) : missingError fails data ≠ .notFound := by
  rw [missingError]
  split
  · simp
  · split
    · simp
    · simp

theorem wp_missing (srv : Srv σ) (id : UUID) (payload : WebhookPayload) (user : UserAccount)
    (hmissing : srv.db.row .deploymentRevision id = none) :
    Prog.Wp backend me fails (show Api Unit from do
      match ← createMCPServerLog env .pool (mcpLogEntry payload id user) with
      | .error .notFound => respond 400 (.text "Bad Request")
      | .error _ => respond 500 (.text "query MCPServerLog failed")
      | .ok _ => return)
      (fun _ _ s' => answered s'.out ≠ 400) srv {} := by
  have hne := missingError_ne fails (mcpLogEntry payload id user)
  have hfail : ∀ srv' : Srv σ, Prog.Wp backend me fails
      (respond 500 (.text "query MCPServerLog failed")) (fun _ _ s' => answered s'.out ≠ 400)
      srv' {} := by
    intro srv'
    show answered ([]++[.response 500 _]) ≠ 400
    decide
  apply wp_bind
  rw [Prog.Wp, createMCPServerLog_run me fails env srv (mcpLogEntry payload id user) hmissing]
  cases he : missingError fails (mcpLogEntry payload id user) with
  | notFound => exact absurd he hne
  | _ => exact hfail srv.tock

theorem missing_answer (srv : Srv σ) (id : UUID) (payload : WebhookPayload)
    (hmissing : srv.db.row .deploymentRevision id = none) :
    answered ((gatewayWebhook env (.value id) (some payload)).run backend me fails srv {}).2.2.out ≠
      400 := by
  change Prog.Wp backend me fails (gatewayWebhook env (.value id) (some payload))
    (fun _ _ s' => answered s'.out ≠ 400) srv {}
  refine wp_pool backend me fails _ _ _ _ _ _ (fun e _ => ?_) fun user ws _ hf => ?_
  · show answered [] ≠ 400
    decide
  · have hws := Ownership.read_ok _ user ws hf
    subst hws
    have hstore := wp_missing me fails env (srv.apply ⟨me, srv.wal.length, []⟩).tock id payload user
      hmissing
    exact hstore

/-- Without its revision no log is stored, but the error is never the one that is
answered with 400. -/
theorem createMCPServerLog_missing (srv : Srv σ) (data : MCPServerLogRow5)
    (hmissing : srv.db.row .deploymentRevision data.deploymentRevisionID = none) :
    ¬ MissingReported me fails env srv data ∧
      ((createMCPServerLog env .pool data).run backend me fails srv {}).2.1.db = srv.db ∧
      ((createMCPServerLog env .pool data).run backend me fails srv {}).1 =
        .error (missingError fails data) ∧
      ∀ payload, answered ((gatewayWebhook env (.value data.deploymentRevisionID)
        (some payload)).run backend me fails srv {}).2.2.out ≠ 400 := by
  have hrun := createMCPServerLog_run me fails env srv data hmissing
  refine ⟨?_, by rw [hrun]; rfl, by rw [hrun], fun payload =>
    missing_answer me fails env srv _ payload hmissing⟩
  intro h
  have herror := h.2
  rw [hrun] at herror
  exact missingError_ne fails data (Except.error.inj herror)

end Handler

def demoServer : Srv Unit where
  db := GatewayConfig.demoDb
  next := 6
  ext _ := none

def anonymousPayload : WebhookPayload := { unrequestedPayload with subjectEmail := "" }

/-- It is acknowledged and dropped. -/
theorem anonymous_call_dropped : demoServer.db.row .deploymentRevision 5 ≠ none ∧
    ¬ Accounts demoServer
      ((gatewayWebhook Env.demo (.value 5) (some anonymousPayload)).run backend ()
        (fun _ => false) demoServer {}).2.1
      ((gatewayWebhook Env.demo (.value 5) (some anonymousPayload)).run backend ()
        (fun _ => false) demoServer {}).2.2.out 5 anonymousPayload := by
  have hout : answered ((gatewayWebhook Env.demo (.value 5) (some anonymousPayload)).run backend ()
      (fun _ => false) demoServer {}).2.2.out = 200 := by decide
  have hnone : ((gatewayWebhook Env.demo (.value 5) (some anonymousPayload)).run backend ()
      (fun _ => false) demoServer {}).2.1.db.heap .mcpServerLog = [] := by decide
  refine ⟨by decide, fun h => ?_⟩
  obtain ⟨k, v, -, -, -, hrow⟩ := h.1 ⟨hout ▸ by decide, hout ▸ by decide⟩
  have hk := hrow k
  rw [if_pos rfl] at hk
  have hmem := Store.complete _ Table.mcpServerLog k v hk
  rw [hnone] at hmem
  cases hmem

def strayLog : MCPServerLogRow5 := mcpLogEntry unrequestedPayload 8 ⟨⟨0, "ada@acme.com"⟩, 1⟩

theorem strayLog_missing :
    demoServer.db.row .deploymentRevision strayLog.deploymentRevisionID = none ∧
    ((createMCPServerLog Env.demo .pool strayLog).run backend () (fun _ => false) demoServer
      {}).1 =
      .error (.notNull "project_id") := by
  have hmissing : demoServer.db.row .deploymentRevision strayLog.deploymentRevisionID = none := by
    decide
  have h := createMCPServerLog_missing () (fun _ => false) Env.demo demoServer strayLog hmissing
  have herror : missingError (fun _ => false) strayLog = .notNull "project_id" := by decide
  exact ⟨hmissing, h.2.2.1.trans (congrArg Except.error herror)⟩

theorem strayLog_unreported : ¬ ∀ (srv : Srv Unit) (data : MCPServerLogRow5),
    srv.db.row .deploymentRevision data.deploymentRevisionID = none →
      MissingReported () (fun _ => false) Env.demo srv data := by
  intro h
  have herror := (h demoServer strayLog (by decide)).2
  have hresult : ((createMCPServerLog Env.demo .pool strayLog).run backend () (fun _ => false)
      demoServer {}).1 = .error (.notNull "project_id") := by rfl
  rw [hresult] at herror
  cases herror

end Jetski.Webhook
