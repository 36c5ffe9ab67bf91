import Jetski.Serial
import Jetski.Relational.Updates

/-!
# Concurrent organization requests

A request reads its organization in the access check, changes the settings that
its body gives and writes all of them in a later statement. What was written in
between is undone unless it concerns settings that the request gives as well. If
that never happens, the requests leave what they leave one after another in the
order of their writes.
-/

set_option autoImplicit false

namespace Jetski.OrganizationRuns

open Relational Schema Jetski.Types Database Handlers Reachability Duties Serial

/-! ## Settings -/

inductive Field where
  | customDomain
  | authorization
  deriving DecidableEq, Repr

@[reducible] def Value : Field → Type
  | .customDomain => Option String
  | .authorization => OrganizationAuthorizationSettings

def settingsOf (s : OrganizationSettings) : Fields Value
  | .customDomain => s.customDomain
  | .authorization => s.authorization

def defaultSettings : OrganizationSettings := ⟨none, ⟨true⟩⟩

def stored (db : Db) (orgID : UUID) : Fields Value :=
  settingsOf (((db.row .organization orgID).map (fun v => v.settings)).getD defaultSettings)

/-- The settings that a request gives; the empty domain removes it. -/
def requested (req : OrganizationSettingsRequest) : Update Value
  | .customDomain => req.customDomain.map (fun domain => if domain = "" then none else some domain)
  | .authorization => req.authorization

def Valid (req : OrganizationSettingsRequest) : Prop :=
  ∀ domain, req.customDomain = some domain → domain ≠ "" →
    Validation.validateDomainName domain = .ok ()

theorem stored_row (db : Db) (orgID : UUID) (v : OrganizationRow)
    (hv : db.row .organization orgID = some v) : stored db orgID = settingsOf v.settings := by
  simp [stored, hv]

theorem requested_none (req : OrganizationSettingsRequest)
    (h : (req.customDomain.isSome || req.authorization.isSome) = false) (f : Field) :
    requested req f = none := by
  simp only [Bool.or_eq_false_iff, Option.isSome_eq_false_iff, Option.isNone_iff_eq_none] at h
  cases f with
  | customDomain => simp [requested, h.1]
  | authorization => exact h.2

theorem requested_some (req : OrganizationSettingsRequest)
    (h : (req.customDomain.isSome || req.authorization.isSome) = true) :
    ∃ f, requested req f ≠ none := by
  rcases (Bool.or_eq_true _ _).mp h with h | h
  · obtain ⟨domain, hd⟩ := Option.isSome_iff_exists.mp h
    exact ⟨.customDomain, by simp [requested, hd]⟩
  · obtain ⟨a, ha⟩ := Option.isSome_iff_exists.mp h
    exact ⟨.authorization, by simp [requested, ha]⟩

theorem requestedDomain_ok (org : Organization) (req : OrganizationSettingsRequest)
    (customDomain : Option String) (h : requestedDomain org req = .ok customDomain) :
    Valid req ∧ customDomain = (requested req .customDomain).getD org.settings.customDomain := by
  rw [requestedDomain] at h
  cases hd : req.customDomain with
  | none =>
    simp only [hd, Except.ok.injEq] at h
    exact ⟨by simp [Valid, hd], by simp [requested, hd, h]⟩
  | some domain =>
    by_cases hempty : domain = ""
    · simp only [hd, if_pos hempty, Except.ok.injEq] at h
      exact ⟨by simp [Valid, hd, hempty], by simp [requested, hd, hempty, h]⟩
    · simp only [hd, if_neg hempty] at h
      cases hv : Validation.validateDomainName domain with
      | error e =>
        rw [hv] at h
        cases h
      | ok =>
        simp only [hv, Except.map, Except.ok.injEq] at h
        subst h
        exact ⟨by simp [Valid, hd, hv], by simp [requested, hd, hempty]⟩

theorem requestedSettings_ok (org org' : Organization) (req : OrganizationSettingsRequest)
    (h : requestedSettings org req = .ok org') : org'.id = org.id ∧ Valid req ∧
      settingsOf org'.settings = (requested req).apply (settingsOf org.settings) := by
  rw [requestedSettings] at h
  cases hd : requestedDomain org req with
  | error e =>
    rw [hd] at h
    cases h
  | ok customDomain =>
    simp only [hd, Except.map, Except.ok.injEq] at h
    obtain ⟨hvalid, hdomain⟩ := requestedDomain_ok org req customDomain hd
    subst h
    refine ⟨rfl, hvalid, ?_⟩
    ext f
    cases f with
    | customDomain => exact hdomain
    | authorization => rfl

theorem requestedSettings_valid (org : Organization) (req : OrganizationSettingsRequest)
    (h : Valid req) : ∃ org', requestedSettings org req = .ok org' := by
  simp only [requestedSettings, requestedDomain]
  cases hd : req.customDomain with
  | none => exact ⟨_, rfl⟩
  | some domain =>
    by_cases hempty : domain = ""
    · simp only [if_pos hempty]
      exact ⟨_, rfl⟩
    · simp only [if_neg hempty, h domain hd hempty]
      exact ⟨_, rfl⟩

/-! ## The duty of a request -/

/-- The organization exists with the given members. -/
structure Kept (orgID : UUID) (member : UUID → Bool) (db : Db) : Prop where
  organization : ∃ v, db.row .organization orgID = some v
  members : ∀ userID, Queries.isMember db userID orgID = member userID

section Duty
variable (env : Env) (user : UserAccount) (req : OrganizationSettingsRequest) (orgID : UUID)
variable (member : UUID → Bool)

/-- A member writes the update of settings that it has read. -/
def organizationDuty : ApiDuty where
  fallible := True
  pool reads ws := (∃ d ∈ reads, ∃ v, ws = [⟨.organization, orgID, some v⟩] ∧
      settingsOf v.settings = (requested req).apply (stored d orgID)) ∧
    Valid req ∧ member user.id = true ∧ ∃ f, requested req f ≠ none
  commit _ _ _ _ := False
  done _ _ := True

theorem image_stored (db : Db) (v : OrganizationRow) :
    stored (db.replay [⟨.organization, orgID, some v⟩]) orgID = settingsOf v.settings :=
  stored_row _ _ v (db.set_same .organization orgID (some v))

variable {orgID member} in
theorem image_kept (db : Db) (h : Kept orgID member db) (v : OrganizationRow) :
    Kept orgID member (db.replay [⟨.organization, orgID, some v⟩]) := by
  constructor
  · exact ⟨v, db.set_same .organization orgID (some v)⟩
  · intro userID
    rw [← h.members userID, Queries.isMember]
    exact congrArg Option.isSome
      (db.set_table .organization .organizationUserAccount orgID _ (some v) (by decide))

theorem obeys_putOrganizationHandler :
    Obeys (Kept orgID member) (organizationDuty user req orgID member)
      (Ended (organizationDuty user req orgID member))
      (putOrganizationHandler env user (.value orgID) (some req)) (.closed false false []) := by
  have hend : ∀ c s reads, Ended (organizationDuty user req orgID member) () (.closed c s reads) :=
    fun c s reads => ⟨c, s, reads, rfl, trivial⟩
  refine obeys_withOrganization _ _ user _ _ _ (fun reads => hend _ _ _) ?_
  intro org d hk ho horg hm
  cases ho
  cases hset : requestedSettings org req with
  | error e =>
    simp only [hset]
    exact hend _ _ _
  | ok org' =>
    simp only [hset]
    obtain ⟨hid, hvalid, happly⟩ := requestedSettings_ok org org' req hset
    obtain ⟨v, hv⟩ := hk.organization
    have horg' : org = { v with id := org.id } := by
      rw [Queries.organization, hv] at horg
      exact (Option.some.inj horg).symm
    have hread : stored d org.id = settingsOf org.settings := by
      rw [stored_row d org.id v hv, horg']
    rw [hk.members] at hm
    have hreport : ∀ c reads (o : Organization), Obeys (Kept org.id member)
        (organizationDuty user req org.id member)
        (Ended (organizationDuty user req org.id member)) (show Api Unit from do
          let _ ← applyGateway env .pool o
          respondJSON (.organization o)) (.closed c false reads) := fun c reads o =>
      obeys_bind _ _ _ _ _ _ (obeys_applyGateway _ _ env _ o c reads (fun _ _ _ => hend _ _ _)
        fun _ _ => hend _ _ _)
    by_cases hneeded : (req.customDomain.isSome || req.authorization.isSome) = true
    · simp only [hneeded, if_true]
      refine obeys_bind _ _ _ _ _ _ ⟨fun _ e => ?_, fun t db hk' =>
        ⟨fun e _ => ?_, fun o ws hupd => ?_⟩⟩
      · exact hend _ _ _
      · exact hend _ _ _
      · obtain ⟨v', hv'⟩ := hk'.organization
        simp only [Queries.updateOrganization, hid, hv'] at hupd
        obtain ⟨rfl, rfl⟩ := Ownership.putRow_ok _ _ _ _ _ _ _ hupd
        refine Or.inr ⟨by simp, rfl, rfl, ⟨⟨d, by simp, _, rfl, ?_⟩, hvalid, hm,
          requested_some req hneeded⟩, image_kept db hk' _, hreport _ _ _⟩
        rw [happly, hread]
    · simp only [hneeded]
      exact hreport _ _ _

end Duty

/-! ## A request alone -/

theorem accepted_organization (db : Db) (hs : Sound schema db) (orgID : UUID)
    (v v' : OrganizationRow) (hv : db.row .organization orgID = some v) (hn : v'.name = v.name) :
    schema.put db .organization orgID v' = .ok [⟨.organization, orgID, some v'⟩] := by
  have hunique : schema.uniques.filter (fun u => u.table = .organization) =
      [⟨"organization_name_key", .organization, fun _ v => (0, v.name)⟩] := rfl
  have hkeys : schema.foreignKeys.filter (fun f => f.child = .organization) = [] := rfl
  refine put_accepted schema db .organization orgID v' ?_ (by simp [hkeys])
  simp only [hunique, List.forall_mem_singleton]
  rw [Bool.eq_false_iff, ne_eq]
  intro hclash
  obtain ⟨k, w, hw, hk, heq⟩ := (clashes_iff
    ⟨"organization_name_key", .organization, fun _ v => (0, v.name)⟩ db orgID v').mp hclash
  have hname : w.name = v.name := (Prod.mk.inj heq).2.trans hn
  exact hk (Summaries.sound_organization_names db hs k orgID w v hw hv hname)

section Alone
variable {σ : Type} (me : σ) (env : Env) (user : UserAccount) (req : OrganizationSettingsRequest)
variable (orgID : UUID) (member : UUID → Bool)

/-- Applying a gateway and responding commits nothing. -/
theorem wp_report (org : Organization) (Q : Unit → Srv σ → Ses → Prop) (srv : Srv σ) (s : Ses)
    (hq : ∀ srv' s', srv'.wal = srv.wal → srv'.db = srv.db → Q () srv' s') :
    Prog.Wp backend me (fun _ => false) (show Api Unit from do
      let _ ← applyGateway env .pool org
      respondJSON (.organization org)) Q srv s := by
  refine wp_bind backend me _ _ _ _ _ _ ?_
  refine wp_pool backend me _ _ _ _ _ _ _ (fun e hf => ?_) fun pss ws _ hf => ?_
  · exact hq _ _ rfl rfl
  · cases hf
    exact wp_call backend me _ _ _ _ _ _ (fun _ => hq _ _ rfl rfl) fun _ => hq _ _ rfl rfl

/-- The access check of a member, if no step fails. -/
theorem wp_withOrganization (f : Organization → Api Unit) (Q : Unit → Srv σ → Ses → Prop)
    (srv : Srv σ) (v : OrganizationRow) (hv : srv.db.row .organization orgID = some v)
    (hm : Queries.isMember srv.db user.id orgID = true)
    (h : (f { v with id := orgID }).Wp backend me (fun _ => false) Q
      (srv.apply ⟨me, srv.wal.length, []⟩).tock {}) :
    (withOrganization user (.value orgID) f).Wp backend me (fun _ => false) Q srv {} := by
  have hread : ∀ t, Queries.isUserPartOfOrg user.id orgID t srv.db =
      .ok ((true, { v with id := orgID }), []) := by
    intro t
    simp [Queries.isUserPartOfOrg, Queries.select, Queries.organization, hv, hm,
      Queries.collectExactlyOneRow, Except.map]
  refine wp_pool backend me _ _ _ _ _ _ _ (fun e hf => ?_) fun b ws _ hf => ?_
  · rcases hf with hf | hf
    · cases hf
    · exact absurd ((hread _).symm.trans hf) (by simp)
  · cases (hread _).symm.trans hf
    exact h

/-- A valid request of a member that gives some settings writes them. -/
theorem putOrganizationHandler_writes (srv : Srv σ) (hs : Sound schema srv.db)
    (hk : Kept orgID member srv.db) (hm : member user.id = true) (hv : Valid req)
    (hn : ∃ f, requested req f ≠ none) :
    (putOrganizationHandler env user (.value orgID) (some req)).Wp backend me (fun _ => false)
      (fun _ srv' _ => srv'.wal.length = srv.wal.length+1 ∧ Sound schema srv'.db) srv {} := by
  obtain ⟨v, hrow⟩ := hk.organization
  obtain ⟨org', hset⟩ := requestedSettings_valid { v with id := orgID } req hv
  obtain ⟨hid, -, -⟩ := requestedSettings_ok _ org' req hset
  have hneeded : (req.customDomain.isSome || req.authorization.isSome) = true := by
    obtain ⟨f, hf⟩ := hn
    by_contra hno
    exact hf (requested_none req (Bool.eq_false_iff.mpr hno) f)
  have hput := accepted_organization srv.db hs orgID v { v with settings := org'.settings } hrow rfl
  refine wp_withOrganization me user orgID _ _ srv v hrow ((hk.members user.id).trans hm) ?_
  simp only [hset, hneeded, if_true]
  refine wp_pool backend me _ _ _ _ _ _ _ (fun e hf => ?_) fun o ws _ hf => ?_
  · rcases hf with hf | hf
    · cases hf
    · simp only [Server.apply, Server.tock, Store.replay_nil, Queries.updateOrganization, hid, hrow,
        Queries.putRow, hput] at hf
      cases hf
  · simp only [Server.apply, Server.tock, Store.replay_nil, Queries.updateOrganization, hid,
      hrow] at hf
    have hsound := Settings.putRow_sound hs _ _ _ _ _ ws hf
    have hne : ws.isEmpty = false := by
      rw [(Ownership.putRow_ok _ _ _ _ _ _ _ hf).2]
      rfl
    refine wp_report me env o _ _ _ fun srv' s' hw hd => ?_
    constructor
    · rw [hw]
      simp [Server.apply, Server.tock, hne]
    · rw [hd]
      exact hsound

end Alone

/-! ## Runs -/

section Runs
variable {σ : Type} (env : Env) (user : σ → UserAccount) (req : σ → OrganizationSettingsRequest)
variable (orgID : UUID) (member : UUID → Bool) (start : σ → ℕ)

def change (i : σ) : Api Unit := putOrganizationHandler env (user i) (.value orgID) (some (req i))

def duty (i : σ) : ApiDuty := organizationDuty (user i) (req i) orgID member

variable [DecidableEq σ]

/-- A client takes no step before the given number of commits. -/
def arriving : Admit Key Row Stmt DbError KubeCall Output Cluster σ :=
  fun x i fail β a => postgres x i fail β a ∧ start i ≤ x.srv.wal.length

instance [Fintype σ] (x : Ownership.Conf σ) (i : σ) (fail : Bool) (β : Type)
    (a : Action Key Row Stmt DbError KubeCall Output β) :
    Decidable (arriving start x i fail β a) :=
  inferInstanceAs (Decidable (_ ∧ _))

/-- What a request that runs alone commits was due. -/
theorem change_due (srv : Srv σ) (hs : Settled srv) (hk : Kept orgID member srv.db) (i : σ) :
    ∃ log, Logged srv (after (change env user req orgID) i srv) log ∧
      Kept orgID member (after (change env user req orgID) i srv).db ∧
      Labelled Ownership.labelling
        (⟨after (change env user req orgID) i srv, fun _ => {}⟩ : Ownership.Conf σ) ∧
      (log = [] ∨ ∃ c, log = [c] ∧ (duty user req orgID member i).pool [srv.db] c.images) := by
  obtain ⟨log, hl, hkept, hlog⟩ := run_obeys backend srv (Kept orgID member)
    (duty user req orgID member i) i (fun _ => false) (fun hn => absurd trivial hn)
    (change env user req orgID i) _ _
    (obeys_putOrganizationHandler env (user i) (req i) orgID member)
    srv {} [] ⟨by simp, rfl⟩ hk ⟨rfl, by simp, by simp, by simp⟩ (Or.inl rfl)
  refine ⟨log, hl, hkept, labelled_alone env (fun _ => True) _
    (ApiRuns.built_putOrganization env _ (user i) trivial _ _) i (fun _ => false) srv
    hs.labelled, ?_⟩
  rcases hlog with rfl | ⟨c, rfl, -, ⟨reads, hpast, hpool⟩ | hcommit⟩
  · exact Or.inl rfl
  · obtain ⟨⟨d, hd, hw⟩, hrest⟩ := hpool
    refine Or.inr ⟨c, rfl, ⟨srv.db, List.mem_singleton_self _, ?_⟩, hrest⟩
    rw [← (past_nil srv _ _ (hpast d hd)).1]
    exact hw
  · obtain ⟨_, _, -, h⟩ := hcommit
    exact h.elim

theorem change_alone (srv : Srv σ) (hs : Settled srv) (hk : Kept orgID member srv.db) (i : σ)
    (hm : member (user i).id = true) (hv : Valid (req i)) (hn : ∃ f, requested (req i) f ≠ none) :
    Settled (after (change env user req orgID) i srv) ∧
      Kept orgID member (after (change env user req orgID) i srv).db ∧
      stored (after (change env user req orgID) i srv).db orgID =
        (requested (req i)).apply (stored srv.db orgID) ∧
      (after (change env user req orgID) i srv).wal.length = srv.wal.length+1 := by
  obtain ⟨log, hl, hkept, hlab, hlog⟩ := change_due env user req orgID member srv hs hk i
  obtain ⟨hlong, hsound⟩ := putOrganizationHandler_writes i env (user i) (req i) orgID member srv
    hs.sound hk hm hv hn
  refine ⟨⟨hlab, hsound⟩, hkept, ?_, hlong⟩
  rcases hlog with rfl | ⟨c, rfl, ⟨d, hd, v, hw, hset⟩, -⟩
  · have hwal := congrArg List.length hl.wal
    rw [List.append_nil, after, change] at hwal
    omega
  · cases List.mem_singleton.mp hd
    rw [hl.db, settle_single, hw, image_stored, hset]

/-- Requests that give no settings change nothing. -/
theorem changes_nothing (rest : List σ) (hrest : ∀ i ∈ rest, ∀ f, requested (req i) f = none)
    (srv : Srv σ) (hs : Settled srv) (hk : Kept orgID member srv.db) :
    (serially (change env user req orgID) rest srv).db = srv.db := by
  induction rest generalizing srv with
  | nil => rfl
  | cons i rest ih =>
    obtain ⟨log, hl, hkept, hlab, hlog⟩ := change_due env user req orgID member srv hs hk i
    have hsame : (after (change env user req orgID) i srv).db = srv.db := by
      rcases hlog with rfl | ⟨c, rfl, -, -, -, f, hf⟩
      · exact hl.db
      · exact absurd (hrest i (by simp) f) hf
    have hset : Settled (after (change env user req orgID) i srv) := ⟨hlab, hsame ▸ hs.sound⟩
    exact (ih (fun j hj => hrest j (by simp [hj])) _ hset hkept).trans hsame

variable (w₀ w' : ApiWorld σ)

def requesting : ApiWorld σ := ⟨⟨w₀.cfg.srv, fun _ => {}⟩, change env user req orgID⟩

/-- The requests leave a log of updates, and what they leave one after another in
the order of the log if none of them disturbs another. -/
theorem organization_runs (h₀ : Reaches env w₀)
    (ho : ∃ v, w₀.cfg.srv.db.row .organization orgID = some v)
    (hr : Run backend (arriving start) (requesting env user req orgID w₀) w') :
    ∃ log, w'.cfg.srv.wal = w₀.cfg.srv.wal++log ∧ w'.cfg.srv.db = w₀.cfg.srv.db.settle log ∧
      (log.map (fun c => c.client)).Nodup ∧
      Merges (fun i => requested (req i)) (fun c => start c.client) w₀.cfg.srv
        (fun db => stored db orgID) log ∧
      (Separate (fun i => requested (req i)) (fun c => start c.client) w₀.cfg.srv log →
        ∀ rest : List σ, (∀ i ∈ rest, ∀ f, requested (req i) f = none) →
          stored w'.cfg.srv.db orgID = stored (serially (change env user req orgID)
            (log.map (fun c => c.client)++rest) w₀.cfg.srv).db orgID) := by
  have hs := reaches_settled env w₀ h₀
  let member : UUID → Bool := fun userID => Queries.isMember w₀.cfg.srv.db userID orgID
  have hk : Kept orgID member w₀.cfg.srv.db := ⟨ho, fun _ => rfl⟩
  have hidle := disciplined_idle start (Kept orgID member) (duty user req orgID member)
    (requesting env user req orgID w₀) hk (fun _ => ⟨rfl, rfl⟩)
    (fun i => obeys_putOrganizationHandler env (user i) (req i) orgID member)
  obtain ⟨log, hd, -⟩ := run_disciplined backend w₀.cfg.srv start (Kept orgID member)
    (duty user req orgID member) (arriving start)
    (fun x i fail β a h => ⟨h.1.1, fun hn => absurd trivial hn, h.2⟩) (fun _ _ => True)
    (fun _ _ _ _ _ _ _ _ _ _ _ _ _ => trivial) _ w' [] hidle trivial hr
  have hdue : ∀ pre c post, log = pre++c::post → ∃ d,
      Past w₀.cfg.srv pre (start c.client) d ∧ stored (w₀.cfg.srv.db.settle (pre++[c])) orgID =
        (requested (req c.client)).apply (stored d orgID) ∧ Valid (req c.client) ∧
      member (user c.client).id = true ∧ ∃ f, requested (req c.client) f ≠ none := by
    intro pre c post hlog
    rcases hd.due pre c post hlog with ⟨reads, hpast, ⟨d, hd, v, hw, hset⟩, hrest⟩ | ⟨_, _, _, h⟩
    · refine ⟨d, hpast d hd, ?_, hrest⟩
      rw [settle_append, settle_single, hw, image_stored, hset]
    · exact h.elim
  have hmerges : Merges (fun i => requested (req i)) (fun c => start c.client) w₀.cfg.srv
      (fun db => stored db orgID) log := fun pre c post hlog =>
    let ⟨d, hpast, hc, _⟩ := hdue pre c post hlog
    ⟨d, hpast, hc⟩
  refine ⟨log, hd.logged.wal, hd.logged.db, hd.clients, hmerges, fun hsep rest hrest => ?_⟩
  have hund := separate_undisturbed _ _ w₀.cfg.srv _ log hmerges hsep
  have hserial := serially_contents (fun i => requested (req i)) (fun db => stored db orgID)
    (change env user req orgID) w₀.cfg.srv (fun srv => Settled srv ∧ Kept orgID member srv.db) log
    ⟨hs, hk⟩ hund
  obtain ⟨hinv, hcont, -⟩ := hserial (by
    intro pre c post srv hlog hinv hsame
    obtain ⟨d, -, hnew, hvalid, hmem, hsome⟩ := hdue pre c post hlog
    obtain ⟨hset, hkept, hcont, hlen⟩ := change_alone env user req orgID member srv hinv.1 hinv.2
      c.client hmem hvalid hsome
    exact ⟨⟨hset, hkept⟩, hcont, hlen⟩)
  have hrests := changes_nothing env user req orgID member rest hrest _ hinv.1 hinv.2
  rw [serially_append, hrests, hd.logged.db]
  exact hcont.symm

end Runs

/-! ## Two requests on the organization of the demonstration run -/

def demoRequest : Bool → OrganizationSettingsRequest
  | true => ⟨some "docs.acme.com", none⟩
  | false => ⟨none, some ⟨false⟩⟩

/-- The requests one after another, or with the domain written after the other
request has passed its access check. -/
def demoSchedule (overlap : Bool) : List (Bool × Bool) :=
  List.replicate (if overlap then 1 else 0) (false, false)++List.replicate 5 (true, false)++
    List.replicate (if overlap then 4 else 5) (false, false)

def demoStart (overlap i : Bool) : ℕ := if overlap || i then 0 else 10

def demoPair (overlap : Bool) : Option (ApiWorld Bool × ApiWorld Bool) := do
  let w ← demoRunBy true
  let w' ← playedBy (arriving (demoStart overlap)) (demoSchedule overlap)
    (requesting Env.demo (fun _ => .demo) demoRequest 2 w)
  return (w, w')

theorem demoPair_runs (overlap : Bool) (w w' : ApiWorld Bool)
    (h : demoPair overlap = some (w, w')) :
    Reaches Env.demo w ∧ Run backend (arriving (demoStart overlap))
      (requesting Env.demo (fun _ => .demo) demoRequest 2 w) w' := by
  simp only [demoPair, Option.bind_eq_bind, Option.bind_eq_some_iff, Option.pure_def,
    Option.some.injEq, Prod.mk.injEq] at h
  obtain ⟨x, hx, y, hy, rfl, rfl⟩ := h
  exact ⟨demoRunBy_reaches true x hx, playedBy_run (arriving (demoStart overlap)) _ _ _ hy⟩

/-- Without an overlap. -/
theorem organization_runs_demo : ∃ w w', demoPair false = some (w, w') ∧
    ∃ log, w'.cfg.srv.wal = w.cfg.srv.wal++log ∧ w'.cfg.srv.db = w.cfg.srv.db.settle log ∧
      (log.map (fun c => c.client)).Nodup ∧
      Merges (fun i => requested (demoRequest i)) (fun c => demoStart false c.client) w.cfg.srv
        (fun db => stored db 2) log ∧
      (Separate (fun i => requested (demoRequest i)) (fun c => demoStart false c.client) w.cfg.srv
          log →
        ∀ rest : List Bool, (∀ i ∈ rest, ∀ f, requested (demoRequest i) f = none) →
          stored w'.cfg.srv.db 2 = stored (serially
            (change Env.demo (fun _ => .demo) demoRequest 2)
              (log.map (fun c => c.client)++rest) w.cfg.srv).db 2) := by
  have hsome : (demoPair false).isSome := by decide
  obtain ⟨⟨w, w'⟩, h⟩ := Option.isSome_iff_exists.mp hsome
  obtain ⟨hw, hr⟩ := demoPair_runs false w w' h
  have hrow : (demoPair false).all (fun x => (x.1.cfg.srv.db.row .organization 2).isSome) := by
    decide
  rw [h] at hrow
  exact ⟨w, w', h, organization_runs Env.demo (fun _ => .demo) demoRequest 2
    (demoStart false) w w' hw (Option.isSome_iff_exists.mp hrow) hr⟩

/-- Both requests report success, but the domain is lost. -/
theorem domain_undone : ∃ w w', Reaches Env.demo w ∧
    Run backend (arriving (demoStart true))
      (requesting Env.demo (fun _ => .demo) demoRequest 2 w) w' ∧
    (∀ i, (w'.cfg.ses i).out.map Settings.Output.status = [some 200]) ∧
    ∀ order ∈ [[true, false], [false, true]], stored w'.cfg.srv.db 2 ≠ stored
      (serially (change Env.demo (fun _ => .demo) demoRequest 2) order w.cfg.srv).db 2 := by
  have h : (demoPair true).any (fun x =>
      (∀ i, (x.2.cfg.ses i).out.map Settings.Output.status = [some 200]) ∧
      ∀ order ∈ [[true, false], [false, true]], stored x.2.cfg.srv.db 2 .customDomain ≠ stored
        (serially (change Env.demo (fun _ => .demo) demoRequest 2) order x.1.cfg.srv).db 2
          .customDomain) = true := by
    decide
  obtain ⟨⟨w, w'⟩, hw, hall⟩ := (Option.any_eq_true _ _).mp h
  obtain ⟨hdone, hlost⟩ := of_decide_eq_true hall
  obtain ⟨hreach, hrun⟩ := demoPair_runs true w w' hw
  exact ⟨w, w', hreach, hrun, hdone, fun order ho he => hlost order ho (congrFun he .customDomain)⟩

end Jetski.OrganizationRuns
