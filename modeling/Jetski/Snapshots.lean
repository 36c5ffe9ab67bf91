import Jetski.Secrecy

/-!
# Snapshots

A request that only reads is answered from rows that were there together at one moment
of it, after a moment at which its access check passed; the context is read at two
moments. Nobody is refused who had access all the time.
-/

set_option autoImplicit false

namespace Jetski.Snapshots

open Relational Schema Jetski.Types Database Handlers Routes Reachability Conduct Answers
open Requests (Accessible)
open Secrecy (Reading)

/-- The rows with the first property were met before those with the second. -/
def SawThen (h : List ApiDeed) (P P' : Db → Prop) : Prop :=
  ∃ d d', [d, d'].Sublist h ∧ P d.met ∧ P' d'.met

theorem sawThen_sub {h h' : List ApiDeed} {P P' : Db → Prop} (hsub : h.Sublist h')
    (hs : SawThen h P P') : SawThen h' P P' := by
  obtain ⟨d, d', hd, hp⟩ := hs
  exact ⟨d, d', hd.trans hsub, hp⟩

theorem sawThen_last {h : List ApiDeed} {P P' : Db → Prop} (d : ApiDeed) (hs : Saw h P)
    (hp : P' d.met) : SawThen (h++[d]) P P' := by
  obtain ⟨d₀, hd₀, hp₀⟩ := hs
  exact ⟨d₀, d, (List.singleton_sublist.mpr hd₀).append (List.Sublist.refl [d]), hp₀, hp⟩

def Reads {α : Type} (q : Queries.Sql α) (db : Db) (a : α) : Prop := ∃ t, q t db = .ok (a, [])

/-! ## Answers to reading requests -/

/-- The access check of the route passes. -/
def Granted (user : UserAccount) (route : Route) (db : Db) : Prop :=
  (∀ o, Existence.organizationOf route = .value o → Queries.isMember db user.id o = true) ∧
    ∀ p, Existence.projectOf route = .value p → Accessible db user.id p

def Unchecked (route : Route) : Prop :=
  Existence.organizationOf route = .absent ∧ Existence.projectOf route = .absent

def Malformed : Route → Prop
  | .getLogsForProject p req => p = .invalid ∨
    parsePaginationOrDefault req.count req.page ⟨10, 0⟩ = none ∨ req.id = .invalid
  | .getPromptsForProject p req => p = .invalid ∨
    parsePaginationOrDefault req.count req.page ⟨10, 0⟩ = none
  | .getAnalytics _ p startedAt => p = .invalid ∨ startedAt = .invalid
  | route => Existence.organizationOf route = .invalid ∨ Existence.projectOf route = .invalid

section Answers
variable (rt : Analytics.Runtime) (env : Env) (user : UserAccount)

/-- What is answered of the status of a project once its gateway was probed. -/
def statusOf (ps : ProjectSummary) : Body :=
  match env.probe (ps.getMCPURL env) with
  | .error e => .status ps false ("HTTP error: "++e)
  | .ok (code, status) =>
    if code = 401 ∨ code = 406 then .status ps true ""
    else .status ps false ("unexpected HTTP status: "++status)

def startOf : Param Int64 → Time
  | .value seconds => unix seconds
  | _ => zeroTime

/-- What a route that only reads shows of one state, by its query. -/
def Shows : Route → Db → Body → Prop
  | .getOrganizations, db, b => ∃ os,
    Reads (Queries.getOrganizationsOfUser env user.id) db os ∧ b = .organizations os
  | .getProjects, db, b => ∃ ps,
    Reads (Queries.getProjectsForUser env user.id) db ps ∧ b = .projects ps
  | .getOrganizationMembers (.value o), db, b => ∃ us,
    Reads (Queries.getOrganizationMembers o) db us ∧ b = .users us
  | .getProjectsForDashboard (.value o), db, b => ∃ pss,
    Reads (Queries.getProjectSummaries env o) db pss ∧ b = .summaries pss
  | .getDeploymentRevisionsForDashboard (.value o), db, b => ∃ rs,
    Reads (Queries.getRecentDeploymentRevisionSummaries o) db rs ∧ b = .revisions rs
  | .getUsageForDashboard (.value o), db, b => ∃ u,
    Reads (Queries.getUsage o) db u ∧ b = .usage u
  | .getProjectSummary (.value p), db, b => ∃ ps,
    Reads (Queries.getProjectSummary p) db ps ∧ b = .summary ps
  | .getProjectStatus (.value p), db, b => ∃ ps,
    Reads (Queries.getProjectSummary p) db ps ∧ b = statusOf env ps
  | .getDeploymentRevisionsForProject (.value p), db, b => ∃ rs,
    Reads (Queries.getDeploymentRevisionsForProject p) db rs ∧ b = .revisions rs
  | .getLogsForProject (.value p) req, db, b => ∃ pagination ls,
    parsePaginationOrDefault req.count req.page ⟨10, 0⟩ = some pagination ∧
    Reads (Logs.getLogsForProject env p pagination
      (parseSortingOrDefault env Validation.trimSpace req.sortBy req.sortOrder
        ⟨"started_at", .desc, ["started_at", "duration", "http_status_code"]⟩)
      (match req.id with | .value id => some id | _ => none)
      (sessionFilter req.mcpSessionID)) db ls ∧ b = .logs ls
  | .getPromptsForProject (.value p) req, db, b => ∃ pagination ps,
    parsePaginationOrDefault req.count req.page ⟨10, 0⟩ = some pagination ∧
    Reads (Logs.getPromptsForProject env p pagination
      (parseSortingOrDefault env Validation.trimSpace req.sortBy req.sortOrder
        ⟨"started_at", .desc, ["started_at", "tool_name", "prompt"]⟩)
      (sessionFilter req.mcpSessionID)) db ps ∧ b = .prompts ps
  | .getAnalytics now (.value p) startedAt, db, b => ∃ ls,
    Reads (Logs.getLogsForProject env p ⟨1000000, 0⟩ ⟨"started_at", .asc⟩ none none) db ls ∧
    b = .analytics (splitPeriods now (startOf startedAt) ls).1
      (splitPeriods now (startOf startedAt) ls).2
  | _, _, _ => False

/-- What the deeds of a reading request have met before it answers with success. -/
def Met (route : Route) (h : List ApiDeed) (b : Body) : Prop :=
  (Unchecked route ∧ Saw h (fun db => Shows env user route db b)) ∨
  SawThen h (Granted user route) (fun db => Shows env user route db b) ∨
  route = .getContext ∧ ∃ os ps, b = .context user os ps ∧
    SawThen h (fun db => Reads (Queries.getOrganizationsOfUser env user.id) db os)
      (fun db => Reads (Queries.getProjectsForUser env user.id) db ps)

/-- The output is accounted for by what was met. -/
inductive Accounted (route : Route) (h : List ApiDeed) : Output → Prop
  | answered (b : Body) : Met env user route h b → Accounted route h (.response 200 b)
  | refused (text : String) : Saw h (fun db => ¬ Granted user route db) →
    Accounted route h (.response 404 (.text text))
  | malformed (text : String) : Malformed route → Accounted route h (.response 400 (.text text))
  | failed (b : Body) : Accounted route h (.response 500 b)

end Answers

section Accounts
variable {env : Env} {user : UserAccount} {route : Route} {h h' : List ApiDeed}

theorem met_sub {b : Body} (hsub : h.Sublist h') (hm : Met env user route h b) :
    Met env user route h' b := by
  rcases hm with ⟨hu, hs⟩ | hs | ⟨hroute, os, ps, hb, hs⟩
  · exact Or.inl ⟨hu, saw_sub hsub.subset hs⟩
  · exact Or.inr (Or.inl (sawThen_sub hsub hs))
  · exact Or.inr (Or.inr ⟨hroute, os, ps, hb, sawThen_sub hsub hs⟩)

theorem met_last {b : Body} (d : ApiDeed) (ha : Unchecked route ∨ Saw h (Granted user route))
    (hs : Shows env user route d.met b) : Met env user route (h++[d]) b :=
  ha.elim (fun hu => Or.inl ⟨hu, saw_last h d _ hs⟩)
    fun hg => Or.inr (Or.inl (sawThen_last d hg hs))

theorem accounted_sub {x : Output} (hsub : h.Sublist h') (ha : Accounted env user route h x) :
    Accounted env user route h' x := by
  cases ha with
  | answered b hm => exact .answered b (met_sub hsub hm)
  | refused text hs => exact .refused text (saw_sub hsub.subset hs)
  | malformed text hm => exact .malformed text hm
  | failed b => exact .failed b

end Accounts

/-! ## Rules -/

section Rules
variable {σ : Type} (me : σ) (D : List ApiDeed → ApiDeed → Prop) (env : Env) (user : UserAccount)
variable (route : Route) (h : List ApiDeed) (s : Ses)

abbrev Accounts (p : Api Unit) (h : List ApiDeed) (s : Ses) : Prop :=
  Acts me D (fun _ h s => ∀ x ∈ s.out, Accounted env user route h x) p h s

/-- A query that only reads, in whatever rows are there at its moment. -/
theorem acts_reads {β : Type} (Q : Except DbError β → List ApiDeed → Ses → Prop) (name : Stmt)
    (rows : Db → Except DbError β)
    (he : ∀ e db, (e = .refused ∨ ∃ db, rows db = .error e) →
      Q (.error e) (h++[⟨db, [], []⟩]) s)
    (hk : ∀ db b, Reads (Queries.select rows) db b → rows db = .ok b →
      Q (.ok b) (h++[⟨db, [], []⟩]) s) :
    Acts me D Q (query name .pool (Queries.select rows)) h s := by
  refine conduct_statement backend me D Q h s name _ _ (fun e db herror => ?_)
    fun t db b ws hf => ?_
  · refine he e db (herror.imp id fun hf => ?_)
    obtain ⟨t, hf⟩ := hf
    rw [Queries.select] at hf
    cases hr : rows db with
    | error e' =>
      rw [hr] at hf
      cases hf
      exact ⟨db, hr⟩
    | ok b =>
      rw [hr] at hf
      cases hf
  · rw [Queries.select] at hf
    cases hr : rows db with
    | error e =>
      rw [hr] at hf
      cases hf
    | ok b' =>
      rw [hr] at hf
      cases hf
      exact ⟨fun hne => absurd rfl hne, hk db b ⟨t, by rw [Queries.select, hr]; rfl⟩ hr⟩

variable (hout : s.out = [])
include hout

theorem accounts_silent : Accounts me D env user route (pure ()) h s := by
  intro x hx
  rw [hout] at hx
  cases hx

theorem accounts_respond (status : ℕ) (body : Body)
    (ha : Accounted env user route h (.response status body)) :
    Accounts me D env user route (respond status body) h s := by
  refine acts_respond me D h s _ status body fun db x hx => ?_
  rw [hout] at hx
  cases List.mem_singleton.mp hx
  exact accounted_sub (List.sublist_append_left _ _) ha

theorem accounts_failed : Accounts me D env user route internalServerError h s :=
  accounts_respond me D env user route h s hout 500 _ (.failed _)

/-- A value that has no JSON text is answered as a failure. -/
theorem accounts_respondJSON (body : Body) (sent : List Time) (hm : Met env user route h body) :
    Accounts me D env user route (respondJSON body sent) h s := by
  obtain hr | hr := respondJSON_cases body sent
  · rw [hr]
    exact accounts_respond me D env user route h s hout 200 _ (.answered _ hm)
  · rw [hr]
    exact accounts_respond me D env user route h s hout 500 _ (.failed _)

/-- A query whose result is the answer, after the access check. -/
theorem accounts_answer {β : Type} (name : Stmt) (rows : Db → Except DbError β) (body : β → Body)
    (sent : β → List Time) (ha : Unchecked route ∨ Saw h (Granted user route))
    (hs : ∀ db b, Reads (Queries.select rows) db b → Shows env user route db (body b)) :
    Accounts me D env user route
      ((query name .pool (Queries.select rows)).bind (fun r => respondOr r body sent)) h s :=
  acts_bind me D h s _ _ _ (acts_reads me D h s _ name rows
    (fun _ _ _ => accounts_failed me D env user route _ s hout)
    fun db b hb _ => accounts_respondJSON me D env user route _ s hout _ _
      (met_last _ ha (hs db b hb)))

theorem accounts_analytics (rt : Analytics.Runtime) (current previous : List MCPServerLog)
    (hm : Met env user route h (.analytics current previous)) :
    Accounts me D env user route (respondAnalytics env rt (.ok (current, previous))) h s := by
  rw [respondAnalytics]
  cases Analytics.aggregateLogsToAnalyticsWithComparison rt env current previous with
  | error e => exact accounts_respond me D env user route h s hout 500 _ (.failed _)
  | ok analytics => exact accounts_respondJSON me D env user route h s hout _ _ hm

theorem accounts_withProject (projectID : Param UUID) (f : UUID → Api Unit)
    (hroute : Existence.projectOf route = projectID)
    (horg : Existence.organizationOf route = .absent)
    (hbad : projectID = .invalid → Malformed route)
    (hf : ∀ p h', projectID = .value p → Saw h' (Granted user route) →
      Accounts me D env user route (f p) h' s) :
    Accounts me D env user route (withProject user projectID f) h s := by
  have hchecked : ∀ p, projectID = .value p → ∀ db,
      Granted user route db ↔ Accessible db user.id p := by
    intro p hp db
    constructor
    · exact fun hg => hg.2 p (hroute.trans hp)
    · intro ha
      refine ⟨fun o ho => ?_, fun p' hp' => ?_⟩
      · cases horg.symm.trans ho
      · cases (hroute.trans hp).symm.trans hp'
        exact ha
  have hstop : ∀ status text h', Accounted env user route h' (.response status (.text text)) →
      Accounts me D env user route ((show Api UUID from do
          respond status (.text text)
          return 0).bind (fun p => if p = 0 then pure () else f p)) h' s := by
    intro status text h' ha
    refine acts_bind me D _ _ _ _ _ (acts_bind me D _ _ _ _ _
      (acts_respond me D h' s _ status _ fun db x hx => ?_))
    rw [hout] at hx
    cases List.mem_singleton.mp hx
    exact accounted_sub (List.sublist_append_left _ _) ha
  cases projectID with
  | absent => exact accounts_silent me D env user route h s hout
  | invalid => exact hstop 400 _ h (.malformed _ (hbad rfl))
  | value p =>
    refine acts_bind me D _ _ _ _ _ (acts_bind me D _ _ _ _ _ (acts_reads me D h s _ _ _
      (fun e db _ => hstop 500 _ _ (.failed _)) fun db b _ hr => ?_))
    cases b with
    | false =>
      refine hstop 404 _ _ (.refused _ (saw_last _ _ _ fun hg => ?_))
      obtain ⟨v, hv, hm⟩ := (hchecked p rfl db).mp hg
      simp [hv, hm] at hr
    | true =>
      change Accounts me D env user route (if p = 0 then pure () else f p) _ s
      split
      · exact accounts_silent me D env user route _ s hout
      · refine hf p _ rfl (saw_last _ _ _ ((hchecked p rfl db).mpr ?_))
        cases hp : db.row .project p with
        | none => simp [hp] at hr
        | some v => exact ⟨v, hp, by simpa [hp] using hr⟩

theorem accounts_withOrganization (organizationID : Param UUID) (f : Organization → Api Unit)
    (hroute : Existence.organizationOf route = organizationID)
    (hproject : Existence.projectOf route = .absent)
    (hbad : organizationID = .invalid → Malformed route)
    (hf : ∀ org h', organizationID = .value org.id → Saw h' (Granted user route) →
      Accounts me D env user route (f org) h' s) :
    Accounts me D env user route (withOrganization user organizationID f) h s := by
  have hstop : ∀ (k : Option Organization → Api Unit), k none = pure () → ∀ status text h',
      Accounted env user route h' (.response status (.text text)) →
      Acts me D (fun r h s => Accounts me D env user route (k r) h s)
        (respond status (.text text) >>= fun _ => pure none) h' s := by
    intro k hk status text h' ha
    refine acts_bind me D _ _ _ _ _ (acts_respond me D h' s _ status _ fun db => ?_)
    rw [Prog.pure_eq, Acts, Prog.Conduct, hk]
    intro x hx
    rw [hout] at hx
    cases List.mem_singleton.mp hx
    exact accounted_sub (List.sublist_append_left _ _) ha
  cases organizationID with
  | absent => exact accounts_silent me D env user route h s hout
  | invalid => exact acts_bind me D _ _ _ _ _ (hstop _ rfl 400 _ h (.malformed _ (hbad rfl)))
  | value o =>
    have hgranted : ∀ db, Queries.isMember db user.id o = true → Granted user route db := by
      refine fun db hm => ⟨fun o' ho' => ?_, fun p hp => ?_⟩
      · cases hroute.symm.trans ho'
        exact hm
      · cases hproject.symm.trans hp
    refine acts_bind me D _ _ _ _ _ (acts_bind me D _ _ _ _ _ (acts_reads me D h s _ _ _
      (fun e db _ => hstop _ rfl 500 _ _ (.failed _)) fun db b _ hr => ?_))
    obtain ⟨member, org⟩ := b
    cases member with
    | false =>
      refine hstop _ rfl 404 _ _ (.refused _ (saw_last _ _ _ fun hg => ?_))
      obtain ⟨v, -, -, hm⟩ := Queries.partOfOrg_ok db user.id o false org hr
      cases hm.trans (hg.1 o hroute)
    | true =>
      obtain ⟨hid, hm, -⟩ := Queries.partOfOrg_true db user.id o org hr
      subst hid
      exact hf org _ rfl (saw_last _ _ _ (hgranted db hm))

end Rules

section Requests
variable {σ : Type} (me : σ) (D : List ApiDeed → ApiDeed → Prop) (env : Env) (user : UserAccount)
variable (h : List ApiDeed) (s : Ses) (hout : s.out = [])
include hout

/-- Every reading request is accounted for. -/
theorem handle_accounts (rt : Analytics.Runtime) (route : Route) (hr : Reading route) :
    Accounts me D env user route (handle rt env user route) h s := by
  cases route with
  | getOrganizations =>
    exact accounts_answer me D env user _ h s hout _ _ _ _ (Or.inl ⟨rfl, rfl⟩)
      fun db b hb => ⟨b, hb, rfl⟩
  | getProjects =>
    exact accounts_answer me D env user _ h s hout _ _ _ _ (Or.inl ⟨rfl, rfl⟩)
      fun db b hb => ⟨b, hb, rfl⟩
  | getOrganizationMembers o =>
    refine accounts_withOrganization me D env user (.getOrganizationMembers o) h s hout o _ rfl rfl
      Or.inl fun org h' ho hg => ?_
    subst ho
    exact accounts_answer me D env user _ h' s hout _ _ _ _ (Or.inr hg) fun db b hb => ⟨b, hb, rfl⟩
  | getProjectsForDashboard o =>
    refine accounts_withOrganization me D env user (.getProjectsForDashboard o) h s hout o _ rfl rfl
      Or.inl fun org h' ho hg => ?_
    subst ho
    exact accounts_answer me D env user _ h' s hout _ _ _ _ (Or.inr hg) fun db b hb => ⟨b, hb, rfl⟩
  | getDeploymentRevisionsForDashboard o =>
    refine accounts_withOrganization me D env user (.getDeploymentRevisionsForDashboard o) h s hout
      o _ rfl rfl Or.inl fun org h' ho hg => ?_
    subst ho
    exact accounts_answer me D env user _ h' s hout _ _ _ _ (Or.inr hg) fun db b hb => ⟨b, hb, rfl⟩
  | getUsageForDashboard o =>
    refine accounts_withOrganization me D env user (.getUsageForDashboard o) h s hout o _ rfl rfl
      Or.inl fun org h' ho hg => ?_
    subst ho
    exact accounts_answer me D env user _ h' s hout _ _ _ _ (Or.inr hg) fun db b hb => ⟨b, hb, rfl⟩
  | getDeploymentRevisionsForProject p =>
    refine accounts_withProject me D env user (.getDeploymentRevisionsForProject p) h s hout p _ rfl
      rfl Or.inr fun p' h' hp hg => ?_
    subst hp
    exact accounts_answer me D env user _ h' s hout _ _ _ _ (Or.inr hg) fun db b hb => ⟨b, hb, rfl⟩
  | getProjectSummary p =>
    refine accounts_withProject me D env user (.getProjectSummary p) h s hout p _ rfl rfl Or.inr
      fun p' h' hp hg => ?_
    subst hp
    exact accounts_answer me D env user _ h' s hout _ _ _ _ (Or.inr hg) fun db b hb => ⟨b, hb, rfl⟩
  | getProjectStatus p =>
    refine accounts_withProject me D env user (.getProjectStatus p) h s hout p _ rfl rfl Or.inr
      fun p' h' hp hg => ?_
    subst hp
    refine acts_bind me D _ _ _ _ _ (acts_reads me D h' s _ _ _ (fun e db he => ?_)
      fun db ps hb _ => ?_)
    · cases e with
      | notFound =>
        -- a missing project is another error
        rcases he with he | ⟨db', he⟩
        · cases he
        · cases hrow : (db'.row .project p').bind (Queries.summary db' p') <;> rw [hrow] at he <;>
            cases he
      | _ => exact accounts_failed me D env user _ _ s hout
    · have hmet : ∀ b, b = statusOf env ps →
          Accounted env user (.getProjectStatus (.value p')) (h'++[⟨db, [], []⟩])
            (.response 200 b) :=
        fun b hstatus => .answered b (met_last _ (Or.inr hg) ⟨ps, hb, hstatus⟩)
      rw [statusOf] at hmet
      cases hprobe : env.probe (ps.getMCPURL env) with
      | error e =>
        simp only [hprobe] at hmet ⊢
        exact accounts_respond me D env user _ _ s hout 200 _ (hmet _ rfl)
      | ok r =>
        simp only [hprobe] at hmet ⊢
        split at hmet
        · next hcode =>
          rw [if_pos hcode]
          exact accounts_respond me D env user _ _ s hout 200 _ (hmet _ rfl)
        · next hcode =>
          rw [if_neg hcode]
          exact accounts_respond me D env user _ _ s hout 200 _ (hmet _ rfl)
  | getLogsForProject p req =>
    refine accounts_withProject me D env user (.getLogsForProject p req) h s hout p _ rfl rfl Or.inl
      fun p' h' hp hg => ?_
    subst hp
    cases hpage : parsePaginationOrDefault req.count req.page ⟨10, 0⟩ with
    | none =>
      exact accounts_respond me D env user _ h' s hout 400 _ (.malformed _ (Or.inr (Or.inl hpage)))
    | some pagination =>
      cases hid : req.id with
      | invalid =>
        dsimp only
        exact accounts_respond me D env user _ h' s hout 400 _ (.malformed _ (Or.inr (Or.inr hid)))
      | absent =>
        dsimp only
        exact accounts_answer me D env user _ h' s hout _ _ _ _ (Or.inr hg)
          fun db b hb => ⟨pagination, b, hpage, by rw [hid]; exact hb, rfl⟩
      | value id =>
        dsimp only
        exact accounts_answer me D env user _ h' s hout _ _ _ _ (Or.inr hg)
          fun db b hb => ⟨pagination, b, hpage, by rw [hid]; exact hb, rfl⟩
  | getPromptsForProject p req =>
    refine accounts_withProject me D env user (.getPromptsForProject p req) h s hout p _ rfl rfl
      Or.inl fun p' h' hp hg => ?_
    subst hp
    cases hpage : parsePaginationOrDefault req.count req.page ⟨10, 0⟩ with
    | none =>
      exact accounts_respond me D env user _ h' s hout 400 _ (.malformed _ (Or.inr hpage))
    | some pagination =>
      exact accounts_answer me D env user _ h' s hout _ _ _ _ (Or.inr hg)
        fun db b hb => ⟨pagination, b, hpage, hb, rfl⟩
  | getAnalytics now p startedAt =>
    refine accounts_withProject me D env user (.getAnalytics now p startedAt) h s hout p _ rfl rfl
      Or.inl fun p' h' hp hg => ?_
    subst hp
    have hanswer : Accounts me D env user (.getAnalytics now (.value p') startedAt)
        ((getAllLogsWithComparison env .pool now p' (startOf startedAt)).bind
          (respondAnalytics env rt)) h' s :=
      acts_bind me D _ _ _ _ _ (acts_bind me D _ _ _ _ _ (acts_reads me D h' s _ _ _
        (fun e db _ => accounts_failed me D env user _ _ s hout)
        fun db ls hb _ => accounts_analytics me D env user _ _ s hout rt _ _
          (met_last _ (Or.inr hg) ⟨ls, hb, rfl⟩)))
    cases startedAt with
    | invalid =>
      exact accounts_respond me D env user _ h' s hout 400 _ (.malformed _ (Or.inr rfl))
    | absent | value => exact hanswer
  | getContext =>
    refine acts_bind me D _ _ _ _ _ (acts_reads me D h s _ _ _
      (fun e db _ => accounts_failed me D env user _ _ s hout) fun db os hos _ => ?_)
    refine acts_bind me D _ _ _ _ _ (acts_reads me D _ s _ _ _
      (fun e db _ => accounts_failed me D env user _ _ s hout) fun db' ps hps _ => ?_)
    refine accounts_respond me D env user _ _ s hout 200 _ (.answered _ (Or.inr
      (Or.inr ⟨rfl, os, ps, rfl, sawThen_last _ (saw_last h ⟨db, [], []⟩ _ hos) hps⟩)))
  | _ => cases hr

end Requests

def Reported (env : Env) (email : String) (route : Route) (h : List ApiDeed) (x : Output) : Prop :=
  (∃ status b, x = .response status b ∧ (status = 401 ∨ status = 500)) ∨
    ∃ user, Identified env email user h ∧ Accounted env user route h x

theorem serve_reported {σ : Type} (me : σ) (rt : Analytics.Runtime) (env : Env) (email : String)
    (route : Route) (hr : Reading route) (s : Ses) (hout : s.out = []) :
    Acts me (fun _ _ => True) (fun _ h s => ∀ x ∈ s.out, Reported env email route h x)
      (serve rt env (some email) route) [] s := by
  have hrefused : ∀ status text h, status = 401 ∨ status = 500 → Acts me (fun _ _ => True)
      (fun _ h s => ∀ x ∈ s.out, Reported env email route h x)
      (respond status (.text text)) h s := by
    intro status text h hst
    refine acts_respond me _ h s _ status _ fun db x hx => ?_
    rw [hout] at hx
    cases List.mem_singleton.mp hx
    exact Or.inl ⟨status, _, rfl, hst⟩
  refine acts_bind me _ _ s _ _ _ (acts_bind me _ _ s _ _ _ (acts_query me _ _ s _ _ _
    (fun e db => ?_) fun t db user ws hf => ⟨fun _ => trivial, ?_⟩))
  · cases e with
    | notFound | noRows => exact hrefused 401 _ _ (Or.inl rfl)
    | _ => exact hrefused 500 _ _ (Or.inr rfl)
  · obtain ⟨hid, -⟩ := user_identified env email t db user ws hf
    change Acts me _ _ (handle rt env user route) _ s
    -- the account is known from the first deed, which all later histories extend
    refine conduct_shift backend me _ _ _ _ [⟨db, ws, []⟩] (fun _ _ _ => trivial)
      (fun _ h' s' hv x hx => Or.inr ⟨user, ?_, ?_⟩) _ [] s
      (handle_accounts me (fun _ _ => True) env user [] s hout rt route hr)
    · exact identified_sub (List.subset_append_left _ _) hid
    · exact accounted_sub (List.sublist_append_right _ _) (hv x hx)

section Runs
variable {σ : Type} [DecidableEq σ] (rt : Analytics.Runtime) (env : Env)
variable (calls : σ → Mediation.Call) (w₀ w : ApiWorld σ) (h₀ : Mediation.Start rt env calls w₀)
include h₀

theorem told_reported (t : List (σ × ApiDeed)) (ht : Told backend postgres w₀ w t) (i : σ)
    (email : String) (route : Route) (hcall : calls i = .request (some email) route)
    (hr : Reading route) (hi : w.prog i = .ret ()) :
    ∀ x ∈ (w.cfg.ses i).out, Reported env email route (deedsOf i t) x := by
  have hp := serve_reported i rt env email route hr _ (h₀.out i)
  have hc := told_conducts backend postgres ht i (fun _ _ => True)
    (fun h s => ∀ x ∈ s.out, Reported env email route h x) (by rw [h₀.prog i, hcall]; exact hp)
  rw [hi] at hc
  exact hc

/-- In every run, a reading request that has ended was answered from rows that were
there at one moment of it, after its access check had passed at another; it was
refused only if the check would have failed at a moment of it. -/
theorem answers_snapshots (h : Run backend postgres w₀ w) : ∃ t, Told backend postgres w₀ w t ∧
    (∀ pre e post, t = pre++e::post → e.2.met = rowsAfter w₀.cfg.srv.db pre) ∧
    ∀ i email route, calls i = .request (some email) route → Reading route → w.prog i = .ret () →
      ∀ x ∈ (w.cfg.ses i).out, Reported env email route (deedsOf i t) x := by
  obtain ⟨t, ht⟩ := run_told backend postgres h
  refine ⟨t, ht, fun pre e post he => ?_, fun i email route hcall hr hi =>
    told_reported rt env calls w₀ w h₀ t ht i email route hcall hr hi⟩
  obtain ⟨w₁, fail, β, a, k, h₁, -, -, hd, -⟩ := told_entry backend postgres ht pre post e he
  rw [hd]
  exact told_rows backend postgres h₁

end Runs

/-! An organization is founded, and its founder asks for the members. -/

def demoCall : Bool → Mediation.Call
  | false => .request (some "ada@acme.com") ApiRuns.demoFounding
  | true => .request (some "ada@acme.com") (.getOrganizationMembers (.value 2))

abbrev demoStart : ApiWorld Bool := Mediation.calling demoCall

def demoRun : Option (ApiWorld Bool) :=
  played ([(false, false), (false, false), (true, false), (false, false)]++
    List.replicate 3 (true, false)++[(false, false)]) demoStart

theorem demoRun_ended : ∃ w, demoRun = some w ∧ w.prog true = .ret () ∧
    responses (w.cfg.ses true).out = [200] := by
  have h : demoRun.any (fun w => finished (w.prog true) &&
      responses (w.cfg.ses true).out == [200]) = true := by
    decide
  obtain ⟨w, hw, hall⟩ := (Option.any_eq_true _ _).mp h
  rw [Bool.and_eq_true, beq_iff_eq] at hall
  exact ⟨w, hw, finished_ret _ hall.1, hall.2⟩

theorem answers_snapshots_demo : ∃ w t, demoRun = some w ∧ Told backend postgres demoStart w t ∧
    responses (w.cfg.ses true).out = [200] ∧ ∀ x ∈ (w.cfg.ses true).out,
      Reported Env.demo "ada@acme.com" (.getOrganizationMembers (.value 2)) (deedsOf true t) x := by
  obtain ⟨w, hw, hi, hout⟩ := demoRun_ended
  obtain ⟨t, ht, -, hall⟩ := answers_snapshots Analytics.Runtime.stable Env.demo demoCall demoStart
    w (Mediation.calling_start demoCall) (played_run _ _ w hw)
  exact ⟨w, t, hw, ht, hout, hall true "ada@acme.com" _ rfl rfl hi⟩

end Jetski.Snapshots
