import Jetski.Answers
import Jetski.GatewaySync
import Jetski.Isolation
import Jetski.Permanence
import Jetski.Webhook

/-!
# Mediation

Concurrent requests and calls of the webhook commit only what their own routes allow
after what they have met, and their answers are true. So the rows of an organization
change only by requests of its members, by the request that founds it, and by calls
that are reported for its revisions.
-/

set_option autoImplicit false

namespace Jetski.Mediation

open Relational Schema Jetski.Types Database Handlers Routes Reachability Conduct Answers
open Isolation (Belongs)
open ApiRuns (demoFounding demoOpening demoCreation)

/-! ## Calls -/

/-- What a client asks for: a request, with the address of its token if the token is
valid, or a call of the webhook. -/
inductive Call where
  | request (email : Option String) (route : Route)
  | report (deploymentRevisionID : Param UUID) (body : Option WebhookPayload)

def Call.prog (rt : Analytics.Runtime) (env : Env) : Call → Api Unit
  | .request email route => serve rt env email route
  | .report deploymentRevisionID body => gatewayWebhook env deploymentRevisionID body

def Reported (env : Env) (id : UUID) (payload : WebhookPayload) (h : List ApiDeed) (d : ApiDeed) :
    Prop :=
  Spared h ∧ ∃ user l r, Saw h (Addressed env payload.subjectEmail user.id) ∧
    d.met.row .deploymentRevision id = some r ∧ d.made = [⟨.mcpServerLog, l,
      some { Logs.storedLog (mcpLogEntry payload id user) with projectID := r.projectID }⟩]

/-- What a client may commit. -/
def Call.Permits (env : Env) : Call → List ApiDeed → ApiDeed → Prop
  | .request (some email) route, h, d => Permitted env email route h d
  | .report (.value id) (some payload), h, d => Reported env id payload h d
  | _, _, _ => False

/-- What a client commits in all: its account at most, and then one effect, or a new
organization and the membership of its creator. -/
def Call.Spends (env : Env) : Call → List ApiDeed → Prop
  | .request (some email) route, ds => ∃ accounts effects, ds = accounts++effects ∧
    accounts.length ≤ 1 ∧ (∀ d ∈ accounts, NewAccount env email d) ∧
    (effects.length ≤ 1 ∨ ∃ n o t t' u d d', route = .postOrganization (some n) ∧
      effects = [d, d'] ∧ d.made = [newOrganization n o t] ∧ d'.made = [newMembership o u t'])
  | .request none _, ds => ds = []
  | .report _ _, ds => ds.length ≤ 1

/-- What an ended client has done, by its answer. -/
def Call.Honest (env : Env) : Call → List ApiDeed → List Output → Prop
  | .request (some email) route, h, out => Answers.Honest env email route h out
  | .request none _, h, out => Spared h ∧ responses out = [401]
  | .report _ body, h, out => responses out ≠ [] → (∀ status ∈ responses out, 400 ≤ status) ∧
    (Spared h ∨ responses out = [500] ∧ ∃ payload ∈ body, ¬ Webhook.ReadBack env payload)

section Conduct
variable {σ : Type} (me : σ) (env : Env)

theorem usersWithEmail_addressed (email : String) (db : Db) (user : UserAccount)
    (hu : user ∈ Queries.usersWithEmail db (env.toLower email)) :
    Addressed env email user.id db := by
  obtain ⟨⟨u, v⟩, hm, hv⟩ := List.mem_filterMap.mp hu
  split at hv
  · next he =>
    cases hv
    exact ⟨v, (db.mem_scan _ _ _).mp hm, he⟩
  · cases hv

theorem getUserByEmail_addressed (email : String) (db : Db) (user : UserAccount)
    (h : (if Queries.storable (env.toLower email) then
      Queries.collectExactlyOneRow (Queries.usersWithEmail db (env.toLower email))
      else .error .invalid) = .ok user) : Addressed env email user.id db := by
  split at h
  · refine usersWithEmail_addressed env email db user ?_
    cases hus : Queries.usersWithEmail db (env.toLower email) with
    | nil =>
      rw [hus] at h
      cases h
    | cons u us =>
      rw [hus] at h
      cases us with
      | nil =>
        cases h
        simp
      | cons => cases h
  · cases h

theorem webhook_honest (id : Param UUID) (body : Option WebhookPayload) (s : Ses)
    (hout : s.out = []) :
    Acts me (Call.Permits env (.report id body))
      (fun _ h s => Call.Honest env (.report id body) h s.out) (gatewayWebhook env id body)
      [] s := by
  have hrespond : ∀ h status text, 400 ≤ status → Spared h →
      Acts me (Call.Permits env (.report id body))
        (fun _ h s => Call.Honest env (.report id body) h s.out)
        (respond status (.text text)) h s := fun h status text hst hs =>
    acts_respond me _ h s _ _ _ fun db _ => ⟨by
      simpa [responses_snoc, hout, responses] using hst,
      Or.inl (spared_append _ _ hs (by simp [Spared]))⟩
  have hnil : Spared ([] : List ApiDeed) := by simp [Spared]
  cases body with
  | none => exact hrespond [] 400 _ (by decide) hnil
  | some payload =>
    cases id with
    | absent => exact hrespond [] 400 _ (by decide) hnil
    | invalid => exact hrespond [] 400 _ (by decide) hnil
    | value id =>
      have hsilent : ∀ h, Call.Honest env (.report (.value id) (some payload)) h s.out :=
        fun h hne => absurd (by rw [hout]; rfl) hne
      refine acts_bind me _ _ s _ _ _ (acts_bind me _ _ s _ _ _ (acts_select me _ _ s _ _ _ hnil
        (fun e h' hw => hsilent h') fun db user hr => ?_))
      have hsaw := saw_last [] ⟨db, [], []⟩ (Addressed env payload.subjectEmail user.id)
        (getUserByEmail_addressed env _ db user hr)
      have hone : Spared ([] ++ [(⟨db, [], []⟩ : ApiDeed)]) := by simp [Spared]
      refine acts_bind me _ _ s _ _ _ (acts_bind me _ _ s _ _ _ (acts_query me _ _ s _ _ _
        (fun e db' => ?_) fun t db' l ws hf => ?_))
      · have htwo := spared_append _ [(⟨db', [], []⟩ : ApiDeed)] hone (by simp [Spared])
        change Acts me _ _ (Prog.bind (.ret (Except.error (badRevision e))) _) _ _
        rw [Prog.bind_ret]
        generalize badRevision e = e'
        cases e' <;> refine hrespond _ _ _ ?_ htwo <;> decide
      · obtain ⟨r, hr, -, rfl, rfl⟩ := Webhook.createMCPServerLog_ok db' _ t l ws hf
        refine ⟨fun _ => ⟨hone, user, t.fresh, r, hsaw, hr, rfl⟩, ?_⟩
        change Acts me _ _ (Prog.bind (.ret (Logs.scanLog env _)) _) _ _
        rw [Prog.bind_ret]
        cases hscan : Logs.scanLog env _ with
        | ok log => exact hsilent _
        | error e =>
          obtain ⟨rfl, hbad⟩ := Logs.scanLog_error env _ e hscan
          refine acts_respond me _ _ s _ _ _ fun db _ => ?_
          rw [responses_snoc, hout]
          exact ⟨by decide, Or.inr ⟨rfl, payload, rfl, hbad⟩⟩

theorem call_honest (rt : Analytics.Runtime) (c : Call) (s : Ses) (hl : s.levels = [])
    (hout : s.out = []) :
    Acts me (c.Permits env) (fun _ h s => c.Honest env h s.out) (c.prog rt env) [] s := by
  cases c with
  | report id body => exact webhook_honest me env id body s hout
  | request email route =>
    cases email with
    | some email => exact serve_honest me rt env email route s hl hout
    | none =>
      refine acts_respond me _ [] s _ 401 _ fun db => ⟨by simp [Spared], ?_⟩
      rw [responses_snoc, hout]
      rfl

end Conduct

/-! ## Runs -/

section Runs
variable {σ : Type} (rt : Analytics.Runtime) (env : Env) (calls : σ → Call)

/-- Nothing has been committed or emitted, and every client is about to begin. -/
structure Start (w₀ : ApiWorld σ) : Prop extends Initial w₀ where
  out : ∀ i, (w₀.cfg.ses i).out = []
  prog : ∀ i, w₀.prog i = (calls i).prog rt env

def calling : ApiWorld σ := start fun i => (calls i).prog Analytics.Runtime.stable Env.demo

theorem calling_start : Start Analytics.Runtime.stable Env.demo calls (calling calls) :=
  ⟨start_initial _, fun _ => rfl, fun _ => rfl⟩

variable (w₀ w : ApiWorld σ)

theorem start_conduct (h₀ : Start rt env calls w₀) (i : σ) :
    (w₀.prog i).Conduct backend i ((calls i).Permits env)
      (fun _ h s => (calls i).Honest env h s.out) [] (w₀.cfg.ses i) := by
  rw [h₀.prog i]
  exact call_honest i env rt (calls i) _ (h₀.idle i) (h₀.out i)

/-! Four clients: an organization and a project are created, a call is reported, and a
stranger tries to delete the project. -/

inductive Demo where
  | founder | member | gateway | stranger
  deriving DecidableEq

instance : Fintype Demo :=
  ⟨{.founder, .member, .gateway, .stranger}, fun i => by cases i <;> decide⟩

def demoCall : Demo → Call
  | .founder => .request (some "ada@acme.com") demoFounding
  | .member => .request (some "ada@acme.com") demoOpening
  | .gateway => .report (.value 9) (some unrequestedPayload)
  | .stranger => .request (some "bob@acme.com") (.deleteProject (.value 7))

def demoStatus : Demo → List Nat
  | .founder | .member => [200]
  | .gateway => []
  | .stranger => [404]

abbrev demoStart : ApiWorld Demo := calling demoCall

def demoRun : Option (ApiWorld Demo) :=
  played (demoCreation .founder .member++[(.stranger, false), (.gateway, false),
    (.stranger, false), (.gateway, false), (.stranger, false)]) demoStart

variable [DecidableEq σ]

/-- Every run of concurrent clients is told by deeds that were allowed to them: what a
client commits is the effect of its own route after its own access check, its own
account, or the log of its own call. -/
theorem commits_permitted (h₀ : Start rt env calls w₀) (h : Run backend postgres w₀ w) :
    ∃ t, Told backend postgres w₀ w t ∧ w.cfg.srv.db = rowsAfter w₀.cfg.srv.db t ∧
      ∀ pre e post, t = pre++e::post → e.2.met = rowsAfter w₀.cfg.srv.db pre ∧
        (e.2.made ≠ [] → (calls e.1).Permits env (deedsOf e.1 pre) e.2) := by
  obtain ⟨t, ht⟩ := run_told backend postgres h
  refine ⟨t, ht, told_rows backend postgres ht, fun pre e post he => ⟨?_, ?_⟩⟩
  · obtain ⟨w₁, fail, β, a, k, h₁, -, -, hd, -⟩ := told_entry backend postgres ht pre post e he
    rw [hd]
    exact told_rows backend postgres h₁
  · exact told_allowed backend postgres (fun i => (calls i).Permits env)
      (fun i h s => (calls i).Honest env h s.out) ht (start_conduct rt env calls w₀ h₀) pre post e
      he

theorem commits_permitted_demo : ∃ w, demoRun = some w ∧ ∃ t, Told backend postgres demoStart w t ∧
    w.cfg.srv.db = rowsAfter demoStart.cfg.srv.db t ∧
      ∀ pre e post, t = pre++e::post → e.2.met = rowsAfter demoStart.cfg.srv.db pre ∧
        (e.2.made ≠ [] → (demoCall e.1).Permits Env.demo (deedsOf e.1 pre) e.2) := by
  have hsome : demoRun.isSome := by decide
  obtain ⟨w, hw⟩ := Option.isSome_iff_exists.mp hsome
  exact ⟨w, hw, commits_permitted Analytics.Runtime.stable Env.demo demoCall demoStart w
    (calling_start demoCall) (played_run _ _ w hw)⟩

theorem permitted_spends (email : String) (route : Route) (before : List ApiDeed) (d : ApiDeed)
    (hp : Permitted env email route before d) :
    Call.Spends env (.request (some email) route) (commits before++[d]) := by
  rcases hp with ⟨hs, hnew⟩ | ⟨user, d₀, rest, rfl, hfirst, -, hallowed⟩
  · rw [commits_spared _ hs]
    exact ⟨[d], [], rfl, le_refl 1, List.forall_mem_singleton.mpr hnew, Or.inl (Nat.zero_le 1)⟩
  · obtain ⟨accounts, hlength, hnew, hcommits⟩ : ∃ accounts : List ApiDeed, accounts.length ≤ 1 ∧
        (∀ d ∈ accounts, NewAccount env email d) ∧
        commits (d₀::rest) = accounts++commits rest := by
      by_cases h₀ : d₀.made = []
      · exact ⟨[], Nat.zero_le 1, fun d hd => absurd hd List.not_mem_nil,
          List.filter_cons_of_neg (by simp [h₀])⟩
      · exact ⟨[d₀], le_refl 1, List.forall_mem_singleton.mpr (hfirst h₀), commits_cons d₀ rest h₀⟩
    refine ⟨accounts, commits rest++[d], by rw [hcommits, List.append_assoc], hlength, hnew, ?_⟩
    rcases hallowed.once with hs | ⟨n, o, t, t', u, b, d', a, hroute, rfl, hb, ha, hmade, hjoin⟩
    · rw [commits_spared _ hs]
      exact Or.inl (le_refl 1)
    · rw [commits_append, commits_spared b hb, commits_cons d' a (by simp [hmade]),
        commits_spared a ha]
      exact Or.inr ⟨n, o, t, t', u, d', d, hroute, rfl, hmade, hjoin⟩

/-- No request and no call takes effect twice in a run. -/
theorem commits_once (h₀ : Start rt env calls w₀) (h : Run backend postgres w₀ w) :
    ∃ t, Told backend postgres w₀ w t ∧ ∀ i, (calls i).Spends env (commits (deedsOf i t)) := by
  obtain ⟨t, ht⟩ := run_told backend postgres h
  refine ⟨t, ht, fun i => told_commits backend postgres (fun i => (calls i).Permits env)
    (fun i h s => (calls i).Honest env h s.out) ht (start_conduct rt env calls w₀ h₀) i _ ?_
    fun before d _ hd => ?_⟩
  · cases calls i with
    | report => exact Nat.zero_le 1
    | request email route =>
      cases email with
      | none => rfl
      | some email =>
        exact ⟨[], [], rfl, Nat.zero_le 1, fun d hd => absurd hd List.not_mem_nil,
          Or.inl (Nat.zero_le 1)⟩
  · cases hcall : calls i with
    | request email route =>
      rw [hcall] at hd
      cases email with
      | none => exact hd.elim
      | some email => exact permitted_spends env email route before d hd
    | report id body =>
      rw [hcall] at hd
      cases id with
      | absent | invalid => exact hd.elim
      | value id =>
        cases body with
        | none => exact hd.elim
        | some payload =>
          have hspared : Spared before := hd.1
          rw [commits_spared before hspared]
          exact le_refl 1

theorem commits_once_demo : ∃ w, demoRun = some w ∧ ∃ t, Told backend postgres demoStart w t ∧
    ∀ i, (demoCall i).Spends Env.demo (commits (deedsOf i t)) := by
  have hsome : demoRun.isSome := by decide
  obtain ⟨w, hw⟩ := Option.isSome_iff_exists.mp hsome
  exact ⟨w, hw, commits_once Analytics.Runtime.stable Env.demo demoCall demoStart w
    (calling_start demoCall) (played_run _ _ w hw)⟩

/-- In every run a client that has ended has been honest: an error was answered only if
nothing was committed but its own account or an organization without its creator, and
success only if the request was done. -/
theorem answers_honest (h₀ : Start rt env calls w₀) (h : Run backend postgres w₀ w) :
    ∃ t, Told backend postgres w₀ w t ∧ ∀ i, w.prog i = .ret () →
      (calls i).Honest env (deedsOf i t) (w.cfg.ses i).out := by
  obtain ⟨t, ht⟩ := run_told backend postgres h
  exact ⟨t, ht, fun i hi => told_ended backend postgres (fun i => (calls i).Permits env)
    (fun i h s => (calls i).Honest env h s.out) ht (start_conduct rt env calls w₀ h₀) i hi⟩

/-- All four have ended: two with success, one silently, and the stranger with 404. -/
theorem answers_honest_demo : ∃ w, demoRun = some w ∧
    (∀ i, responses (w.cfg.ses i).out = demoStatus i) ∧
    ∃ t, Told backend postgres demoStart w t ∧ ∀ i,
      (demoCall i).Honest Env.demo (deedsOf i t) (w.cfg.ses i).out := by
  have h : demoRun.any (fun w => [.founder, .member, .gateway, .stranger].all fun i =>
      finished (w.prog i) && responses (w.cfg.ses i).out == demoStatus i) = true := by
    decide
  obtain ⟨w, hw, hall⟩ := (Option.any_eq_true _ _).mp h
  have hdone : ∀ i, finished (w.prog i) = true ∧
      responses (w.cfg.ses i).out = demoStatus i := by
    intro i
    have hi := List.all_eq_true.mp hall i (by cases i <;> simp)
    simpa using hi
  obtain ⟨t, ht, hhonest⟩ := answers_honest Analytics.Runtime.stable Env.demo demoCall demoStart w
    (calling_start demoCall) (played_run _ _ w hw)
  exact ⟨w, hw, fun i => (hdone i).2, t, ht,
    fun i => hhonest i (finished_ret _ (hdone i).1)⟩

end Runs

/-! ## Rows of an organization -/

section Images
variable (db : Db) (ws : List Image) (o : UUID)

theorem changed_touched (t : Table) (k : Key t) (h : (db.replay ws).row t k ≠ db.row t k) :
    ∃ w ∈ ws, Store.Touches w t k := by
  by_contra hn
  exact h (db.replay_untouched ws t k fun w hw ht => hn ⟨w, hw, ht⟩)

/-- A row that is touched is the one of an image. -/
theorem replay_image (t : Table) (k : Key t) (h : ∃ w ∈ ws, Store.Touches w t k) :
    (⟨t, k, (db.replay ws).row t k⟩ : Image) ∈ ws := by
  induction ws generalizing db with
  | nil =>
    obtain ⟨w, hw, -⟩ := h
    cases hw
  | cons w ws ih =>
    by_cases hlater : ∃ w' ∈ ws, Store.Touches w' t k
    · exact List.mem_cons_of_mem _ (ih _ hlater)
    · obtain ⟨w', hw', ht⟩ := h
      rcases List.mem_cons.mp hw' with rfl | hw'
      · have hrow := (db.write w').replay_untouched ws t k fun w hw ht => hlater ⟨w, hw, ht⟩
        obtain ⟨t', k', v⟩ := w'
        cases ht
        rw [Store.replay_cons, hrow, Store.write, Store.set_same]
        exact List.mem_cons_self
      · exact absurd ⟨w', hw', ht⟩ hlater

def Under (p : UUID) : Prop := ∀ w ∈ ws,
  (∃ v, w = (⟨.project, p, some v⟩ : Image)) ∨
  (∃ r v, w = (⟨.deploymentRevision, r, some v⟩ : Image) ∧ v.projectID = p) ∨
  ∃ e v rv, w = (⟨.deploymentRevisionEvent, e, some v⟩ : Image) ∧
    (⟨.deploymentRevision, v.deploymentRevisionID, some rv⟩ : Image) ∈ ws

theorem under_revision (p : UUID) (hu : Under ws p) (r : UUID) (v : DeploymentRevisionRow)
    (hr : ∃ w ∈ ws, Store.Touches w .deploymentRevision r)
    (hv : (db.replay ws).row .deploymentRevision r = some v) : v.projectID = p := by
  have hm := replay_image db ws .deploymentRevision r hr
  rw [hv] at hm
  rcases hu _ hm with ⟨v', he⟩ | ⟨r', v', he, hp⟩ | ⟨e, v', rv, he, -⟩
  · cases he
  · cases he
    exact hp
  · cases he

/-- What the images put into an organization is in the one of the project. -/
theorem under_belongs (p : UUID) (hu : Under ws p) (t : Table) (k : Key t)
    (ht : ∃ w ∈ ws, Store.Touches w t k) (hb : Belongs (db.replay ws) o t k) :
    Belongs (db.replay ws) o .project p := by
  have hm := replay_image db ws t k ht
  generalize hrow : (db.replay ws).row t k = x at hm
  rcases hu _ hm with ⟨v, he⟩ | ⟨r, v, he, hp⟩ | ⟨e, v, rv, he, hrv⟩ <;> cases he
  · exact hb
  · obtain ⟨v', pv, hv', hpv, ho⟩ := hb
    exact ⟨pv, under_revision db ws p hu _ v' ht hv' ▸ hpv, ho⟩
  · obtain ⟨v', r', pv, hv', hr', hpv, ho⟩ := hb
    cases hrow.symm.trans hv'
    exact ⟨pv, under_revision db ws p hu _ r' ⟨_, hrv, rfl⟩ hr' ▸ hpv, ho⟩

end Images

section Forward
variable (db db' : Db) (o : UUID)

/-- The rows in both states have the same lasting columns. -/
def Alike : Prop := ∀ t k v v', db.row t k = some v → db'.row t k = some v' →
  t ≠ .organizationUserAccount → Permanence.lasting t v' = Permanence.lasting t v

variable (ha : Alike db db')
include ha

theorem project_forward (p : UUID) (v : ProjectRow) (hv : db.row .project p = some v)
    (ho : v.organizationID = o) (hp : ∃ v', db'.row .project p = some v') :
    Belongs db' o .project p := by
  obtain ⟨v', hv'⟩ := hp
  have hl := congrArg ProjectRow.organizationID (ha .project p v v' hv hv' (by decide))
  exact ⟨v', hv', hl.trans ho⟩

variable (hs : Sound schema db')
include hs

theorem revision_forward (r : UUID) (hb : Belongs db o .deploymentRevision r)
    (hr : ∃ v', db'.row .deploymentRevision r = some v') : Belongs db' o .deploymentRevision r := by
  obtain ⟨v, p, hv, hp, ho⟩ := hb
  obtain ⟨v', hv'⟩ := hr
  cases ha .deploymentRevision r v v' hv hv' (by decide)
  obtain ⟨p', hp', ho'⟩ := project_forward db db' o ha _ p hp ho
    (hs.parent revisionProject (by simp [schema, foreignKeys]) r _ _ hv' rfl)
  exact ⟨_, p', hv', hp', ho'⟩

/-- A row that stays belongs to the same organization. -/
theorem belongs_forward (t : Table) (k : Key t) (hb : Belongs db o t k)
    (hrow : (db'.row t k).isSome) : Belongs db' o t k := by
  obtain ⟨v', hv'⟩ := Option.isSome_iff_exists.mp hrow
  cases t with
  | organization | organizationUserAccount | userAccount => exact hb
  | project =>
    obtain ⟨v, hv, ho⟩ := hb
    exact project_forward db db' o ha k v hv ho ⟨v', hv'⟩
  | deploymentRevision => exact revision_forward db db' o ha hs k hb ⟨v', hv'⟩
  | deploymentRevisionEvent =>
    obtain ⟨v, r, p, hv, hr⟩ := hb
    cases ha .deploymentRevisionEvent k v v' hv hv' (by decide)
    obtain ⟨r', p', hr'⟩ := revision_forward db db' o ha hs _ ⟨r, p, hr⟩
      (hs.parent eventRevision (by simp [schema, foreignKeys]) k _ _ hv' rfl)
    exact ⟨_, r', p', hv', hr'⟩
  | mcpServerLog =>
    obtain ⟨v, p, hv, hp, ho⟩ := hb
    cases ha .mcpServerLog k v v' hv hv' (by decide)
    obtain ⟨p', hp'⟩ := project_forward db db' o ha _ p hp ho
      (hs.parent logProject (by simp [schema, foreignKeys]) k _ _ hv' rfl)
    exact ⟨_, p', hv', hp'⟩
  | contextProperty =>
    obtain ⟨v, p, hv, hp, ho⟩ := hb
    cases ha .contextProperty k v v' hv hv' (by decide)
    obtain ⟨p', hp'⟩ := project_forward db db' o ha _ p hp ho
      (hs.parent propertyProject (by simp [schema, foreignKeys]) k _ _ hv' rfl)
    exact ⟨_, p', hv', hp'⟩
  | context =>
    obtain ⟨v, c, p, hv, hc, hp, ho⟩ := hb
    cases ha .context k v v' hv hv' (by decide)
    obtain ⟨c', hc'⟩ := hs.parent Schema.contextProperty (by simp [schema, foreignKeys]) k _ _
      hv' rfl
    cases ha .contextProperty _ c c' hc hc' (by decide)
    obtain ⟨p', hp'⟩ := project_forward db db' o ha _ p hp ho
      (hs.parent propertyProject (by simp [schema, foreignKeys]) _ _ _ hc' rfl)
    exact ⟨_, _, p', hv', hc', hp'⟩

end Forward

/-- A row of a project that is gone belongs to nobody. -/
theorem owned_gone (db db' : Db) (o p : UUID) (t : Table) (k : Key t)
    (ho : Deletion.OwnedBy db p t k) (hn : db'.row t k = none) : ¬ Belongs db' o t k := by
  intro hb
  cases t with
  | organization | organizationUserAccount | userAccount => exact ho.elim
  | project | mcpServerLog | contextProperty | deploymentRevision | deploymentRevisionEvent
  | context =>
    obtain ⟨v, hb⟩ := hb
    have hv : db'.row _ k = some v := by
      first | exact hb.1 | (obtain ⟨_, hv, -⟩ := hb; exact hv) |
        (obtain ⟨_, _, hv, -⟩ := hb; exact hv)
    rw [hn] at hv
    cases hv

/-! ## Effects on an organization -/

def Founds (route : Route) (o : UUID) (h : List ApiDeed) : Prop :=
  ∃ n t d, route = .postOrganization (some n) ∧ d ∈ h ∧ d.met.row .organization o = none ∧
    d.made = [newOrganization n o t]

section Effects
variable (env : Env) (user : UserAccount) (h : List ApiDeed) (d : ApiDeed) (o : UUID)

/-- The state that a deed leaves, and what the earlier deeds of the client met. -/
structure Continues : Prop where
  consistent : Consistent d.met
  sound : Sound schema (d.met.replay d.made)
  alike : Alike d.met (d.met.replay d.made)
  met : ∀ d₀ ∈ h, Alike d₀.met d.met
  left : ∀ d₀ ∈ h, Alike d₀.met (d.met.replay d.made)

theorem continues_sub {h' : List ApiDeed} (hsub : h' ⊆ h) (hc : Continues h d) :
    Continues h' d :=
  { hc with
    met := fun d₀ hd₀ => hc.met d₀ (hsub hd₀)
    left := fun d₀ hd₀ => hc.left d₀ (hsub hd₀) }

theorem saved_under (req : SettingsRequest) (p : UUID) (hs : Saved user req p h d.made) :
    Under d.made p := by
  obtain ⟨r, t, ps, rest, -, hws, hrest⟩ := hs
  rw [hws]
  intro w hw
  rcases List.mem_cons.mp hw with rfl | hw
  · exact Or.inr (Or.inl ⟨_, _, rfl, rfl⟩)
  · rcases hrest w hw with ⟨v, d', e, -, rfl⟩ | ⟨e, t', rfl⟩
    · exact Or.inl ⟨_, rfl⟩
    · exact Or.inr (Or.inr ⟨_, _, _, rfl, List.mem_cons_self⟩)

variable (hc : Continues h d)
include hc

/-- A changed row of an organization lies in a project, which is in the same one. -/
theorem under_changed (p : UUID) (hu : Under d.made p) (t : Table) (k : Key t)
    (hne : (d.met.replay d.made).row t k ≠ d.met.row t k)
    (hb : Belongs d.met o t k ∨ Belongs (d.met.replay d.made) o t k) :
    Belongs (d.met.replay d.made) o .project p := by
  have ht := changed_touched d.met d.made t k hne
  refine under_belongs d.met d.made o p hu t k ht (hb.elim (fun hb => ?_) id)
  refine belongs_forward _ _ o hc.alike hc.sound t k hb ?_
  have hm := replay_image d.met d.made t k ht
  generalize (d.met.replay d.made).row t k = x at hm
  rcases hu _ hm with ⟨v, he⟩ | ⟨r, v, he, -⟩ | ⟨e, v, rv, he, -⟩ <;> cases he <;> rfl

/-- The project was accessible, so its organization has the user as a member. -/
theorem accessible_member (p : UUID) (hsaw : Saw h (fun db => Requests.Accessible db user.id p))
    (hb : Belongs d.met o .project p ∨ Belongs (d.met.replay d.made) o .project p) :
    Saw h (fun db => Queries.isMember db user.id o = true) := by
  obtain ⟨d₀, hd₀, v₀, hv₀, hm⟩ := hsaw
  refine ⟨d₀, hd₀, ?_⟩
  have hsame : v₀.organizationID = o := by
    rcases hb with ⟨v, hv, ho⟩ | ⟨v, hv, ho⟩
    · have hl := hc.met d₀ hd₀ .project p v₀ v hv₀ hv (by decide)
      exact (congrArg ProjectRow.organizationID hl).symm.trans ho
    · have hl := hc.left d₀ hd₀ .project p v₀ v hv₀ hv (by decide)
      exact (congrArg ProjectRow.organizationID hl).symm.trans ho
  exact hsame ▸ hm

theorem newProject_member (req : ProjectRequest) (p : UUID) (hnew : NewProject user req p d.made)
    (hsaw : Saw h (fun db => Queries.isMember db user.id req.organizationID = true)) (t : Table)
    (k : Key t) (hne : (d.met.replay d.made).row t k ≠ d.met.row t k)
    (hb : Belongs d.met o t k ∨ Belongs (d.met.replay d.made) o t k) :
    Saw h (fun db => Queries.isMember db user.id o = true) := by
  obtain ⟨hu, horg, hp⟩ : Under d.made p ∧ (∀ v, (⟨.project, p, some v⟩ : Image) ∈ d.made →
      v.organizationID = req.organizationID) ∧ ∃ w ∈ d.made, Store.Touches w .project p := by
    obtain ⟨t, ⟨-, hws⟩ | ⟨u, r, t', -, hws⟩⟩ := hnew <;> rw [hws]
    · refine ⟨fun w hw => ?_, fun v hv => ?_, _, List.mem_singleton.mpr rfl, rfl⟩
      · exact Or.inl ⟨_, List.mem_singleton.mp hw⟩
      · cases List.mem_singleton.mp hv
        rfl
    · refine ⟨fun w hw => ?_, fun v hv => ?_, _, List.mem_cons_self, rfl⟩
      · simp only [List.mem_cons, List.not_mem_nil, or_false] at hw
        rcases hw with rfl | rfl | rfl
        · exact Or.inl ⟨_, rfl⟩
        · exact Or.inr (Or.inl ⟨_, _, rfl, rfl⟩)
        · exact Or.inl ⟨_, rfl⟩
      · simp only [List.mem_cons, List.not_mem_nil, or_false] at hv
        rcases hv with hv | hv | hv <;> cases hv <;> rfl
  obtain ⟨v, hv, ho⟩ := under_changed h d o hc p hu t k hne hb
  have hm := replay_image d.met d.made .project p hp
  rw [hv] at hm
  rw [← ho, horg v hm]
  exact hsaw

/-- A row of an organization is changed after its membership was met, or by the request
that creates the organization. -/
theorem effects_member (route : Route) (he : Effects env user route h d) (t : Table) (k : Key t)
    (hne : (d.met.replay d.made).row t k ≠ d.met.row t k)
    (hb : Belongs d.met o t k ∨ Belongs (d.met.replay d.made) o t k) :
    Saw h (fun db => Queries.isMember db user.id o = true) ∨ Founds route o (h++[d]) := by
  obtain ⟨w, hw, htouch⟩ := changed_touched d.met d.made t k hne
  have hadmitted : ∀ org, Saw h (Admitted user org) → org.id = o →
      Saw h (fun db => Queries.isMember db user.id o = true) := by
    rintro org ⟨d₀, hd₀, -, hm⟩ rfl
    exact ⟨d₀, hd₀, hm⟩
  unfold Effects at he
  split at he
  · obtain ⟨-, ⟨o', t', hnone, hws⟩ | ⟨o', t', t'', d₀, hd₀, hnone, hws₀, hws⟩⟩ := he
    · rw [hws, List.mem_singleton] at hw
      subst hw
      cases htouch
      obtain rfl : o' = o := hb.elim id id
      exact Or.inr ⟨_, _, d, rfl, List.mem_append_right _ (List.mem_singleton.mpr rfl), hnone, hws⟩
    · rw [hws, List.mem_singleton] at hw
      subst hw
      cases htouch
      obtain rfl : o' = o := hb.elim id id
      exact Or.inr ⟨_, _, d₀, rfl, List.mem_append_left _ hd₀, hnone, hws₀⟩
  · obtain ⟨org, org', v, rfl, hsaw, -, -, hws⟩ := he
    rw [hws, List.mem_singleton] at hw
    subst hw
    cases htouch
    exact Or.inl (hadmitted org hsaw (hb.elim id id))
  · obtain ⟨org, accounts, memberships, u, rfl, hsaw, hws, hacc, hmem⟩ := he
    rw [hws] at hw
    rcases List.mem_append.mp hw with hw | hw
    · rcases hacc with ⟨rfl, -⟩ | ⟨t', rfl⟩
      · cases hw
      · cases List.mem_singleton.mp hw
        cases htouch
        exact (hb.elim id id : False).elim
    · rcases hmem with rfl | ⟨t', rfl⟩
      · cases hw
      · cases List.mem_singleton.mp hw
        cases htouch
        exact Or.inl (hadmitted org hsaw (hb.elim id id))
  · obtain ⟨org, rfl, hsaw, -, hws⟩ := he
    rw [hws, List.mem_singleton] at hw
    subst hw
    cases htouch
    exact Or.inl (hadmitted org hsaw (hb.elim id id))
  · obtain ⟨-, hsaw, p, hnew⟩ := he
    exact Or.inl (newProject_member user h d o hc _ p hnew hsaw t k hne hb)
  · next p =>
    obtain ⟨hsaw, hdel⟩ := he
    obtain ⟨hgone, hkept⟩ :=
      Deletion.deleteRow_deletes d.met p hc.consistent.toPointers d.made hdel t k
    have hown : Deletion.OwnedBy d.met p t k := by
      by_contra hn
      exact hne (hkept hn)
    have hbefore : Belongs d.met o t k :=
      hb.elim id fun hb => (owned_gone _ _ o p t k hown (hgone hown) hb).elim
    exact Or.inl (accessible_member user h d o hc p hsaw (Or.inl
      (Isolation.ownedBy_belongs (fun _ _ _ => rfl) p t k hbefore hown)))
  · obtain ⟨-, hsaw, hs⟩ := he
    exact Or.inl (accessible_member user h d o hc _ hsaw (Or.inr
      (under_changed h d o hc _ (saved_under user h d _ _ hs) t k hne hb)))
  · exact he.elim

/-- The log of a call belongs to the organization of the revision. -/
theorem reported_belongs (id : UUID) (payload : WebhookPayload) (hr : Reported env id payload h d)
    (t : Table) (k : Key t) (hne : (d.met.replay d.made).row t k ≠ d.met.row t k)
    (hb : Belongs d.met o t k ∨ Belongs (d.met.replay d.made) o t k) :
    Belongs d.met o .deploymentRevision id := by
  obtain ⟨-, user, l, r, -, hr, hws⟩ := hr
  obtain ⟨w, hw, htouch⟩ := changed_touched d.met d.made t k hne
  rw [hws, List.mem_singleton] at hw
  subst hw
  cases htouch
  have hrow : (d.met.replay d.made).row .mcpServerLog l = some { Logs.storedLog
      (mcpLogEntry payload id user) with projectID := r.projectID } := by
    rw [hws]
    exact d.met.set_same _ _ _
  have hproject : (d.met.replay d.made).row .project r.projectID =
      d.met.row .project r.projectID := by
    rw [hws]
    exact d.met.set_table .mcpServerLog .project l _ _ (by decide)
  obtain ⟨v, p, hv, hp, ho⟩ : Belongs (d.met.replay d.made) o .mcpServerLog l :=
    hb.elim (fun hb => belongs_forward _ _ o hc.alike hc.sound _ l hb (by simp [hrow]))
      fun hb => hb
  cases hrow.symm.trans hv
  exact ⟨r, p, hr, hproject.symm.trans hp, ho⟩

end Effects

/-! ## Entitled clients -/

def MemberWith (env : Env) (email : String) (o : UUID) (db : Db) : Prop :=
  ∃ u, Addressed env email u db ∧ Queries.isMember db u o = true

/-- What a client must have met or done to change rows of the organization. -/
def Call.Entitled (env : Env) (o : UUID) : Call → List ApiDeed → ApiDeed → Prop
  | .request (some email) route, h, d => Saw h (MemberWith env email o) ∨ Founds route o (h++[d])
  | .report (.value id) (some payload), h, d => Belongs d.met o .deploymentRevision id ∧
    ∃ u, Saw h (Addressed env payload.subjectEmail u)
  | _, _, _ => False

section Entitled
variable {σ : Type} [DecidableEq σ] (rt : Analytics.Runtime) (env : Env) (calls : σ → Call)
variable (w₀ w : ApiWorld σ) (h₀ : Start rt env calls w₀)
include h₀

omit [DecidableEq σ] in
theorem start_clients (i : σ) : Permanence.Client rt env (w₀.prog i) := by
  rw [h₀.prog i]
  cases calls i with
  | request email route => exact Or.inl ⟨email, route, rfl⟩
  | report id body => exact Or.inr ⟨id, body, rfl⟩

theorem run_alike (w₁ w₂ : ApiWorld σ) (h₁ : Run backend postgres w₀ w₁)
    (h₂ : Run backend postgres w₁ w₂) : Alike w₁.cfg.srv.db w₂.cfg.srv.db :=
  fun t k v v' hv hv' _ => Permanence.contents_last rt env w₀ w₁ w₂ h₀.toInitial
    (start_clients rt env calls w₀ h₀) h₁ h₂ t k v hv v' hv'

/-- An account that was met has the same row ever after. -/
theorem account_stays (w₁ w₂ : ApiWorld σ) (h₁ : Run backend postgres w₀ w₁)
    (h₂ : Run backend postgres w₁ w₂) (u : UUID) (v : UserAccountRow)
    (hv : w₁.cfg.srv.db.row .userAccount u = some v) :
    w₂.cfg.srv.db.row .userAccount u = some v := by
  obtain ⟨v', hv'⟩ := Option.isSome_iff_exists.mp (Permanence.kept_stays rt env w₀ w₁ w₂
    h₀.toInitial (start_clients rt env calls w₀ h₀) h₁ h₂ .userAccount u v hv
    (by simp [Permanence.Removable, ownedTables]))
  cases run_alike rt env calls w₀ h₀ w₁ w₂ h₁ h₂ .userAccount u v v' hv hv' (by decide)
  exact hv'

theorem told_continues (t : List (σ × ApiDeed)) (ht : Told backend postgres w₀ w t)
    (pre post : List (σ × ApiDeed)) (e : σ × ApiDeed) (he : t = pre++e::post) :
    Continues (deedsOf e.1 pre) e.2 := by
  obtain ⟨w₁, fail, β, a, k, h₁, hact, hadm, hd, -⟩ := told_entry backend postgres ht pre post e he
  have hrun := told_run backend postgres h₁
  have hstep : Step backend postgres w₁ (w₁.next backend e.1 fail a k) :=
    .act e.1 fail a k hact hadm
  have hmet : e.2.met = w₁.cfg.srv.db := by rw [hd]; rfl
  have hleft : e.2.met.replay e.2.made = (w₁.next backend e.1 fail a k).cfg.srv.db := by
    rw [hd]
    exact (exec_deed backend e.1 fail a w₁.cfg.srv (w₁.cfg.ses e.1)).1.symm
  have hconsistent : ∀ w', Run backend postgres w₀ w' → Consistent w'.cfg.srv.db := fun w' hr =>
    ApiRuns.api_consistent rt env w₀ w' h₀.toInitial (start_clients rt env calls w₀ h₀) hr
  have halike := run_alike rt env calls w₀ h₀
  refine ⟨?_, ?_, ?_, fun d₀ hd₀ => ?_, fun d₀ hd₀ => ?_⟩
  · exact hmet ▸ hconsistent w₁ hrun
  · exact hleft ▸ (hconsistent _ (hrun.tail hstep)).sound
  · rw [hleft, hmet]
    exact halike w₁ _ hrun (.single hstep)
  all_goals
    obtain ⟨wa, wb, ha, hab, hb, hdb, -⟩ := told_deed backend postgres h₁ e.1 d₀ hd₀
    rw [← hdb]
  · rw [hmet]
    exact halike wa w₁ ha (.head hab hb)
  · rw [hleft]
    exact halike wa _ ha (.tail (.head hab hb) hstep)

/-- The member that was met is the account with the address of the token. -/
theorem told_member (t : List (σ × ApiDeed)) (ht : Told backend postgres w₀ w t) (i : σ)
    (email : String) (user : UserAccount) (o : UUID)
    (hid : Identified env email user (deedsOf i t))
    (hm : Saw (deedsOf i t) (fun db => Queries.isMember db user.id o = true)) :
    Saw (deedsOf i t) (MemberWith env email o) := by
  obtain ⟨d, hd, hmember⟩ := hm
  obtain ⟨wa, wb, ha, hab, hb, hdb, -⟩ := told_deed backend postgres ht i d hd
  -- the account of the membership at that time
  obtain ⟨m, hrow⟩ := Option.isSome_iff_exists.mp hmember
  have hsound := (ApiRuns.api_consistent rt env w₀ wa h₀.toInitial
    (start_clients rt env calls w₀ h₀) ha).sound
  rw [hdb] at hsound
  obtain ⟨v, hv⟩ := hsound.parent membershipUser (by simp [schema, foreignKeys]) (o, user.id) m _
    hrow rfl
  have hnow := account_stays rt env calls w₀ h₀ wa w ha (.head hab hb) user.id v (hdb ▸ hv)
  refine ⟨d, hd, user.id, ⟨v, hv, ?_⟩, hmember⟩
  -- it is still the same at the end, as is the one that the token was looked up by
  obtain ⟨d', hd', hv'⟩ := hid
  obtain ⟨wc, we, hc, hce, he, hdc, hde⟩ := told_deed backend postgres ht i d' hd'
  rcases hv' with ⟨v', hv', hemail⟩ | ⟨t', hmade⟩
  · have hnow' := account_stays rt env calls w₀ h₀ wc w hc (.head hce he) user.id v' (hdc ▸ hv')
    cases hnow.symm.trans hnow'
    exact hemail
  · have hv' : we.cfg.srv.db.row .userAccount user.id = some ⟨t', env.toLower email⟩ := by
      rw [hde, hmade]
      exact d'.met.set_same _ _ _
    cases hnow.symm.trans (account_stays rt env calls w₀ h₀ we w (hc.tail hce) he user.id _ hv')
    rfl

/-- In every run, a client that changes a row of an organization has met the account of
its token as a member of it, or it has created the organization itself, or it reports a
call for one of its revisions. -/
theorem changes_entitled (h : Run backend postgres w₀ w) : ∃ t, Told backend postgres w₀ w t ∧
    ∀ pre e post, t = pre++e::post → ∀ o tb k,
      Belongs e.2.met o tb k ∨ Belongs (e.2.met.replay e.2.made) o tb k →
      (e.2.met.replay e.2.made).row tb k ≠ e.2.met.row tb k →
      (calls e.1).Entitled env o (deedsOf e.1 pre) e.2 := by
  obtain ⟨t, ht⟩ := run_told backend postgres h
  refine ⟨t, ht, fun pre e post he o tb k hb hne => ?_⟩
  have hc := told_continues rt env calls w₀ w h₀ t ht pre post e he
  obtain ⟨w₁, fail, β, a, p, h₁, -⟩ := told_entry backend postgres ht pre post e he
  have hmade : e.2.made ≠ [] := fun hn => hne (by rw [hn]; rfl)
  have hpermit := told_allowed backend postgres (fun i => (calls i).Permits env)
    (fun i h s => (calls i).Honest env h s.out) ht (start_conduct rt env calls w₀ h₀) pre post e he
    hmade
  cases hcall : calls e.1 with
  | request email route =>
    rw [hcall] at hpermit
    cases email with
    | none => exact hpermit
    | some email =>
      rcases hpermit with ⟨-, u, t', -, hws⟩ | ⟨user, d₀, rest, hpre, -, hid, hallowed⟩
      · obtain ⟨w', hw', htouch⟩ := changed_touched _ _ tb k hne
        rw [hws, List.mem_singleton] at hw'
        subst hw'
        cases htouch
        exact (hb.elim id id : False).elim
      · have hrest : rest ⊆ deedsOf e.1 pre := hpre ▸ List.subset_cons_self d₀ rest
        have hfirst : [d₀] ⊆ deedsOf e.1 pre := by simp [hpre]
        refine (effects_member env user rest e.2 o (continues_sub _ _ hrest hc) route
          hallowed.effects tb k hne hb).imp (fun hm => ?_) fun hf => ?_
        · exact told_member rt env calls w₀ w₁ h₀ pre h₁ e.1 email user o
            (identified_sub hfirst hid) (saw_sub hrest hm)
        · obtain ⟨n, t', d, hroute, hd, hmade⟩ := hf
          refine ⟨n, t', d, hroute, ?_, hmade⟩
          exact (List.mem_append.mp hd).elim (fun hd => List.mem_append_left _ (hrest hd))
            (List.mem_append_right _)
  | report id body =>
    rw [hcall] at hpermit
    cases id with
    | absent | invalid => exact hpermit
    | value id =>
      cases body with
      | none => exact hpermit
      | some payload =>
        have hreported : Reported env id payload (deedsOf e.1 pre) e.2 := hpermit
        have hbelongs := reported_belongs env _ e.2 o hc id payload hreported tb k hne hb
        obtain ⟨-, user, -, -, hsaw, -⟩ := hreported
        exact ⟨hbelongs, user.id, hsaw⟩

end Entitled

theorem changes_entitled_demo : ∃ w, demoRun = some w ∧ ∃ t, Told backend postgres demoStart w t ∧
    ∀ pre e post, t = pre++e::post → ∀ o tb k,
      Belongs e.2.met o tb k ∨ Belongs (e.2.met.replay e.2.made) o tb k →
      (e.2.met.replay e.2.made).row tb k ≠ e.2.met.row tb k →
      (demoCall e.1).Entitled Env.demo o (deedsOf e.1 pre) e.2 := by
  have hsome : demoRun.isSome := by decide
  obtain ⟨w, hw⟩ := Option.isSome_iff_exists.mp hsome
  exact ⟨w, hw, changes_entitled Analytics.Runtime.stable Env.demo demoCall demoStart w
    (calling_start demoCall) (played_run _ _ w hw)⟩

end Jetski.Mediation
