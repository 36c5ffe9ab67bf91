import Jetski.Conduct
import Jetski.Creation

/-!
# Answers and effects

What a request may commit, by its route, and when it has done what it answers.
Every route commits at most its own effect and only after its access check. A
request that answers with an error has committed nothing, but for one: an
organization may have been created without its creator as a member.
-/

set_option autoImplicit false

namespace Jetski.Answers

open Relational Schema Jetski.Types Database Handlers Validation Routes Conduct Transactions

/-! ## Effects -/

def newOrganization (n : String) (o : UUID) (t : Time) : Image :=
  ⟨.organization, o, some ⟨t, trimSpace n, ⟨none, ⟨true⟩⟩⟩⟩

def newMembership (o u : UUID) (t : Time) : Image :=
  ⟨.organizationUserAccount, (o, u), some ⟨t⟩⟩

def projectOf (user : UserAccount) (req : ProjectRequest) (t : Time) : ProjectRow :=
  ⟨t, user.id, req.organizationID, req.name, none, none⟩

/-- The images of a new project, with its first revision if it has a proxy URL. -/
def NewProject (user : UserAccount) (req : ProjectRequest) (p : UUID) (ws : List Image) : Prop :=
  ∃ t, (req.proxyURL = none ∧ ws = [⟨.project, p, some (projectOf user req t)⟩]) ∨
    ∃ u r t', req.proxyURL = some u ∧ ws = [⟨.project, p, some (projectOf user req t)⟩,
      ⟨.deploymentRevision, r, some (Ownership.rowOf (firstRevision user req p u) t')⟩,
      ⟨.project, p, some { projectOf user req t with latestDeploymentRevisionID := some r }⟩]

def Follows (h : List ApiDeed) (p r : UUID) (w : Image) : Prop :=
  (∃ v d e, Saw h (fun db => db.row .project p = some v) ∧ w = ⟨.project, p, some { v with
    latestDeploymentRevisionID := d
    latestDeploymentRevisionEventID := e }⟩) ∨
  ∃ e t, w = ⟨.deploymentRevisionEvent, e, some ⟨t, r, .progressing⟩⟩

/-- The images of saved settings: a revision merged with the latest one that was
met, and what follows it. -/
def Saved (user : UserAccount) (req : SettingsRequest) (p : UUID) (h : List ApiDeed)
    (ws : List Image) : Prop :=
  ∃ r t ps rest, Saw h (fun db => (db.row .project p).bind (Queries.summary db p) = some ps) ∧
    ws = ⟨.deploymentRevision, r, some (Ownership.rowOf
      (mergeSettings user req p ps.latestDeploymentRevision) t)⟩ :: rest ∧
    ∀ w ∈ rest, Follows h p r w

def Addressed (env : Env) (email : String) (u : UUID) (db : Db) : Prop :=
  ∃ v, db.row .userAccount u = some v ∧ v.email = env.toLower email

/-- What a deed of a request may commit after the earlier ones. -/
def Effects (env : Env) (user : UserAccount) : Route → List ApiDeed → ApiDeed → Prop
  | .postOrganization (some n), h, d => validateName (trimSpace n) = .ok () ∧
    ((∃ o t, d.met.row .organization o = none ∧ d.made = [newOrganization n o t]) ∨
      ∃ o t t' d₀, d₀ ∈ h ∧ d₀.met.row .organization o = none ∧
        d₀.made = [newOrganization n o t] ∧ d.made = [newMembership o user.id t'])
  | .putOrganization (.value o) (some request), h, d => ∃ org org' v, org.id = o ∧
    Saw h (Admitted user org) ∧ requestedSettings org request = .ok org' ∧
    d.met.row .organization o = some v ∧
    d.made = [⟨.organization, o, some { v with settings := org'.settings }⟩]
  | .putOrganizationMember (.value o) (some email), h, d => ∃ org accounts memberships u,
    org.id = o ∧ Saw h (Admitted user org) ∧ d.made = accounts++memberships ∧
    (accounts = [] ∧ Saw h (Addressed env (trimSpace email) u) ∨
      ∃ t, accounts = [⟨.userAccount, u, some ⟨t, env.toLower (trimSpace email)⟩⟩]) ∧
    (memberships = [] ∨ ∃ t, memberships = [newMembership o u t])
  | .deleteOrganizationMember (.value o) (.value u), h, d => ∃ org, org.id = o ∧
    Saw h (Admitted user org) ∧ u ≠ user.id ∧ d.made = [⟨.organizationUserAccount, (o, u), none⟩]
  | .postProject (some req), h, d => validateName req.name = .ok () ∧
    Saw h (fun db => Queries.isMember db user.id req.organizationID = true) ∧
    ∃ p, NewProject user req p d.made
  | .deleteProject (.value p), h, d => Saw h (fun db => Requests.Accessible db user.id p) ∧
    deleteRow foreignKeys tables .project p d.met = .ok d.made
  | .putProjectSettings (.value p) (some req), h, d => checkSettings env req = .ok () ∧
    Saw h (fun db => Requests.Accessible db user.id p) ∧ Saved user req p h d.made
  | _, _, _ => False

/-- Nothing has been committed yet, but for the organization that its creator joins. -/
def Once (route : Route) (h : List ApiDeed) (d : ApiDeed) : Prop :=
  Spared h ∨ ∃ n o t t' u before d₀ after, route = .postOrganization (some n) ∧
    h = before++d₀::after ∧ Spared before ∧ Spared after ∧ d₀.made = [newOrganization n o t] ∧
    d.made = [newMembership o u t']

structure Allowed (env : Env) (user : UserAccount) (route : Route) (h : List ApiDeed)
    (d : ApiDeed) : Prop where
  effects : Effects env user route h d
  once : Once route h d

/-! ## Answers -/

def responses : List Output → List ℕ
  | [] => []
  | .response status _ :: out => status::responses out
  | .mail _ _ :: out => responses out

theorem responses_snoc (out : List Output) (status : ℕ) (body : Body) :
    responses (out++[.response status body]) = responses out++[status] := by
  induction out with
  | nil => rfl
  | cons o out ih => cases o <;> simp [responses, ih]

def Creates : Route → ApiDeed → Prop
  | .postOrganization (some n), d => ∃ o t, d.made = [newOrganization n o t]
  | _, _ => False

/-- Nothing was committed, but for an organization by the request that creates one. -/
def Untouched (route : Route) (h : List ApiDeed) : Prop :=
  ∀ d ∈ h, d.made ≠ [] → Creates route d

def Joined (h : List ApiDeed) (o u : UUID) : Prop :=
  ∃ d ∈ h, Queries.isMember d.met u o = true ∨ ∃ t, newMembership o u t ∈ d.made

/-- The request has done what it is for. -/
def Done (env : Env) (user : UserAccount) : Route → List ApiDeed → List Output → Prop
  | .postOrganization (some n), h, _ => ∃ o t, (∃ d ∈ h, d.made = [newOrganization n o t]) ∧
    Joined h o user.id
  | .putOrganization (.value o) (some request), h, _ =>
    (request.customDomain = none ∧ request.authorization = none) ∨
      ∃ d ∈ h, ∃ v, d.made = [⟨.organization, o, some v⟩]
  | .putOrganizationMember (.value o) (some email), h, out => ∃ u org, org.id = o ∧
    u.email = env.toLower (trimSpace email) ∧ .mail u org ∈ out ∧ Joined h o u.id
  | .deleteOrganizationMember (.value o) (.value u), h, _ => ∃ d ∈ h,
    Queries.isMember d.met u o = false ∨ d.made = [⟨.organizationUserAccount, (o, u), none⟩]
  | .postProject (some req), h, _ => ∃ d ∈ h, ∃ p, NewProject user req p d.made
  | .deleteProject (.value p), h, _ => ∃ d ∈ h, (d.met.row .project p).isSome ∧
    deleteRow foreignKeys tables .project p d.met = .ok d.made
  | .putProjectSettings (.value p) (some req), h, _ => ∃ d ∈ h, Saved user req p h d.made
  | _, h, _ => Spared h

structure Verdict (env : Env) (user : UserAccount) (route : Route) (h : List ApiDeed)
    (out : List Output) : Prop where
  refused : ∀ status ∈ responses out, 400 ≤ status → Untouched route h
  granted : responses out ≠ [] → (∀ status ∈ responses out, status < 400) →
    Done env user route h out

section Verdicts
variable {σ : Type} (me : σ) (env : Env) (user : UserAccount) (route : Route)

abbrev Fulfils (p : Api Unit) (h : List ApiDeed) (s : Ses) : Prop :=
  Acts me (Allowed env user route) (fun _ h s => Verdict env user route h s.out) p h s

theorem spared_untouched (h : List ApiDeed) (hs : Spared h) : Untouched route h :=
  fun d hd hne => absurd (hs d hd) hne

theorem verdict_declined (h : List ApiDeed) (out : List Output) (hs : Spared h)
    (hd : Declined [] out) : Verdict env user route h out := by
  refine ⟨fun _ _ _ => spared_untouched route h hs, fun hne hall => ?_⟩
  rcases hd with rfl | ⟨status, body, hstatus, rfl⟩
  · exact absurd rfl hne
  · have := hall status (by simp [responses])
    omega

variable (h : List ApiDeed) (s : Ses)

/-- A first response with an error. -/
theorem fulfils_error (status : ℕ) (body : Body) (hstatus : 400 ≤ status)
    (hu : Untouched route h) : Fulfils me env user route (respond status body) h s := by
  refine acts_respond me _ h s _ status body fun db => ⟨fun _ _ _ d hd hne => ?_, fun _ hall => ?_⟩
  · rcases List.mem_append.mp hd with hd | hd
    · exact hu d hd hne
    · cases List.mem_singleton.mp hd
      exact absurd rfl hne
  · have := hall status (by simp [responses_snoc])
    omega

/-- The only response, of success. -/
theorem fulfils_success (status : ℕ) (body : Body) (hstatus : status < 400)
    (hout : responses s.out = [])
    (hd : ∀ db, Done env user route (h++[⟨db, [], [.response status body]⟩])
      (s.out++[.response status body])) :
    Fulfils me env user route (respond status body) h s := by
  have hone : responses (s.out++[.response status body]) = [status] := by
    rw [responses_snoc, hout, List.nil_append]
  refine acts_respond me _ h s _ status body fun db => ⟨fun st hst hle => ?_, fun _ _ => hd db⟩
  rw [hone, List.mem_singleton] at hst
  omega

/-- The end of a transaction that is undone: the error is answered. -/
theorem fulfils_undone {α : Type} (K : Except DbError α → Api Unit)
    (hK : ∀ e, K (.error e) = internalServerError) (e : DbError) (hs : Spared h) :
    Finishes me (Allowed env user route) (fun r h s => Fulfils me env user route (K r) h s) 1
      (.error e) h s := by
  refine finishes_error me _ h s _ 1 e hs fun h' s' hw _ => ?_
  rw [hK]
  exact fulfils_error me env user route h' s' 500 _ (by decide) (spared_untouched _ _ hw.spared)

/-- A commit that may fail, which is answered with an error as well. -/
theorem fulfils_commit {α : Type} (K : Except DbError α → Api Unit)
    (hK : ∀ e, K (.error e) = internalServerError) (a : α) (ws : List Image) (hs : Spared h)
    (hp : Pends s ws) (hc : ∀ db, (ws ≠ [] → Effects env user route h ⟨db, ws, []⟩) ∧
      ∀ s', s'.out = s.out → Fulfils me env user route (K (.ok a)) (h++[⟨db, ws, []⟩]) s') :
    Finishes me (Allowed env user route) (fun r h s => Fulfils me env user route (K r) h s) 1
      (.ok a) h s := by
  refine finishes_commit me _ h s _ a ws hp hs (fun h' s' hw _ => ?_)
    fun db => ⟨fun hne => ⟨(hc db).1 hne, Or.inl hs⟩, (hc db).2⟩
  rw [hK]
  exact fulfils_error me env user route h' s' 500 _ (by decide) (spared_untouched _ _ hw.spared)

theorem fulfils_aborted {α : Type} (K : Except DbError α → Api Unit)
    (hK : ∀ e, K (.error e) = internalServerError) (a : α) (hs : Spared h)
    (hab : s.aborted = true) :
    Finishes me (Allowed env user route) (fun r h s => Fulfils me env user route (K r) h s) 1
      (.ok a) h s := by
  refine finishes_aborted me _ h s _ a hab hs fun h' s' hw _ => ?_
  rw [hK]
  exact fulfils_error me env user route h' s' 500 _ (by decide) (spared_untouched _ _ hw.spared)

end Verdicts

/-! ## What the statements write -/

theorem updateOrganization_ok (org org' : Organization) (t : Tick) (db : Db) (ws : List Image)
    (hf : Queries.updateOrganization org t db = .ok (org', ws)) :
    ∃ v, db.row .organization org.id = some v ∧
      ws = [⟨.organization, org.id, some { v with settings := org.settings }⟩] := by
  rw [Queries.updateOrganization] at hf
  split at hf
  · cases hf
  · next v hv => exact ⟨v, hv, (Ownership.putRow_ok _ _ _ _ _ _ _ hf).2⟩

theorem getUserByEmailOrCreate_ok (env : Env) (email : String) (t : Tick) (db : Db)
    (u : UserAccount) (ws : List Image)
    (hf : Queries.getUserByEmailOrCreate env email t db = .ok (u, ws)) :
    u.email = env.toLower email ∧ ((∃ v, db.row .userAccount u.id = some v ∧
      v.email = env.toLower email ∧ ws = []) ∨
      db.row .userAccount u.id = none ∧
        ∃ t, ws = [⟨.userAccount, u.id, some ⟨t, env.toLower email⟩⟩]) := by
  rw [Queries.getUserByEmailOrCreate] at hf
  split at hf
  · cases hus : Queries.usersWithEmail db (env.toLower email) with
    | nil =>
      rw [hus] at hf
      have habs := Requests.insertRow_absent _ _ _ _ _ _ _ hf
      obtain ⟨rfl, rfl⟩ := Ownership.insertRow_ok _ _ _ _ _ _ _ hf
      exact ⟨rfl, Or.inr ⟨habs, t.start, rfl⟩⟩
    | cons u' us =>
      rw [hus] at hf
      have hmem : u' ∈ Queries.usersWithEmail db (env.toLower email) := by simp [hus]
      obtain ⟨⟨k, v⟩, hm, hu⟩ := List.mem_filterMap.mp hmem
      split at hu
      · next he =>
        cases us with
        | nil =>
          cases hf
          cases hu
          exact ⟨he, Or.inl ⟨v, (db.mem_scan _ _ _).mp hm, he, rfl⟩⟩
        | cons => cases hf
      · cases hu
  · cases hf

theorem addUserToOrganization_ok (userID orgID : UUID) (t : Tick) (db : Db) (b : Unit)
    (ws : List Image) (hf : Queries.addUserToOrganization userID orgID t db = .ok (b, ws)) :
    Queries.isMember db userID orgID = true ∧ ws = [] ∨
      ws = [newMembership orgID userID t.start] := by
  rcases Creation.addUser_ok db userID orgID t b ws hf with h | ⟨-, h⟩
  · exact Or.inl h
  · exact Or.inr h

/-- A new project that waits in the transaction is the one that gets its pointer. -/
theorem updateLatest_pending (p r : UUID) (v : ProjectRow) (rv : DeploymentRevisionRow) (t : Tick)
    (db : Db) (b : Unit) (ws : List Image)
    (hf : Queries.updateLatestDeploymentRevision r p t
      (db.replay [⟨.project, p, some v⟩, ⟨.deploymentRevision, r, some rv⟩]) = .ok (b, ws)) :
    ws = [⟨.project, p, some { v with latestDeploymentRevisionID := some r }⟩] := by
  have hrow : (db.replay [⟨.project, p, some v⟩, ⟨.deploymentRevision, r, some rv⟩]).row
      .project p = some v := by
    change ((db.set .project p (some v)).set .deploymentRevision r (some rv)).row .project p = _
    rw [Store.set_table _ _ _ _ _ _ (by decide)]
    exact db.set_same .project p (some v)
  rw [Queries.updateLatestDeploymentRevision, hrow] at hf
  exact (Ownership.putRow_ok _ _ _ _ _ _ _ hf).2

section Follows
variable (h : List ApiDeed) (p r : UUID) (rv : DeploymentRevisionRow) (rest : List Image)
variable (hrest : ∀ w ∈ rest, Follows h p r w)
include hrest

/-- The revision waits as it was inserted. -/
theorem pending_revision (db : Db) :
    (db.replay (⟨.deploymentRevision, r, some rv⟩ :: rest)).row .deploymentRevision r =
      some rv := by
  refine ((db.set .deploymentRevision r (some rv)).replay_untouched rest _ _
    fun w hw htouch => ?_).trans (db.set_same _ _ _)
  rcases hrest w hw with ⟨v, d, e, -, rfl⟩ | ⟨e, t, rfl⟩ <;> cases htouch

/-- The project is one that was met, but for its pointers. -/
theorem pending_project (db : Db) (hsaw : Saw h (fun db' => db' = db)) (v : ProjectRow)
    (hv : (db.replay (⟨.deploymentRevision, r, some rv⟩ :: rest)).row .project p = some v) :
    ∃ v₀ d e, Saw h (fun db' => db'.row .project p = some v₀) ∧ v = { v₀ with
      latestDeploymentRevisionID := d
      latestDeploymentRevisionEventID := e } := by
  rcases db.replay_row _ .project p v hv with hv | hv
  · obtain ⟨d, hd, rfl⟩ := hsaw
    exact ⟨v, _, _, ⟨d, hd, hv⟩, rfl⟩
  · rcases List.mem_cons.mp hv with he | hv
    · cases he
    · rcases hrest _ hv with ⟨v₀, d, e, hv₀, he⟩ | ⟨e, t, he⟩
      · cases he
        exact ⟨v₀, d, e, hv₀, rfl⟩
      · cases he

theorem updateLatest_follows (db : Db) (hsaw : Saw h (fun db' => db' = db)) (t : Tick) (b : Unit)
    (ws : List Image) (hf : Queries.updateLatestDeploymentRevision r p t
      (db.replay (⟨.deploymentRevision, r, some rv⟩ :: rest)) = .ok (b, ws)) :
    ∀ w ∈ ws, Follows h p r w := by
  rw [Queries.updateLatestDeploymentRevision] at hf
  split at hf
  · cases hf
    simp
  · next v hv =>
    obtain ⟨v₀, d, e, hv₀, rfl⟩ := pending_project h p r rv rest hrest db hsaw v hv
    rw [(Ownership.putRow_ok _ _ _ _ _ _ _ hf).2]
    exact List.forall_mem_singleton.mpr (Or.inl ⟨v₀, some r, e, hv₀, rfl⟩)

theorem updateEvent_follows (hp : rv.projectID = p) (db : Db)
    (hsaw : Saw h (fun db' => db' = db)) (e : UUID) (t : Tick) (b : Unit) (ws : List Image)
    (hf : Queries.updateLatestDeploymentRevisionEvent e r t
      (db.replay (⟨.deploymentRevision, r, some rv⟩ :: rest)) = .ok (b, ws)) :
    ∀ w ∈ ws, Follows h p r w := by
  rw [Queries.updateLatestDeploymentRevisionEvent, pending_revision h p r rv rest hrest db] at hf
  subst hp
  dsimp only at hf
  split at hf
  · cases hf
    simp
  · next v hv =>
    obtain ⟨v₀, d, e', hv₀, rfl⟩ := pending_project h _ r rv rest hrest db hsaw v hv
    rw [(Ownership.putRow_ok _ _ _ _ _ _ _ hf).2]
    exact List.forall_mem_singleton.mpr (Or.inl ⟨v₀, d, some e, hv₀, rfl⟩)

end Follows

theorem follows_sub {h h' : List ApiDeed} (hsub : h ⊆ h') (p r : UUID) (rest : List Image)
    (hrest : ∀ w ∈ rest, Follows h p r w) : ∀ w ∈ rest, Follows h' p r w := by
  intro w hw
  rcases hrest w hw with ⟨v, d, e, hv, rfl⟩ | he
  · exact Or.inl ⟨v, d, e, saw_sub hsub hv, rfl⟩
  · exact Or.inr he

/-! ## Organizations -/

section Routes
variable {σ : Type} (me : σ) (env : Env) (user : UserAccount) (h : List ApiDeed) (s : Ses)
variable (hs : Spared h)
include hs

theorem postOrganization_fulfils (name : Option String) (hout : s.out = []) :
    Fulfils me env user (.postOrganization name) (postOrganizationHandler user name) h s := by
  have hspared : ∀ db, Untouched (.postOrganization name) (h++[⟨db, [], []⟩]) := fun db =>
    spared_untouched _ _ (waits_snoc (waits_refl h hs) ⟨db, [], []⟩ rfl).spared
  cases name with
  | none => exact fulfils_error me env user _ h s 400 _ (by decide) (spared_untouched _ h hs)
  | some n =>
    cases hvalid : validateName (trimSpace n) with
    | error text =>
      simp only [postOrganizationHandler, hvalid]
      exact acts_bind me _ h s _ _ _ (acts_bind me _ h s _ _ _
        (fulfils_error me env user _ h s 400 _ (by decide) (spared_untouched _ h hs)))
    | ok =>
      simp only [postOrganizationHandler, hvalid]
      refine conduct_pool backend me _ _ h s _ _ _ (fun e db => ?_) fun t db org ws hf => ?_
      · cases e with
        | violation v =>
          cases v <;> exact fulfils_error me env user _ _ s _ _ (by decide) (hspared db)
        | _ => exact fulfils_error me env user _ _ s _ _ (by decide) (hspared db)
      · obtain ⟨hnew, -, hid, rfl⟩ := Creation.createOrganization_ok _ _ _ _ _ hf
        have hcreated : (⟨db, [newOrganization n org.id t.start], []⟩ : ApiDeed) ∈
            h++[⟨db, [newOrganization n org.id t.start], []⟩] := by simp
        rw [← hid] at hnew ⊢
        refine ⟨fun _ => ⟨⟨hvalid, Or.inl ⟨org.id, t.start, hnew, rfl⟩⟩, Or.inl hs⟩, ?_⟩
        have hunt : ∀ db', Untouched (.postOrganization (some n))
            (h++[⟨db, [newOrganization n org.id t.start], []⟩]++[⟨db', [], []⟩]) := by
          intro db' d hd hne
          simp only [List.mem_append, List.mem_singleton] at hd
          rcases hd with (hd | rfl) | rfl
          · exact absurd (hs d hd) hne
          · exact ⟨org.id, t.start, rfl⟩
          · exact absurd rfl hne
        refine conduct_pool backend me _ _ _ s _ _ _
          (fun e db' => fulfils_error me env user _ _ s _ _ (by decide) (hunt db'))
          fun t' db' b ws hadd => ?_
        have hjoined : Joined (h++[⟨db, [newOrganization n org.id t.start], []⟩]++
            [⟨db', ws, []⟩]) org.id user.id := by
          refine ⟨⟨db', ws, []⟩, by simp, ?_⟩
          rcases Creation.addUser_ok _ _ _ _ _ ws hadd with ⟨hm, -⟩ | ⟨-, rfl⟩
          · exact Or.inl hm
          · exact Or.inr ⟨t'.start, List.mem_singleton.mpr rfl⟩
        constructor
        · intro hne
          rcases Creation.addUser_ok _ _ _ _ _ ws hadd with ⟨-, rfl⟩ | ⟨-, rfl⟩
          · exact absurd rfl hne
          · exact ⟨⟨hvalid, Or.inr ⟨org.id, t.start, t'.start, _, hcreated, hnew, rfl, rfl⟩⟩,
              Or.inr ⟨n, org.id, t.start, t'.start, user.id, h, _, [], rfl, rfl, hs,
                by simp [Spared], rfl, rfl⟩⟩
        · refine fulfils_success me env user _ _ s 200 _ (by decide) (by simp [hout, responses])
            fun db'' => ⟨org.id, t.start,
              ⟨_, List.mem_append_left _ (List.mem_append_left _ hcreated), rfl⟩, ?_⟩
          obtain ⟨d, hd, hj⟩ := hjoined
          exact ⟨d, List.mem_append_left _ hd, hj⟩

theorem putOrganization_fulfils (organizationID : Param UUID)
    (body : Option OrganizationSettingsRequest) (hout : s.out = []) :
    Fulfils me env user (.putOrganization organizationID body)
      (putOrganizationHandler env user organizationID body) h s := by
  refine acts_withOrganization me _ h s user _ organizationID _ hs
    (fun h' s' hw hd => verdict_declined env user _ h' s'.out hw.spared (hout ▸ hd))
    fun org h' ho hw hsaw => ?_
  subst ho
  have herror : ∀ status text, 400 ≤ status → Fulfils me env user
      (.putOrganization (.value org.id) body) (respond status (.text text)) h' s :=
    fun status text hst => fulfils_error me env user _ h' s status _ hst
      (spared_untouched _ h' hw.spared)
  cases body with
  | none => exact herror 400 _ (by decide)
  | some request =>
    cases hr : requestedSettings org request with
    | error e =>
      simp only [hr]
      exact herror 400 _ (by decide)
    | ok org' =>
      simp only [hr]
      have hid := (Requests.requestedSettings_org org org' request hr).1
      have hrest : ∀ (saved : Organization) h'',
          Done env user (.putOrganization (.value org.id) (some request)) h'' [] →
          Fulfils me env user (.putOrganization (.value org.id) (some request))
            (show Api Unit from do
              let _ ← applyGateway env .pool saved
              respondJSON (.organization saved)) h'' s := by
        intro saved h'' hdone
        refine acts_bind me _ h'' s _ _ _ (acts_applyGateway me _ h'' s _ env saved
          fun r q s' hq hout' => ?_)
        refine fulfils_success me env user _ _ s' 200 _ (by decide)
          (by simp [hout', hout, responses]) fun db => ?_
        rcases hdone with hnone | ⟨d, hd, hmade⟩
        · exact Or.inl hnone
        · exact Or.inr ⟨d, by simp [hd], hmade⟩
      by_cases hneed : (request.customDomain.isSome || request.authorization.isSome) = true
      · rw [if_pos hneed]
        refine conduct_pool backend me _ _ h' s _ _ _ (fun e db => ?_) fun t db saved ws hf => ?_
        · exact fulfils_error me env user _ _ s 500 _ (by decide)
            (spared_untouched _ _ (waits_snoc (waits_refl h' hw.spared) ⟨db, [], []⟩ rfl).spared)
        · obtain ⟨v, hv, rfl⟩ := updateOrganization_ok org' saved t db ws hf
          rw [hid] at hv ⊢
          refine ⟨fun _ => ⟨⟨org, org', v, rfl, hsaw, hr, hv, rfl⟩, Or.inl hw.spared⟩, ?_⟩
          exact hrest saved _
            (Or.inr ⟨_, List.mem_append_right _ (List.mem_singleton.mpr rfl), _, rfl⟩)
      · rw [if_neg hneed]
        refine hrest org' h' (Or.inl ?_)
        simpa using hneed

theorem putOrganizationMember_fulfils (organizationID : Param UUID) (email : Option String)
    (hout : s.out = []) : Fulfils me env user (.putOrganizationMember organizationID email)
      (putOrganizationMember env user organizationID email) h s := by
  refine acts_withOrganization me _ h s user _ organizationID _ hs
    (fun h' s' hw hd => verdict_declined env user _ h' s'.out hw.spared (hout ▸ hd))
    fun org h' ho hw hsaw => ?_
  subst ho
  cases email with
  | none =>
    exact fulfils_error me env user _ h' s 400 _ (by decide) (spared_untouched _ h' hw.spared)
  | some email =>
    have herror : ∀ h'' s'', Waits h' h'' → Fulfils me env user
        (.putOrganizationMember (.value org.id) (some email)) internalServerError h'' s'' :=
      fun h'' s'' hw' => fulfils_error me env user _ h'' s'' 500 _ (by decide)
        (spared_untouched _ _ hw'.spared)
    refine acts_bind me _ h' s _ _ _ (acts_runTx me _ h' s _ _ hw.spared
      (fun h'' hw' => herror h'' s hw') fun h₁ s₁ hw₁ hout₁ hp₁ => ?_)
    refine acts_bind me _ h₁ s₁ _ _ _ (acts_bind me _ h₁ s₁ _ _ _ (acts_tx me _ h₁ s₁ _ _ 1 _ []
      hp₁ hw₁.spared (fun e h₂ s₂ _ hw₂ _ => ?_) fun t db u ws s₂ hf hw₂ hout₂ hp₂ => ?_))
    · exact fulfils_undone me env user _ h₂ s₂ _ (fun _ => rfl) _ hw₂.spared
    · obtain ⟨hemail, hws⟩ := getUserByEmailOrCreate_ok env _ t _ u ws hf
      have hw₂' := waits_trans hw₁ hw₂
      refine acts_bind me _ _ s₂ _ _ _ (acts_tx me _ _ s₂ _ _ 1 _ ([]++ws) hp₂ hw₂.spared
        (fun e h₃ s₃ hab hw₃ _ => ?_) fun t' db' b ws' s₃ hadd hw₃ hout₃ hp₃ => ?_)
      · cases e with
        | alreadyExists =>
          exact fulfils_aborted me env user _ h₃ s₃ _ (fun _ => rfl) u hw₃.spared hab
        | _ => exact fulfils_undone me env user _ h₃ s₃ _ (fun _ => rfl) _ hw₃.spared
      · have hw₃' := waits_trans hw₂' hw₃
        have hmember : Queries.isMember db' u.id org.id = true ∧ ws' = [] ∨
            ws' = [newMembership org.id u.id t'.start] := by
          refine (addUserToOrganization_ok _ _ t' _ b ws' hadd).imp_left (And.imp_left fun hm => ?_)
          rwa [Queries.isMember, Store.replay_untouched] at hm
          intro w hw htouch
          rcases hws with ⟨-, -, -, rfl⟩ | ⟨-, t, rfl⟩
          · cases hw
          · cases List.mem_singleton.mp hw
            cases htouch
        refine fulfils_commit me env user _ _ s₃ _ (fun _ => rfl) u _ hw₃.spared hp₃
          fun db'' => ⟨fun _ => ?_, ?_⟩
        · refine ⟨org, ws, ws', u.id, rfl, saw_sub hw₃'.sub hsaw, rfl, ?_, ?_⟩
          · refine hws.imp (fun ⟨v, hv, hemail, hnone⟩ => ⟨hnone, ?_⟩) And.right
            exact saw_sub hw₃.sub (saw_last _ _ _ ⟨v, hv, hemail⟩)
          · exact hmember.imp And.right (fun h => ⟨_, h⟩)
        · intro s₄ hout₄
          refine conduct_emit backend me _ _ _ s₄ _ _ fun db₅ => ?_
          have hout : s₄.out = [] := by rw [hout₄, hout₃, hout₂, hout₁, hout]
          refine fulfils_success me env user _ _ _ 200 _ (by decide)
            (by simp [hout, responses]) fun db₆ => ?_
          refine ⟨u, org, rfl, hemail, by simp, ?_⟩
          rcases hmember with ⟨hm, -⟩ | rfl
          · exact ⟨⟨db', [], []⟩, by simp, Or.inl hm⟩
          · exact ⟨⟨db'', []++ws++[newMembership org.id u.id t'.start], []⟩, by simp,
              Or.inr ⟨t'.start, by simp⟩⟩

theorem deleteOrganizationMember_fulfils (organizationID userID : Param UUID) (hout : s.out = []) :
    Fulfils me env user (.deleteOrganizationMember organizationID userID)
      (deleteOrganizationMember user organizationID userID) h s := by
  refine acts_withOrganization me _ h s user _ organizationID _ hs
    (fun h' s' hw hd => verdict_declined env user _ h' s'.out hw.spared (hout ▸ hd))
    fun org h' ho hw hsaw => ?_
  subst ho
  have hsilent : ∀ h'' (s' : Ses), Waits h' h'' → Declined [] s'.out → Verdict env user
      (.deleteOrganizationMember (.value org.id) userID) h'' s'.out := fun h'' s' hw' hd =>
    verdict_declined env user _ h'' s'.out hw'.spared hd
  cases userID with
  | absent => exact hsilent h' s (waits_refl h' hw.spared) (Or.inl hout)
  | invalid =>
    refine acts_bind me _ h' s _ _ _ (acts_bind me _ h' s _ _ _
      (acts_respond me _ h' s _ 400 _ fun db => ?_))
    exact hsilent _ _ (waits_snoc (waits_refl h' hw.spared) _ rfl)
      (Or.inr ⟨400, .text "invalid userId", by decide, by simp [hout]⟩)
  | value u =>
    change Fulfils me env user _ (if u = 0 then pure () else _) h' s
    split
    · exact hsilent h' s (waits_refl h' hw.spared) (Or.inl hout)
    · split
      · exact fulfils_error me env user _ h' s 400 _ (by decide)
          (spared_untouched _ h' hw.spared)
      · next hself =>
        refine conduct_pool backend me _ _ h' s _ _ _ (fun e db => ?_) fun t db b ws hf => ?_
        · exact fulfils_error me env user _ _ s 500 _ (by decide)
            (spared_untouched _ _ (waits_snoc (waits_refl h' hw.spared) ⟨db, [], []⟩ rfl).spared)
        · have hremoved : (Queries.isMember db u org.id = false ∧ ws = []) ∨
              ws = [⟨.organizationUserAccount, (org.id, u), none⟩] := by
            rw [Queries.removeUserFromOrganization] at hf
            split at hf
            · cases hf
              exact Or.inr rfl
            · next hm =>
              cases hf
              exact Or.inl ⟨by simpa using hm, rfl⟩
          constructor
          · intro hne
            rcases hremoved with ⟨-, rfl⟩ | rfl
            · exact absurd rfl hne
            · exact ⟨⟨org, rfl, hsaw, fun he => hself he.symm, rfl⟩, Or.inl hw.spared⟩
          · refine fulfils_success me env user _ _ s 202 _ (by decide) (by simp [hout, responses])
              fun db' => ⟨⟨db, ws, []⟩, by simp, ?_⟩
            exact hremoved.imp_left And.left

/-! ## Projects -/

theorem postProject_fulfils (body : Option ProjectRequest) (hout : s.out = []) :
    Fulfils me env user (.postProject body) (postProjectHandler env user body) h s := by
  cases body with
  | none => exact fulfils_error me env user _ h s 400 _ (by decide) (spared_untouched _ h hs)
  | some req =>
    have herror : ∀ h' s' status text, 400 ≤ status → Waits h h' → Fulfils me env user
        (.postProject (some req)) (respond status (.text text)) h' s' :=
      fun h' s' status text hst hw => fulfils_error me env user _ h' s' status _ hst
        (spared_untouched _ _ hw.spared)
    cases hvalid : validateName req.name with
    | error text =>
      simp only [postProjectHandler, hvalid]
      exact acts_bind me _ h s _ _ _ (acts_bind me _ h s _ _ _
        (herror h s 400 _ (by decide) (waits_refl h hs)))
    | ok =>
      simp only [postProjectHandler, hvalid]
      refine acts_bind me _ h s _ _ _ (acts_bind me _ h s _ _ _ (acts_select me _ h s _ _ _ hs
        (fun e h' hw => herror h' s 500 _ (by decide) hw) fun db b hr => ?_))
      have hw : Waits h (h++[⟨db, [], []⟩]) := waits_snoc (waits_refl h hs) _ rfl
      obtain ⟨member, org⟩ := b
      cases member with
      | false => exact herror _ s 400 _ (by decide) hw
      | true =>
        have hsaw : Saw (h++[⟨db, [], []⟩])
            (fun db => Queries.isMember db user.id req.organizationID = true) :=
          saw_last _ _ _ (Queries.partOfOrg_true db user.id _ org hr).2.1
        refine acts_bind me _ _ s _ _ _ (acts_runTx me _ _ s _ _ hw.spared
          (fun h' hw' => herror h' s 500 _ (by decide) (waits_trans hw hw'))
          fun h₁ s₁ hw₁ hout₁ hp₁ => ?_)
        -- the commit of the new project, with its revision or without one
        have hcommit : ∀ (K : Except DbError Project → Api Unit),
            (∀ e, K (.error e) = internalServerError) →
            (∀ project, K (.ok project) = if req.proxyURL.isSome then
              (applyGateway env .pool org).bind (fun _ => respondJSON (.project project))
              else respondJSON (.project project)) →
            ∀ (project : Project) ws h₂ s₂, Waits (h++[⟨db, [], []⟩]) h₂ →
            s₂.out = s.out → Pends s₂ ws → NewProject user req project.id ws →
            Finishes me (Allowed env user (.postProject (some req))) (fun r h s =>
              Fulfils me env user (.postProject (some req)) (K r) h s) 1 (.ok project) h₂ s₂ := by
          intro K hK hok project ws h₂ s₂ hw₂ hout₂ hp₂ hnew
          refine fulfils_commit me env user _ h₂ s₂ K hK project ws hw₂.spared hp₂
            fun db' => ⟨fun _ => ⟨hvalid, saw_sub hw₂.sub hsaw, project.id, hnew⟩, ?_⟩
          intro s₃ hout₃
          have hdone : ∀ q out, Done env user (.postProject (some req))
              (h₂++[⟨db', ws, []⟩]++q) out := fun q out => ⟨⟨db', ws, []⟩, by simp, _, hnew⟩
          have hout₃' : s₃.out = [] := by rw [hout₃, hout₂, hout]
          rw [hok]
          split
          · refine acts_bind me _ _ s₃ _ _ _ (acts_applyGateway me _ _ s₃ _ env org
              fun r q s₄ hq hout₄ => ?_)
            refine fulfils_success me env user _ _ s₄ 200 _ (by decide)
              (by simp [hout₄, hout₃', responses]) fun db'' => ?_
            rw [List.append_assoc (h₂++[_])]
            exact hdone _ _
          · exact fulfils_success me env user _ _ s₃ 200 _ (by decide)
              (by simp [hout₃', responses]) fun db'' => hdone _ _
        refine acts_bind me _ h₁ s₁ _ _ _ (acts_tx me _ h₁ s₁ _ _ 1 _ [] hp₁ hw₁.spared
          (fun e h₂ s₂ _ hw₂ _ => fulfils_undone me env user _ h₂ s₂ _ (fun _ => rfl) e hw₂.spared)
          fun t db' project ws s₂ hf hw₂ hout₂ hp₂ => ?_)
        obtain ⟨rfl, rfl⟩ := Ownership.insertRow_ok _ _ _ _ _ _ _ hf
        have hw₂' := waits_trans hw₁ hw₂
        have hout₂' := hout₂.trans hout₁
        cases hu : req.proxyURL with
        | none =>
          rw [hu] at hcommit
          exact hcommit _ (fun _ => rfl) (fun _ => rfl) { projectOf user req t.start with
            id := t.fresh } _ _ s₂ hw₂' hout₂' hp₂ ⟨t.start, Or.inl ⟨hu, rfl⟩⟩
        | some u =>
          rw [hu] at hcommit
          refine acts_bind me _ _ s₂ _ _ _ (acts_createDeploymentRevision me _ _ s₂ _ _ 0 _ hp₂
            hw₂.spared (fun e h₃ s₃ hw₃ _ =>
              fulfils_undone me env user _ h₃ s₃ _ (fun _ => rfl) e hw₃.spared)
            fun t₁ db₁ res ws₁ t₂ db₂ ws₂ h₃ s₃ hins hupd hw₃ _ hout₃ hp₃ => ?_)
          obtain ⟨hid, hproject, -⟩ := Ownership.insertDeploymentRevision_ok _ _ _ _ _ hins
          obtain ⟨-, rfl⟩ := Ownership.insertDeploymentRevision_row _ _ _ _ _ hins
          rw [hid, hproject] at hupd
          obtain rfl := updateLatest_pending _ _ _ _ _ _ _ _ hupd
          exact hcommit _ (fun _ => rfl) (fun _ => rfl) { projectOf user req t.start with
            id := t.fresh } _ _ s₃ (waits_trans hw₂' hw₃) (hout₃.trans hout₂') hp₃
            ⟨t.start, Or.inr ⟨u, t₁.fresh, _, hu, rfl⟩⟩

theorem deleteProject_fulfils (projectID : Param UUID) (hout : s.out = []) :
    Fulfils me env user (.deleteProject projectID) (deleteProjectHandler env user projectID)
      h s := by
  refine acts_withProject me _ h s user _ projectID _ hs
    (fun h' s' hw hd => verdict_declined env user _ h' s'.out hw.spared (hout ▸ hd))
    fun id h' hid hw hsaw => ?_
  subst hid
  have herror : ∀ h'' status text, 400 ≤ status → Waits h' h'' → Fulfils me env user
      (.deleteProject (.value id)) (respond status (.text text)) h'' s :=
    fun h'' status text hst hw' => fulfils_error me env user _ h'' s status _ hst
      (spared_untouched _ _ hw'.spared)
  refine acts_bind me _ h' s _ _ _ (acts_select me _ h' s _ _ _ hw.spared
    (fun e h'' hw' => ?_) fun db ps hr => ?_)
  · cases e <;> exact herror h'' _ _ (by decide) hw'
  · have hw₁ : Waits h' (h'++[⟨db, [], []⟩]) := waits_snoc (waits_refl h' hw.spared) _ rfl
    refine conduct_pool backend me _ _ _ s _ _ _ (fun e db' => ?_) fun t db' n ws hf => ?_
    · exact herror _ 500 _ (by decide) (waits_snoc hw₁ _ rfl)
    · rw [Queries.deleteProject] at hf
      split at hf
      · cases hf
        exact ⟨fun hne => absurd rfl hne, herror _ 500 _ (by decide) (waits_snoc hw₁ _ rfl)⟩
      · next v hv =>
        split at hf
        · cases hf
        · next hdel =>
          cases hf
          refine ⟨fun _ => ⟨⟨saw_sub hw₁.sub hsaw, hdel⟩, Or.inl hw₁.spared⟩, ?_⟩
          refine acts_bind me _ _ s _ _ _ (acts_bind me _ _ s _ _ _ (acts_bind me _ _ s _ _ _
            (acts_applyGateway me _ _ s _ env ps.organization fun r q s' hq hout' => ?_)))
          refine fulfils_success me env user _ _ s' 204 _ (by decide)
            (by simp [hout', hout, responses]) fun db'' => ?_
          exact ⟨⟨db', ws, []⟩, by simp, by simp [hv], hdel⟩

/-! ## Settings -/

/-- Once the rows are pending, the gateway is applied and the answer sent before
the commit. -/
theorem settings_answered (p r : UUID) (t : Time) (req : SettingsRequest) (ps : ProjectSummary)
    (rest : List Image) (hcheck : checkSettings env req = .ok ())
    (hsaw : Saw h (fun db => Requests.Accessible db user.id p))
    (hmet : Saw h (fun db => (db.row .project p).bind (Queries.summary db p) = some ps))
    (hrest : ∀ w ∈ rest, Follows h p r w) (hout : s.out = [])
    (hp : Pends s (⟨.deploymentRevision, r, some (Ownership.rowOf
      (mergeSettings user req p ps.latestDeploymentRevision) t)⟩ :: rest))
    (K : Except DbError Unit → Api Unit) (hK : ∀ e, K (.error e) = internalServerError)
    (hok : K (.ok ()) = .ret ()) (body : Body) :
    Acts me (Allowed env user (.putProjectSettings (.value p) (some req)))
      (Finishes me (Allowed env user (.putProjectSettings (.value p) (some req)))
        (fun r h s => Fulfils me env user (.putProjectSettings (.value p) (some req)) (K r) h s) 1)
      ((applyGateway env (.tx 1) ps.organization).bind (fun _ =>
        (respondJSON body).bind (fun _ => .ret (.ok ())))) h s := by
  refine acts_bind me _ h s _ _ _ (acts_applyGateway_tx me _ h s _ _ 1 env _ hp hs
    (fun e h' s' hab hw _ => ?_) fun r' h' s' hw hout' hp' => ?_)
  · refine acts_bind me _ h' s' _ _ _ (acts_respond me _ h' s' _ 200 _ fun db => ?_)
    exact fulfils_aborted me env user _ _ _ K hK () (waits_snoc hw _ rfl).spared hab
  · refine acts_bind me _ h' s' _ _ _ (acts_respond me _ h' s' _ 200 body fun db => ?_)
    have hw' := waits_snoc hw ⟨db, [], [.response 200 body]⟩ rfl
    have hsaved : ∀ h'', h ⊆ h'' → Saved user req p h'' _ := fun h'' hsub =>
      ⟨r, t, ps, rest, saw_sub hsub hmet, rfl, follows_sub hsub p r rest hrest⟩
    refine fulfils_commit me env user _ _ _ K hK () _ hw'.spared ⟨hp'.opened, hp'.pending⟩
      fun db' => ⟨fun _ => ⟨hcheck, saw_sub hw'.sub hsaw, hsaved _ hw'.sub⟩, fun s'' hout'' => ?_⟩
    rw [hok]
    have hone : responses s''.out = [200] := by rw [hout'', hout', hout]; rfl
    refine ⟨fun status hst hle => ?_, fun _ _ => ?_⟩
    · rw [hone, List.mem_singleton] at hst
      omega
    · refine ⟨⟨db', _, []⟩, List.mem_append_right _ (List.mem_singleton.mpr rfl), ?_⟩
      exact hsaved _ (List.subset_append_of_subset_left _ hw'.sub)

theorem putProjectSettings_fulfils (projectID : Param UUID) (body : Option SettingsRequest)
    (hout : s.out = []) : Fulfils me env user (.putProjectSettings projectID body)
      (putProjectSettings env user projectID body) h s := by
  cases body with
  | none => exact fulfils_error me env user _ h s 400 _ (by decide) (spared_untouched _ h hs)
  | some req =>
    cases hcheck : checkSettings env req with
    | error text =>
      simp only [putProjectSettings, hcheck]
      exact acts_bind me _ h s _ _ _ (acts_bind me _ h s _ _ _
        (fulfils_error me env user _ h s 400 _ (by decide) (spared_untouched _ h hs)))
    | ok =>
      simp only [putProjectSettings, hcheck]
      refine acts_bind me _ h s _ _ _ (acts_withProject me _ h s user _ projectID _ hs
        (fun h' s' hw hd => verdict_declined env user _ h' s'.out hw.spared (hout ▸ hd))
        fun id h' hid hw hsaw => ?_)
      subst hid
      have herror : ∀ h'' (s'' : Ses), Waits h' h'' → Fulfils me env user
          (.putProjectSettings (.value id) (some req)) internalServerError h'' s'' :=
        fun h'' s'' hw' => fulfils_error me env user _ h'' s'' 500 _ (by decide)
          (spared_untouched _ _ hw'.spared)
      refine acts_bind me _ h' s _ _ _ (acts_runTx me _ h' s _ _ hw.spared
        (fun h'' hw' => herror h'' s hw') fun h₁ s₁ hw₁ hout₁ hp₁ => ?_)
      refine acts_bind me _ h₁ s₁ _ _ _ (acts_tx me _ h₁ s₁ _ _ 1 _ [] hp₁ hw₁.spared
        (fun e h₂ s₂ _ hw₂ _ => fulfils_undone me env user _ h₂ s₂ _ (fun _ => rfl) e hw₂.spared)
        fun t db ps ws s₂ hf hw₂ hout₂ hp₂ => ?_)
      obtain ⟨rfl, hps⟩ : ws = [] ∧
          (db.row .project id).bind (Queries.summary db id) = some ps := by
        cases hrow : (db.row .project id).bind (Queries.summary db id) with
        | none =>
          rw [Queries.getProjectSummary, Queries.select, Store.replay, List.foldl_nil, hrow] at hf
          cases hf
        | some ps' =>
          rw [Queries.getProjectSummary, Queries.select, Store.replay, List.foldl_nil, hrow] at hf
          cases hf
          exact ⟨rfl, rfl⟩
      have hw₂' := waits_trans hw₁ hw₂
      have hout₂' : s₂.out = [] := by rw [hout₂, hout₁, hout]
      change Acts me _ _ (if (mergeSettings user req id ps.latestDeploymentRevision).ociURL = none ∧
        (mergeSettings user req id ps.latestDeploymentRevision).proxyURL = none then _ else _) _ s₂
      split
      · refine acts_bind me _ _ s₂ _ _ _ (acts_respond me _ _ s₂ _ 400 _ fun db' => ?_)
        have hw₃ := waits_snoc hw₂ ⟨db', [], [.response 400
          (.text "One of Proxy URL and OCI URL is required")]⟩ rfl
        refine fulfils_commit me env user _ _ _ _ (fun _ => rfl) () _ hw₃.spared
          ⟨hp₂.opened, hp₂.pending⟩ fun db'' => ⟨fun hne => absurd rfl hne, fun s₄ hout₄ => ?_⟩
        refine verdict_declined env user _ _ _ (waits_snoc hw₃ _ rfl).spared
          (Or.inr ⟨400, .text "One of Proxy URL and OCI URL is required", by decide, ?_⟩)
        rw [hout₄, hout₂']
      · refine acts_bind me _ _ s₂ _ _ _ (acts_createDeploymentRevision me _ _ s₂ _ _ 0 _ hp₂
          hw₂.spared (fun e h₃ s₃ hw₃ _ =>
            fulfils_undone me env user _ h₃ s₃ _ (fun _ => rfl) e hw₃.spared)
          fun t₁ db₁ res ws₁ t₂ db₂ ws₂ h₃ s₃ hins hupd hw₃ hsaw₂ hout₃ hp₃ => ?_)
        obtain ⟨hid, hproject, -⟩ := Ownership.insertDeploymentRevision_ok _ _ _ _ _ hins
        obtain ⟨-, rfl⟩ := Ownership.insertDeploymentRevision_row _ _ _ _ _ hins
        rw [hid, hproject] at hupd
        have hw₃' := waits_trans hw₂' hw₃
        have hmet : ∀ h₄, Waits h₃ h₄ → Saw h₄ (fun db =>
            (db.row .project id).bind (Queries.summary db id) = some ps) := fun h₄ hw₄ =>
          saw_sub (List.Subset.trans hw₃.sub hw₄.sub) (saw_last _ _ _ hps)
        have hfollow := updateLatest_follows h₃ id t₁.fresh _ [] (by simp) db₂ hsaw₂ t₂ () ws₂ hupd
        refine acts_bind me _ h₃ s₃ _ _ _ ?_
        split
        · rw [hid]
          refine acts_addDeploymentRevisionEvent me _ h₃ s₃ _ _ 1 _ _ _ hp₃ hw₃.spared
            (fun e h₄ s₄ hw₄ _ => fulfils_undone me env user _ h₄ s₄ _ (fun _ => rfl) e hw₄.spared)
            fun t₃ db₃ e ws₃ t₄ db₄ ws₄ h₄ s₄ hins' hupd' hw₄ hsaw₄ hout₄ hp₄ => ?_
          obtain ⟨rfl, rfl⟩ := Ownership.insertRow_ok _ _ _ _ _ _ _ hins'
          have hevent : ∀ w ∈ ws₂++[(⟨.deploymentRevisionEvent, t₃.fresh,
              some ⟨t₃.now, t₁.fresh, .progressing⟩⟩ : Image)], Follows h₄ id t₁.fresh w :=
            List.forall_mem_append.mpr ⟨follows_sub hw₄.sub id _ ws₂ hfollow,
              List.forall_mem_singleton.mpr (Or.inr ⟨_, _, rfl⟩)⟩
          have hpointer := updateEvent_follows h₄ id t₁.fresh _ _ hevent rfl db₄ hsaw₄ t₃.fresh t₄
            () ws₄ hupd'
          exact settings_answered me env user h₄ s₄ hw₄.spared id t₁.fresh t₁.start req ps _ hcheck
            (saw_sub (List.Subset.trans hw₃'.sub hw₄.sub) hsaw) (hmet h₄ hw₄)
            (List.forall_mem_append.mpr ⟨hevent, hpointer⟩) (by rw [hout₄, hout₃, hout₂']) hp₄ _
            (fun _ => rfl) rfl _
        · exact settings_answered me env user h₃ s₃ hw₃.spared id t₁.fresh t₁.start req ps ws₂
            hcheck (saw_sub hw₃'.sub hsaw) (hmet h₃ (waits_refl h₃ hw₃.spared)) hfollow
            (by rw [hout₃, hout₂']) hp₃ _ (fun _ => rfl) rfl _

/-! ## Reading requests -/

/-- A route that writes no table has nothing to do. -/
theorem reading_fulfils (rt : Analytics.Runtime) (route : Route) (hl : s.levels = [])
    (hr : ApiRuns.tablesOf route = [])
    (hdone : ∀ h out, Spared h → Done env user route h out) :
    Fulfils me env user route (handle rt env user route) h s := by
  refine conduct_mono backend me _ _ _ (fun _ h' s' hs' => ⟨fun _ _ _ => spared_untouched _ _ hs',
    fun _ _ => hdone h' s'.out hs'⟩) _ _ _ (built_spared me _ env _
      (ApiRuns.handle_built rt env _ user route (by simp [hr])) h s hl hs)

end Routes

/-- What every route commits and answers. -/
theorem handle_fulfils {σ : Type} (me : σ) (rt : Analytics.Runtime) (env : Env)
    (user : UserAccount) (route : Route) (h : List ApiDeed) (s : Ses) (hs : Spared h)
    (hl : s.levels = []) (hout : s.out = []) :
    Fulfils me env user route (handle rt env user route) h s := by
  cases route with
  | postOrganization name => exact postOrganization_fulfils me env user h s hs name hout
  | putOrganization organizationID body =>
    exact putOrganization_fulfils me env user h s hs organizationID body hout
  | putOrganizationMember organizationID email =>
    exact putOrganizationMember_fulfils me env user h s hs organizationID email hout
  | deleteOrganizationMember organizationID userID =>
    exact deleteOrganizationMember_fulfils me env user h s hs organizationID userID hout
  | postProject body => exact postProject_fulfils me env user h s hs body hout
  | deleteProject projectID => exact deleteProject_fulfils me env user h s hs projectID hout
  | putProjectSettings projectID body =>
    exact putProjectSettings_fulfils me env user h s hs projectID body hout
  | _ => exact reading_fulfils me env user h s hs rt _ hl rfl fun _ _ hs => hs

/-! ## Requests -/

def NewAccount (env : Env) (email : String) (d : ApiDeed) : Prop :=
  ∃ u t, d.met.row .userAccount u = none ∧
    d.made = [⟨.userAccount, u, some ⟨t, env.toLower email⟩⟩]

def Identified (env : Env) (email : String) (user : UserAccount) (h : List ApiDeed) : Prop :=
  ∃ d ∈ h, (∃ v, d.met.row .userAccount user.id = some v ∧ v.email = env.toLower email) ∨
    ∃ t, d.made = [⟨.userAccount, user.id, some ⟨t, env.toLower email⟩⟩]

/-- What a request with a token of the address may commit: its account first, and then
what its route allows after the deeds of its handler. -/
def Permitted (env : Env) (email : String) (route : Route) (h : List ApiDeed) (d : ApiDeed) :
    Prop :=
  Spared h ∧ NewAccount env email d ∨ ∃ user d₀ rest, h = d₀::rest ∧
    (d₀.made ≠ [] → NewAccount env email d₀) ∧ Identified env email user [d₀] ∧
    Allowed env user route rest d

/-- The deeds of an ended request: those of the authentication, which create the
account at most, and those of its handler, whose answer is true. -/
structure Honest (env : Env) (email : String) (route : Route) (h : List ApiDeed)
    (out : List Output) : Prop where
  split : ∃ auth rest, h = auth++rest ∧ (∀ d ∈ auth, d.made ≠ [] → NewAccount env email d) ∧
    (∀ status ∈ responses out, 400 ≤ status → Untouched route rest) ∧
    (responses out ≠ [] → (∀ status ∈ responses out, status < 400) →
      ∃ user, Identified env email user auth ∧ Done env user route rest out)

/-- A request that ends with its authentication. -/
theorem honest_refused (env : Env) (email : String) (route : Route) (h : List ApiDeed)
    (out : List Output) (hs : Spared h) (status : ℕ) (hstatus : 400 ≤ status)
    (hout : status ∈ responses out) : Honest env email route h out := by
  refine ⟨h, [], (List.append_nil h).symm, fun d hd hne => absurd (hs d hd) hne,
    fun _ _ _ d hd => absurd hd List.not_mem_nil, fun _ hall => ?_⟩
  have := hall status hout
  omega

/-- The account that the authentication returns was met, or created for the address. -/
theorem user_identified (env : Env) (email : String) (t : Tick) (db : Db) (user : UserAccount)
    (ws : List Image) (hf : Queries.getUserByEmailOrCreate env email t db = .ok (user, ws)) :
    Identified env email user [⟨db, ws, []⟩] ∧ (ws ≠ [] → NewAccount env email ⟨db, ws, []⟩) := by
  obtain ⟨-, ⟨v, hv, hemail, rfl⟩ | ⟨habs, t', rfl⟩⟩ :=
    getUserByEmailOrCreate_ok env email t db user ws hf
  · exact ⟨⟨_, List.mem_singleton.mpr rfl, Or.inl ⟨v, hv, hemail⟩⟩, fun hne => absurd rfl hne⟩
  · exact ⟨⟨_, List.mem_singleton.mpr rfl, Or.inr ⟨t', rfl⟩⟩, fun _ => ⟨user.id, t', habs, rfl⟩⟩

theorem identified_sub {env : Env} {email : String} {user : UserAccount} {h h' : List ApiDeed}
    (hsub : h ⊆ h') (hi : Identified env email user h) : Identified env email user h' := by
  obtain ⟨d, hd, hrest⟩ := hi
  exact ⟨d, hsub hd, hrest⟩

theorem serve_honest {σ : Type} (me : σ) (rt : Analytics.Runtime) (env : Env) (email : String)
    (route : Route) (s : Ses) (hl : s.levels = []) (hout : s.out = []) :
    Acts me (Permitted env email route) (fun _ h s => Honest env email route h s.out)
      (serve rt env (some email) route) [] s := by
  have hrefused : ∀ status text db, 400 ≤ status → Acts me (Permitted env email route)
      (fun _ h s => Honest env email route h s.out) (respond status (.text text))
      [⟨db, [], []⟩] s := fun status text db hst => acts_respond me _ _ s _ _ _ fun db' =>
    honest_refused env email route _ _ (by simp [Spared]) status hst (by simp [responses_snoc])
  refine acts_bind me _ _ s _ _ _ (acts_bind me _ _ s _ _ _ (acts_query me _ _ s _ _ _
    (fun e db => ?_) fun t db user ws hf => ?_))
  · cases e with
    | notFound => exact hrefused 401 _ db (by decide)
    | _ => exact hrefused _ _ db (by decide)
  · obtain ⟨hid, hnew⟩ := user_identified env email t db user ws hf
    refine ⟨fun hne => Or.inl ⟨by simp [Spared], hnew hne⟩, ?_⟩
    change Acts me _ _ (handle rt env user route) _ s
    refine conduct_shift backend me _ _ _ _ [⟨db, ws, []⟩] (fun h d hd => ?_) (fun _ h' s' hv => ?_)
      _ [] s (handle_fulfils me rt env user route [] s (by simp [Spared]) hl hout)
    · exact Or.inr ⟨user, _, h, rfl, hnew, hid, hd⟩
    · exact ⟨_, h', rfl, by simpa using hnew, hv.refused, fun hne hall =>
        ⟨user, hid, hv.granted hne hall⟩⟩

end Jetski.Answers
