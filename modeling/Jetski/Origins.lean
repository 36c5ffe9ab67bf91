import Jetski.Mediation

/-!
# Origins

Every stored value was sent by some client: along every run each row, and each field
that a later request may change, is one that a request or a call asked for and that
passed the checks of its route. No client writes contexts or their properties.
-/

set_option autoImplicit false

namespace Jetski.Origins

open Relational Schema Jetski.Types Database Handlers Routes Reachability Conduct Answers Mediation
open Validation (trimSpace validateName validateDomainName)

section Origins
variable {σ : Type} (env : Env) (calls : σ → Call)

def Sent (route : Route) : Prop := ∃ i token, calls i = .request (some token) route

/-- The address of a token, or one that was to be added as a member. -/
def Addresses (email : String) : Prop :=
  (∃ i token route, calls i = .request (some token) route ∧ email = env.toLower token) ∨
  ∃ o member, Sent calls (.putOrganizationMember (.value o) (some member)) ∧
    email = env.toLower (trimSpace member)

/-- The settings that requests of the organization have asked for. -/
structure Settled (o : UUID) (s : OrganizationSettings) : Prop where
  customDomain : ∀ domain, s.customDomain = some domain → validateDomainName domain = .ok () ∧
    ∃ request, Sent calls (.putOrganization (.value o) (some request)) ∧
      request.customDomain = some domain
  authorization : s.authorization = ⟨true⟩ ∨
    ∃ request, Sent calls (.putOrganization (.value o) (some request)) ∧
      request.authorization = some s.authorization

def Configures (p : UUID) (req : SettingsRequest) : Prop :=
  Sent calls (.putProjectSettings (.value p) (some req)) ∧ checkSettings env req = .ok ()

def Opens (req : ProjectRequest) (url : String) : Prop :=
  Sent calls (.postProject (some req)) ∧ req.proxyURL = some url

/-- The fields of a revision, each from a request for its project or from one that
creates a project. -/
structure Configured (v : DeploymentRevisionRow) : Prop where
  flags : (∃ req url, Opens calls req url ∧ v.authenticated = req.authenticated.getD true ∧
      v.telemetry = req.telemetry.getD false) ∨
    ∃ req, Configures env calls v.projectID req ∧ v.authenticated = req.authenticated ∧
      v.telemetry = req.telemetry
  ociURL : ∀ url, v.ociURL = some url → ∃ req, Configures env calls v.projectID req ∧
    req.ociURL = some url
  port : ∀ port, v.port = some port → ∃ req, Configures env calls v.projectID req ∧
    req.port = some port
  proxyURL : ∀ url, v.proxyURL = some url → (∃ req, Opens calls req url) ∨
    ∃ req, Configures env calls v.projectID req ∧ req.proxyURL = some url

/-- The row holds nothing but what clients have sent. -/
def Originates : (t : Table) → Key t → Row t → Prop
  | .userAccount, _, v => Addresses env calls v.email
  | .organization, o, v => (∃ n, Sent calls (.postOrganization (some n)) ∧
    validateName (trimSpace n) = .ok () ∧ v.name = trimSpace n) ∧ Settled calls o v.settings
  | .organizationUserAccount, k, _ => (∃ n, Sent calls (.postOrganization (some n))) ∨
    ∃ member, Sent calls (.putOrganizationMember (.value k.1) (some member))
  | .project, _, v => ∃ req, Sent calls (.postProject (some req)) ∧
    validateName req.name = .ok () ∧ v.name = req.name ∧ v.organizationID = req.organizationID
  | .deploymentRevision, _, v => Configured env calls v
  | .deploymentRevisionEvent, _, v => v.type = .progressing ∧ ∃ p req, Configures env calls p req
  | .mcpServerLog, _, v => ∃ i payload user,
    calls i = .report (.value v.deploymentRevisionID) (some payload) ∧
    v.toMCPServerLogRow5 = Logs.storedLog (mcpLogEntry payload v.deploymentRevisionID user)
  | .contextProperty, _, _ => False
  | .context, _, _ => False

def AllOriginate (db : Db) : Prop :=
  ∀ t k v, db.row t k = some v → Originates env calls t k v

variable {env calls}

/-- A revision that is merged from a request and an earlier revision of the project. -/
theorem configured_merge (user : UserAccount) (req : SettingsRequest) (p : UUID) (t : Time)
    (hc : Configures env calls p req) (latest : Option DeploymentRevision)
    (hlatest : ∀ dr, latest = some dr → dr.projectID = p ∧
      Configured env calls dr.toDeploymentRevisionRow) :
    Configured env calls (Ownership.rowOf (mergeSettings user req p latest) t) := by
  have hearlier : ∀ {α : Type} (sent : Option α) (f : DeploymentRevision → Option α) (a : α),
      (if sent.isSome then sent else latest.bind f) = some a →
      sent = some a ∨ ∃ dr, latest = some dr ∧ f dr = some a := by
    intro α sent f a h
    split at h
    · exact Or.inl h
    · exact Or.inr (Option.bind_eq_some_iff.mp h)
  refine ⟨Or.inr ⟨req, hc, rfl, rfl⟩, fun url h => ?_, fun port h => ?_, fun url h => ?_⟩
  · rcases hearlier _ _ url h with h | ⟨dr, hdr, h⟩
    · exact ⟨req, hc, h⟩
    · obtain ⟨hp, hconf⟩ := hlatest dr hdr
      exact hp ▸ hconf.ociURL url h
  · rcases hearlier _ _ port h with h | ⟨dr, hdr, h⟩
    · exact ⟨req, hc, h⟩
    · obtain ⟨hp, hconf⟩ := hlatest dr hdr
      exact hp ▸ hconf.port port h
  · rcases hearlier _ _ url h with h | ⟨dr, hdr, h⟩
    · exact Or.inr ⟨req, hc, h⟩
    · obtain ⟨hp, hconf⟩ := hlatest dr hdr
      exact hp ▸ hconf.proxyURL url h

/-- The latest revision of a project is one of its own. -/
theorem latest_configured (db : Db) (hc : Consistent db) (ha : AllOriginate env calls db) (p : UUID)
    (ps : ProjectSummary) (hps : (db.row .project p).bind (Queries.summary db p) = some ps)
    (dr : DeploymentRevision) (hdr : ps.latestDeploymentRevision = some dr) :
    dr.projectID = p ∧ Configured env calls dr.toDeploymentRevisionRow := by
  obtain ⟨row, hrow, hsum⟩ := Option.bind_eq_some_iff.mp hps
  obtain ⟨org, -, rfl⟩ := (Summaries.summary_some db p row ps).mp hsum
  obtain ⟨id, hid, hdr⟩ := Option.bind_eq_some_iff.mp hdr
  obtain ⟨v, hv, hdr⟩ := Option.bind_eq_some_iff.mp hdr
  cases hdr
  obtain ⟨v', hv', hp⟩ := hc.revisions p row id hrow hid
  cases hv.symm.trans hv'
  exact ⟨hp, ha .deploymentRevision id v hv⟩

theorem configured_first (user : UserAccount) (req : ProjectRequest) (p : UUID) (url : String)
    (t : Time) (h : Opens calls req url) :
    Configured env calls (Ownership.rowOf (firstRevision user req p url) t) := by
  refine ⟨Or.inl ⟨req, url, h, rfl, rfl⟩, fun _ hu => ?_, fun _ hp => ?_, fun url' hu => ?_⟩
  · cases hu
  · cases hp
  · cases hu
    exact Or.inl ⟨req, h⟩

theorem settled_default (o : UUID) : Settled calls o ⟨none, ⟨true⟩⟩ := by
  refine ⟨fun _ hd => ?_, Or.inl rfl⟩
  cases hd

/-- Settings that were met, changed by a request. -/
theorem settled_request (org org' : Organization) (request : OrganizationSettingsRequest)
    (hsent : Sent calls (.putOrganization (.value org.id) (some request)))
    (h : requestedSettings org request = .ok org') (hs : Settled calls org.id org.settings) :
    Settled calls org.id org'.settings := by
  rw [requestedSettings] at h
  cases hd : requestedDomain org request with
  | error e =>
    rw [hd] at h
    cases h
  | ok domain =>
    rw [hd] at h
    cases h
    constructor
    · intro name hname
      change domain = some name at hname
      rw [requestedDomain] at hd
      cases hc : request.customDomain with
      | none =>
        rw [hc] at hd
        cases hd
        exact hs.customDomain name hname
      | some sent =>
        simp only [hc] at hd
        split at hd
        · cases hd
          cases hname
        · cases hv : validateDomainName sent with
          | error e =>
            rw [hv] at hd
            cases hd
          | ok =>
            rw [hv, hname] at hd
            cases hd
            exact ⟨hv, request, hsent, hc⟩
    · cases ha : request.authorization with
      | none => simpa [ha] using hs.authorization
      | some a => exact Or.inr ⟨request, hsent, by simp [ha]⟩

/-- Clearing a reference does not touch what was sent. -/
theorem originates_clear (f : Schema.ForeignKey) (hf : f ∈ foreignKeys) (k : Key f.child)
    (v : Row f.child) (h : Originates env calls f.child k v) :
    Originates env calls f.child k (f.clear v) := by
  simp only [foreignKeys, List.mem_cons, List.not_mem_nil, or_false] at hf
  rcases hf with rfl | rfl | rfl | rfl | rfl | rfl | rfl | rfl | rfl | rfl | rfl | rfl | rfl |
    rfl | rfl <;> exact h

section Effects
variable (user : UserAccount) (h : List ApiDeed) (d : ApiDeed)
variable (hnow : AllOriginate env calls d.met)
variable (hearlier : ∀ d₀ ∈ h, Consistent d₀.met ∧ AllOriginate env calls d₀.met)

include hearlier

theorem follows_originates (p r : UUID) (req : SettingsRequest) (hc : Configures env calls p req)
    (w : Image) (hw : Follows h p r w) (t : Table) (k : Key t) (v : Row t)
    (he : w = ⟨t, k, some v⟩) : Originates env calls t k v := by
  rcases hw with ⟨row, d', e, ⟨d₀, hd₀, hrow⟩, rfl⟩ | ⟨e, now, rfl⟩
  · cases he
    exact (hearlier d₀ hd₀).2 .project p row hrow
  · cases he
    exact ⟨rfl, p, req, hc⟩

theorem saved_originates (req : SettingsRequest) (p : UUID) (hc : Configures env calls p req)
    (ws : List Image) (hs : Saved user req p h ws) (t : Table) (k : Key t) (v : Row t)
    (hw : (⟨t, k, some v⟩ : Image) ∈ ws) : Originates env calls t k v := by
  obtain ⟨r, now, ps, rest, ⟨d₀, hd₀, hps⟩, rfl, hrest⟩ := hs
  rcases List.mem_cons.mp hw with he | hw
  · cases he
    obtain ⟨hcons, hall⟩ := hearlier d₀ hd₀
    exact configured_merge user req p now hc ps.latestDeploymentRevision
      (latest_configured d₀.met hcons hall p ps hps)
  · exact follows_originates h hearlier p r req hc _ (hrest _ hw) t k v rfl

include hnow

/-- What an effect writes originates from its own request, and what it keeps from
those before. -/
theorem effects_originate (route : Route) (hsent : Sent calls route)
    (he : Effects env user route h d) (t : Table) (k : Key t) (v : Row t)
    (hw : (⟨t, k, some v⟩ : Image) ∈ d.made) : Originates env calls t k v := by
  have hproject : ∀ req now p, validateName req.name = .ok () →
      Sent calls (.postProject (some req)) → ∀ latest, Originates env calls .project p
        { projectOf user req now with latestDeploymentRevisionID := latest } :=
    fun req now p hvalid hsent _ => ⟨req, hsent, hvalid, rfl, rfl⟩
  unfold Effects at he
  split at he
  · next n =>
    obtain ⟨hvalid, ⟨o, now, -, hws⟩ | ⟨o, now, now', d₀, -, -, -, hws⟩⟩ := he
    · rw [hws] at hw
      cases List.mem_singleton.mp hw
      exact ⟨⟨n, hsent, hvalid, rfl⟩, settled_default o⟩
    · rw [hws] at hw
      cases List.mem_singleton.mp hw
      exact Or.inl ⟨n, hsent⟩
  · next o request =>
    obtain ⟨org, org', row, rfl, ⟨d₀, hd₀, horg, -⟩, hreq, hrow, hws⟩ := he
    rw [hws] at hw
    cases List.mem_singleton.mp hw
    obtain ⟨row₀, hrow₀, heq⟩ := Option.map_eq_some_iff.mp horg
    have hsettled : Settled calls org.id org.settings := by
      rw [← heq]
      exact heq ▸ ((hearlier d₀ hd₀).2 .organization org.id row₀ hrow₀).2
    exact ⟨(hnow .organization org.id row hrow).1,
      settled_request org org' request hsent hreq hsettled⟩
  · next o email =>
    obtain ⟨org, accounts, memberships, u, rfl, -, hws, hacc, hmem⟩ := he
    rw [hws] at hw
    rcases List.mem_append.mp hw with hw | hw
    · rcases hacc with ⟨rfl, -⟩ | ⟨now, rfl⟩
      · cases hw
      · cases List.mem_singleton.mp hw
        exact Or.inr ⟨org.id, email, hsent, rfl⟩
    · rcases hmem with rfl | ⟨now, rfl⟩
      · cases hw
      · cases List.mem_singleton.mp hw
        exact Or.inr ⟨email, hsent⟩
  · obtain ⟨org, -, -, -, hws⟩ := he
    rw [hws] at hw
    cases List.mem_singleton.mp hw
  · next req =>
    obtain ⟨hvalid, -, p, now, ⟨-, hws⟩ | ⟨url, r, now', hurl, hws⟩⟩ := he
    · rw [hws] at hw
      cases List.mem_singleton.mp hw
      exact hproject req now p hvalid hsent none
    · rw [hws] at hw
      simp only [List.mem_cons, List.not_mem_nil, or_false] at hw
      have hopens : Opens calls req url := ⟨hsent, hurl⟩
      rcases hw with he | he | he
      · cases he
        exact hproject req now p hvalid hsent none
      · cases he
        exact configured_first user req p url now' hopens
      · cases he
        exact hproject req now p hvalid hsent (some r)
  · exact deleteRow_images foreignKeys tables (Originates env calls) originates_clear _ _ d.met
      d.made hnow he.2 t k v hw
  · next p req =>
    obtain ⟨hcheck, -, hsaved⟩ := he
    exact saved_originates user h hearlier req p ⟨hsent, hcheck⟩ d.made hsaved t k v hw
  · exact he.elim

end Effects

end Origins

section Runs
variable {σ : Type} [DecidableEq σ] (rt : Analytics.Runtime) (env : Env) (calls : σ → Call)
variable (w₀ w : ApiWorld σ) (h₀ : Start rt env calls w₀)

omit [DecidableEq σ] in
/-- What a client commits originates from its own call, and from what is stored. -/
theorem permitted_originate (i : σ) (h : List ApiDeed) (d : ApiDeed)
    (hp : (calls i).Permits env h d) (hnow : AllOriginate env calls d.met)
    (hearlier : ∀ d₀ ∈ h, Consistent d₀.met ∧ AllOriginate env calls d₀.met) (t : Table)
    (k : Key t) (v : Row t) (hw : (⟨t, k, some v⟩ : Image) ∈ d.made) :
    Originates env calls t k v := by
  cases hcall : calls i with
  | report id body =>
    rw [hcall] at hp
    cases id with
    | absent | invalid => exact hp.elim
    | value id =>
      cases body with
      | none => exact hp.elim
      | some payload =>
        obtain ⟨-, user, l, r, -, -, hws⟩ : Reported env id payload h d := hp
        rw [hws] at hw
        cases List.mem_singleton.mp hw
        exact ⟨i, payload, user, hcall, rfl⟩
  | request email route =>
    rw [hcall] at hp
    cases email with
    | none => exact hp.elim
    | some email =>
      rcases hp with ⟨-, u, now, -, hws⟩ | ⟨user, d₀, rest, rfl, -, -, hallowed⟩
      · rw [hws] at hw
        cases List.mem_singleton.mp hw
        exact Or.inl ⟨i, email, route, hcall, rfl⟩
      · exact effects_originate user rest d hnow
          (fun d₁ hd₁ => hearlier d₁ (List.mem_cons_of_mem d₀ hd₁)) route ⟨i, email, hcall⟩
          hallowed.effects t k v hw

include h₀

/-- In every run, every stored row originates from what clients have sent. -/
theorem rows_originate (h : Run backend postgres w₀ w) (t : Table) (k : Key t) (v : Row t)
    (hv : w.cfg.srv.db.row t k = some v) : Originates env calls t k v := by
  have hconsistent : ∀ w₁ t₁, Told backend postgres w₀ w₁ t₁ → Consistent w₁.cfg.srv.db :=
    fun w₁ t₁ h₁ => ApiRuns.api_consistent rt env w₀ w₁ h₀.toInitial
      (start_clients rt env calls w₀ h₀) (told_run backend postgres h₁)
  obtain ⟨told, ht⟩ := run_told backend postgres h
  have hall : AllOriginate env calls (rowsAfter w₀.cfg.srv.db told) := by
    refine told_always backend postgres (fun i => (calls i).Permits env)
      (fun i h s => (calls i).Honest env h s.out) (start_conduct rt env calls w₀ h₀)
      (fun _ db => AllOriginate env calls db) ?_ ?_ ht told [] (List.append_nil told).symm
    · intro t k v hv
      rw [h₀.db] at hv
      cases hv
    · intro told w₁ i d h₁ hmet hpermit hnow hearlier t k v hv
      rcases Store.replay_row _ _ _ _ _ hv with hv | hw
      · exact hnow t k v hv
      · refine permitted_originate env calls i (deedsOf i told) d
          (hpermit (List.ne_nil_of_mem hw)) hnow (fun d₀ hd₀ => ?_) t k v hw
        obtain ⟨pre, post, w₂, -, h₂, hmet₂, hall⟩ := hearlier d₀ hd₀
        exact ⟨hmet₂ ▸ hconsistent w₂ pre h₂, hall⟩
  rw [told_rows backend postgres ht] at hv
  exact hall t k v hv

end Runs

theorem rows_originate_demo : ∃ w v, Mediation.demoRun = some w ∧
    w.cfg.srv.db.row .deploymentRevision 9 = some v ∧ Configured Env.demo demoCall v := by
  have h : Mediation.demoRun.any
      (fun w => (w.cfg.srv.db.row .deploymentRevision 9).isSome) = true := by decide
  obtain ⟨w, hw, hrow⟩ := (Option.any_eq_true _ _).mp h
  obtain ⟨v, hv⟩ := Option.isSome_iff_exists.mp hrow
  exact ⟨w, v, hw, hv, rows_originate Analytics.Runtime.stable Env.demo demoCall demoStart w
    (calling_start demoCall) (played_run _ _ w hw) .deploymentRevision 9 v hv⟩

end Jetski.Origins
