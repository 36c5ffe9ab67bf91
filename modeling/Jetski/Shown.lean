import Jetski.Snapshots

/-!
# Rows that are shown

What a route shows of one state belongs to one organization, or to those of the user.
So along every run a reading request shows only rows of organizations of which an
account with the address of its token was met as a member by the same request.
-/

set_option autoImplicit false

namespace Jetski.Shown

open Relational Schema Jetski.Types Database Handlers Routes Reachability Conduct Answers
open Isolation Snapshots
open Requests (Accessible)
open Secrecy (Reading)

/-! ## Queries -/

def Within (db : Db) (o : UUID) (rs : List (Ref Key)) : Prop :=
  ∀ r ∈ rs, r.1 = .userAccount ∨ Belongs db o r.1 r.2

def Under (db : Db) (o p : UUID) : Prop :=
  ∀ v, db.row .project p = some v → v.organizationID = o

section Within
variable {db : Db} {o : UUID}

theorem within_append (rs rs' : List (Ref Key)) (h : Within db o rs) (h' : Within db o rs') :
    Within db o (rs++rs') :=
  fun r hr => (List.mem_append.mp hr).elim (h r) (h' r)

theorem within_map {α : Type} (f : α → Ref Key) (as : List α)
    (h : ∀ a ∈ as, Belongs db o (f a).1 (f a).2) : Within db o (as.map f) := by
  intro r hr
  obtain ⟨a, ha, rfl⟩ := List.mem_map.mp hr
  exact Or.inr (h a ha)

theorem within_flatMap {α : Type} (f : α → List (Ref Key)) (as : List α)
    (h : ∀ a ∈ as, Within db o (f a)) : Within db o (as.flatMap f) := by
  intro r hr
  obtain ⟨a, ha, hr⟩ := List.mem_flatMap.mp hr
  exact h a ha r hr

end Within

section Queries
variable {db : Db} (hc : Consistent db)

theorem members_within (o : UUID) (us : List ((UUID × UUID) × UserAccount))
    (h : Reads (Queries.getOrganizationMembers o) db us) : Within db o (Body.refs (.users us)) := by
  obtain ⟨t, h⟩ := h
  cases h
  refine within_flatMap _ _ fun u hm r hr => ?_
  rw [List.mem_insertionSort] at hm
  obtain ⟨⟨k, v⟩, -, hm⟩ := List.mem_filterMap.mp hm
  simp only [Option.bind_eq_bind, Option.bind_eq_some_iff] at hm
  obtain ⟨x, hk, a, -, hm⟩ := hm
  cases hm
  have hk : k.1 = o := by
    by_contra hne
    simp [guard, hne] at hk
  simp only [List.mem_cons, List.not_mem_nil, or_false] at hr
  rcases hr with rfl | rfl
  · exact Or.inr hk
  · exact Or.inl rfl

include hc

theorem summary_within (p : UUID) (v : ProjectRow) (hv : db.row .project p = some v)
    (ps : ProjectSummary) (h : Queries.summary db p v = some ps) :
    Within db v.organizationID (ProjectSummary.refs ps) := by
  obtain ⟨org, horg, rfl⟩ := (Summaries.summary_some db p v ps).mp h
  obtain ⟨ov, -, rfl⟩ := Option.map_eq_some_iff.mp horg
  refine within_append _ _ (within_append _ _ (fun r hr => ?_) (within_map _ _ fun r hr => ?_))
    (within_map _ _ fun e he => ?_)
  · simp only [List.mem_cons, List.not_mem_nil, or_false] at hr
    rcases hr with rfl | rfl
    · exact Or.inr ⟨v, hv, rfl⟩
    · exact Or.inr rfl
  · have hr := Option.mem_toList.mp hr
    simp only [Queries.latestRevision, Option.bind_eq_bind, Option.bind_eq_some_iff] at hr
    obtain ⟨d, hd, w, -, hr⟩ := hr
    cases hr
    obtain ⟨r', hr', rfl⟩ := hc.revisions p v d hv hd
    exact ⟨r', v, hr', hv, rfl⟩
  · have he := Option.mem_toList.mp he
    simp only [Queries.latestEvent, Option.bind_eq_bind, Option.bind_eq_some_iff] at he
    obtain ⟨e', he', w, -, r, -, u, -, he⟩ := he
    cases he
    obtain ⟨ev, r, hev, hr, rfl⟩ := hc.events p v e' hv he'
    exact ⟨ev, r, v, hev, hr, hv, rfl⟩

theorem projectSummary_within (o p : UUID) (hp : Under db o p) (ps : ProjectSummary)
    (h : Reads (Queries.getProjectSummary p) db ps) : Within db o (ProjectSummary.refs ps) := by
  obtain ⟨t, h⟩ := h
  rw [Queries.getProjectSummary, Queries.select] at h
  cases hs : (db.row .project p).bind (Queries.summary db p) with
  | none =>
    rw [hs] at h
    cases h
  | some ps' =>
    rw [hs] at h
    cases h
    obtain ⟨v, hv, hs⟩ := Option.bind_eq_some_iff.mp hs
    exact hp v hv ▸ summary_within hc p v hv ps hs

theorem summaries_within (env : Env) (o : UUID) (pss : List ProjectSummary)
    (h : Reads (Queries.getProjectSummaries env o) db pss) :
    Within db o (pss.flatMap ProjectSummary.refs) := by
  obtain ⟨t, h⟩ := h
  cases h
  refine within_flatMap _ _ fun ps hps => ?_
  obtain ⟨p, v, hv, rfl, hs⟩ := (Summaries.mem_projectSummaries env db o ps).mp hps
  exact summary_within hc p v hv ps hs

/-- Revisions of projects that are chosen within the organization. -/
theorem revisions_within (o : UUID) (P : ProjectRow → UUID → Bool)
    (hP : ∀ p v, db.row .project p = some v → P v p = true → v.organizationID = o) :
    Within db o ((Queries.revisionSummaries db P).flatMap DeploymentRevisionSummary.refs) := by
  refine within_flatMap _ _ fun rs hrs => ?_
  rw [Queries.revisionSummaries, List.mem_insertionSort, List.mem_filterMap] at hrs
  obtain ⟨r, hr, hrs⟩ := hrs
  have hmem := Disclosure.mem_rowNumbers _ _ r hr
  rw [List.mem_insertionSort, List.mem_filter, Store.mem_scan] at hmem
  obtain ⟨hrow, hfilter⟩ := hmem
  simp only [Option.bind_eq_bind, Option.bind_eq_some_iff] at hrs
  obtain ⟨v, hv, u, hu, hrs⟩ := hrs
  cases hrs
  obtain ⟨p, hp, rfl⟩ := Option.map_eq_some_iff.mp hv
  have ho : p.organizationID = o := hP _ p hp (by simpa [hp] using (of_decide_eq_true hfilter).1)
  refine within_append _ _ (fun x hx => ?_) (within_map _ _ fun e he => ?_)
  · simp only [List.mem_cons, List.not_mem_nil, or_false] at hx
    rcases hx with rfl | rfl | rfl
    · exact Or.inr ⟨_, p, hrow, hp, ho⟩
    · exact Or.inr ⟨p, hp, ho⟩
    · exact Or.inl rfl
  · have he := Option.mem_toList.mp he
    simp only [Option.bind_eq_some_iff] at he
    obtain ⟨e', he', w, -, he⟩ := he
    cases he
    obtain ⟨ev, r', hev, hr', hproject⟩ := hc.events _ p e' hp he'
    exact ⟨ev, r', p, hev, hr', hproject ▸ hp, ho⟩

theorem usage_within (o : UUID) (u : OrganizationDashboardUsage)
    (h : Reads (Queries.getUsage o) db u) : Within db o (logRefs u.counted) := by
  obtain ⟨t, h⟩ := h
  cases h
  refine within_map _ _ fun l hl => ?_
  obtain ⟨⟨k, v⟩, hm, hl⟩ := List.mem_filterMap.mp hl
  have hv := (db.mem_scan .mcpServerLog k v).mp hm
  simp only [Option.bind_eq_bind, Option.bind_eq_some_iff] at hl
  obtain ⟨dr, hdr, p, hp, x, hx, hl⟩ := hl
  cases hl
  obtain ⟨r, hr, hproject⟩ := hc.logs k v hv
  cases hr.symm.trans hdr
  have ho : p.organizationID = o := by
    by_contra hne
    simp [guard, hne] at hx
  exact ⟨v, p, hv, hproject ▸ hp, ho⟩

end Queries

section Logs
variable {db : Db} (hc : Consistent db) {o p : UUID} (hp : Under db o p) (env : Env)
include hc hp

theorem projectLogs_belong (id : Option UUID) (session : Option String)
    (l : UUID × MCPServerLogRow) (hm : l ∈ Logs.projectLogs env db p id session) :
    Belongs db o .mcpServerLog l.1 := by
  obtain ⟨hv, hproject, -⟩ := (Logs.mem_projectLogs env db p id session l).mp hm
  obtain ⟨row, hrow⟩ := hc.sound.parent logProject (by simp [schema, foreignKeys]) l.1 l.2
    l.2.projectID hv rfl
  exact ⟨l.2, row, hv, hrow, hp row (hproject ▸ hrow)⟩

theorem logs_within (pagination : Pagination) (sorting : Sorting) (id : Option UUID)
    (session : Option String) (ls : List MCPServerLog)
    (h : Reads (Logs.getLogsForProject env p pagination sorting id session) db ls) :
    Within db o (logRefs ls) := by
  obtain ⟨t, h⟩ := h
  obtain ⟨rows, hrows, rfl⟩ := Logs.getLogs_rows env db p _ _ id session t ls [] h
  refine within_map _ _ fun log hlog => ?_
  obtain ⟨l, hl, rfl⟩ := List.mem_map.mp hlog
  exact projectLogs_belong hc hp env id session l (hrows l hl).1

theorem prompts_within (pagination : Pagination) (sorting : Sorting) (session : Option String)
    (ps : List MCPServerLogPromptData)
    (h : Reads (Logs.getPromptsForProject env p pagination sorting session) db ps) :
    Within db o (Body.refs (.prompts ps)) := by
  obtain ⟨t, h⟩ := h
  refine within_map _ _ fun x hmem => ?_
  obtain ⟨l, hl, hid⟩ := Logs.getPrompts_rows env db p _ _ session t ps [] h x hmem
  exact hid ▸ projectLogs_belong hc hp env none session l hl

omit hc hp in
theorem analytics_within (now startAt : Time) (ls : List MCPServerLog)
    (h : Within db o (logRefs ls)) :
    Within db o (Body.refs (.analytics (splitPeriods now startAt ls).1
      (splitPeriods now startAt ls).2)) := by
  have hperiod : ∀ f : MCPServerLog → Bool, Within db o (logRefs (ls.filter f)) := by
    intro f r hr
    obtain ⟨l, hl, rfl⟩ := List.mem_map.mp hr
    exact h _ (List.mem_map.mpr ⟨l, List.mem_of_mem_filter hl, rfl⟩)
  exact within_append _ _ (hperiod _) (hperiod _)

end Logs

/-! ## Rows of the user -/

section Own
variable {db : Db} (env : Env) (user : UserAccount)

/-- Every row belongs to an organization of the user. -/
def Own (db : Db) (user : UserAccount) (rs : List (Ref Key)) : Prop :=
  ∀ r ∈ rs, ∃ o, Belongs db o r.1 r.2 ∧ Queries.isMember db user.id o = true

theorem organizations_own (os : List Organization)
    (h : Reads (Queries.getOrganizationsOfUser env user.id) db os) :
    Own db user (Body.refs (.organizations os)) := by
  obtain ⟨t, h⟩ := h
  cases h
  intro r hr
  obtain ⟨org, horg, rfl⟩ := List.mem_map.mp hr
  rw [List.mem_insertionSort] at horg
  obtain ⟨⟨k, v⟩, hm, horg⟩ := List.mem_filterMap.mp horg
  have hrow := (db.mem_scan _ _ _).mp hm
  simp only [Option.bind_eq_bind, Option.bind_eq_some_iff] at horg
  obtain ⟨u, hk, a, -, horg⟩ := horg
  have hk : k.2 = user.id := by
    by_contra hne
    simp [guard, hne] at hk
  obtain ⟨w, -, rfl⟩ := Option.map_eq_some_iff.mp horg
  refine ⟨k.1, rfl, ?_⟩
  rw [Queries.isMember, ← hk, hrow]
  rfl

theorem projects_own (ps : List Project)
    (h : Reads (Queries.getProjectsForUser env user.id) db ps) :
    Own db user (Body.refs (.projects ps)) := by
  obtain ⟨t, h⟩ := h
  cases h
  intro r hr
  obtain ⟨p, hp, rfl⟩ := List.mem_map.mp hr
  obtain ⟨x, hx, rfl⟩ := List.mem_map.mp hp
  rw [List.mem_insertionSort] at hx
  obtain ⟨⟨k, v⟩, hm, hx⟩ := List.mem_filterMap.mp hx
  have hrow := (db.mem_scan _ _ _).mp hm
  simp only [Option.bind_eq_bind, Option.bind_eq_some_iff] at hx
  obtain ⟨org, -, u, hmem, hx⟩ := hx
  cases hx
  have hmem : Queries.isMember db user.id v.organizationID = true := by
    by_contra hne
    simp [guard, hne] at hmem
  exact ⟨v.organizationID, ⟨v, hrow, rfl⟩, hmem⟩

end Own

/-! ## Routes -/

theorem statusOf_refs (env : Env) (ps : ProjectSummary) :
    Body.refs (statusOf env ps) = ProjectSummary.refs ps := by
  rw [statusOf]
  split
  · rfl
  · split <;> rfl

section Routes
variable {db : Db} (env : Env) (user : UserAccount)

/-- What a route with a parameter shows belongs to the organization of that. -/
theorem shows_within (hc : Consistent db) (route : Route) (b : Body)
    (hs : Shows env user route db b) (o : UUID)
    (ho : Existence.organizationOf route = .value o ∨
      ∃ p, Existence.projectOf route = .value p ∧ Under db o p) :
    Within db o (Body.refs b) := by
  have hproject : ∀ p, Existence.organizationOf route = .absent →
      Existence.projectOf route = .value p → Under db o p := by
    intro p hnone hp
    rcases ho with ho | ⟨p', hp', hu⟩
    · cases hnone.symm.trans ho
    · cases hp.symm.trans hp'
      exact hu
  have horg : ∀ o', Existence.projectOf route = .absent →
      Existence.organizationOf route = .value o' → o' = o := by
    intro o' hnone ho'
    rcases ho with ho | ⟨p, hp, -⟩
    · cases ho'.symm.trans ho
      rfl
    · cases hnone.symm.trans hp
  unfold Shows at hs
  split at hs
  · rcases ho with ho | ⟨p, hp, -⟩ <;> contradiction
  · rcases ho with ho | ⟨p, hp, -⟩ <;> contradiction
  · obtain ⟨us, hus, rfl⟩ := hs
    cases horg _ rfl rfl
    exact members_within _ us hus
  · obtain ⟨pss, hpss, rfl⟩ := hs
    cases horg _ rfl rfl
    exact summaries_within hc env _ pss hpss
  · obtain ⟨rs, hrs, rfl⟩ := hs
    cases horg _ rfl rfl
    obtain ⟨t, hrs⟩ := hrs
    cases hrs
    intro r hr
    obtain ⟨x, hx, hr⟩ := List.mem_flatMap.mp hr
    exact revisions_within hc o _ (fun p v _ hP => of_decide_eq_true hP) r
      (List.mem_flatMap.mpr ⟨x, List.mem_of_mem_take hx, hr⟩)
  · obtain ⟨u, hu, rfl⟩ := hs
    cases horg _ rfl rfl
    exact usage_within hc _ u hu
  · obtain ⟨ps, hps, rfl⟩ := hs
    exact projectSummary_within hc o _ (hproject _ rfl rfl) ps hps
  · obtain ⟨ps, hps, rfl⟩ := hs
    rw [statusOf_refs]
    exact projectSummary_within hc o _ (hproject _ rfl rfl) ps hps
  · obtain ⟨rs, hrs, rfl⟩ := hs
    obtain ⟨t, hrs⟩ := hrs
    cases hrs
    refine revisions_within hc o _ fun p v hv hP => ?_
    cases of_decide_eq_true hP
    exact hproject _ rfl rfl v hv
  · obtain ⟨pagination, ls, -, hls, rfl⟩ := hs
    exact logs_within hc (hproject _ rfl rfl) env _ _ _ _ ls hls
  · obtain ⟨pagination, ps, -, hps, rfl⟩ := hs
    exact prompts_within hc (hproject _ rfl rfl) env _ _ _ ps hps
  · obtain ⟨ls, hls, rfl⟩ := hs
    exact analytics_within _ _ ls (logs_within hc (hproject _ rfl rfl) env _ _ _ _ ls hls)
  · exact hs.elim

theorem shows_addressed (route : Route) (b : Body) (hs : Shows env user route db b) :
    Unchecked route ∨ (∃ o, Existence.organizationOf route = .value o) ∨
      ∃ p, Existence.projectOf route = .value p := by
  unfold Shows at hs
  split at hs
  case h_1 | h_2 => exact Or.inl ⟨rfl, rfl⟩
  case h_3 | h_4 | h_5 | h_6 => exact Or.inr (Or.inl ⟨_, rfl⟩)
  case h_13 => exact hs.elim
  all_goals exact Or.inr (Or.inr ⟨_, rfl⟩)

/-- What a route without one shows belongs to organizations of the user. -/
theorem shows_own (route : Route) (b : Body) (hu : Unchecked route)
    (hs : Shows env user route db b) : Own db user (Body.refs b) := by
  unfold Shows at hs
  split at hs
  · obtain ⟨os, hos, rfl⟩ := hs
    exact organizations_own env user os hos
  · obtain ⟨ps, hps, rfl⟩ := hs
    exact projects_own env user ps hps
  all_goals
    obtain ⟨ho, hp⟩ := hu
    contradiction

end Routes

section Runs
variable {σ : Type} [DecidableEq σ] (rt : Analytics.Runtime) (env : Env)
variable (calls : σ → Mediation.Call) (w₀ w : ApiWorld σ) (h₀ : Mediation.Start rt env calls w₀)
variable (t : List (σ × ApiDeed)) (ht : Told backend postgres w₀ w t)
include h₀ ht

theorem deed_consistent (i : σ) (d : ApiDeed) (hd : d ∈ deedsOf i t) : Consistent d.met := by
  obtain ⟨w₁, -, h₁, -, -, hdb, -⟩ := told_deed backend postgres ht i d hd
  exact hdb ▸ ApiRuns.api_consistent rt env w₀ w₁ h₀.toInitial
    (Mediation.start_clients rt env calls w₀ h₀) h₁

/-- A project that was accessible before is of the same organization later. -/
theorem accessible_under (i : σ) (d d' : ApiDeed) (hsub : [d, d'].Sublist (deedsOf i t))
    (u p : UUID) (h : Accessible d.met u p) :
    ∃ o, Queries.isMember d.met u o = true ∧ Under d'.met o p := by
  obtain ⟨v, hv, hm⟩ := h
  refine ⟨v.organizationID, hm, fun v' hv' => ?_⟩
  obtain ⟨before, rest, heq, hd, hrest⟩ := List.cons_sublist_iff.mp hsub
  obtain ⟨between, after, rfl⟩ := List.append_of_mem (List.singleton_sublist.mp hrest)
  rw [← List.append_assoc] at heq
  obtain ⟨pre, post, hsplit, hpre⟩ := deedsOf_split i t d' _ after heq
  have hc := Mediation.told_continues rt env calls w₀ w h₀ t ht pre post (i, d') hsplit
  have hbefore : d ∈ deedsOf i pre := hpre ▸ List.mem_append_left between hd
  have hlasting := hc.met d hbefore .project p v v' hv hv' (by decide)
  have horg : (Permanence.lasting .project v').organizationID =
      (Permanence.lasting .project v).organizationID := by rw [hlasting]
  exact horg

/-- What was shown belongs to an organization that was met with the user as a member. -/
theorem met_entitled (i : σ) (user : UserAccount) (route : Route) (b : Body)
    (hm : Met env user route (deedsOf i t) b) : ∀ r ∈ Body.refs b, r.1 = .userAccount ∨
      ∃ o, (∃ d ∈ deedsOf i t, Belongs d.met o r.1 r.2) ∧
        Saw (deedsOf i t) (fun db => Queries.isMember db user.id o = true) := by
  intro r hr
  rcases hm with ⟨hu, d, hd, hs⟩ | ⟨d, d', hsub, hg, hs⟩ |
    ⟨-, os, ps, rfl, d, d', hsub, ⟨hos, hps⟩⟩
  · obtain ⟨o, hb, hm⟩ := shows_own env user route b hu hs r hr
    exact Or.inr ⟨o, ⟨d, hd, hb⟩, d, hd, hm⟩
  · have hd : d ∈ deedsOf i t := hsub.subset (by simp)
    have hd' : d' ∈ deedsOf i t := hsub.subset (by simp)
    have hc := deed_consistent rt env calls w₀ w h₀ t ht i d' hd'
    rcases shows_addressed env user route b hs with hu | ⟨o, ho⟩ | ⟨p, hp⟩
    · obtain ⟨o, hb, hm⟩ := shows_own env user route b hu hs r hr
      exact Or.inr ⟨o, ⟨d', hd', hb⟩, d', hd', hm⟩
    · exact (shows_within env user hc route b hs o (Or.inl ho) r hr).imp id
        fun hb => ⟨o, ⟨d', hd', hb⟩, d, hd, hg.1 o ho⟩
    · obtain ⟨o, hmember, hunder⟩ := accessible_under rt env calls w₀ w h₀ t ht i d d' hsub user.id
        p (hg.2 p hp)
      exact (shows_within env user hc route b hs o (Or.inr ⟨p, hp, hunder⟩) r hr).imp id
        fun hb => ⟨o, ⟨d', hd', hb⟩, d, hd, hmember⟩
  · have hd : d ∈ deedsOf i t := hsub.subset (by simp)
    have hd' : d' ∈ deedsOf i t := hsub.subset (by simp)
    rcases List.mem_append.mp hr with hr | hr
    · rcases List.mem_cons.mp hr with rfl | hr
      · exact Or.inl rfl
      · obtain ⟨o, hb, hm⟩ := organizations_own env user os hos r hr
        exact Or.inr ⟨o, ⟨d, hd, hb⟩, d, hd, hm⟩
    · obtain ⟨o, hb, hm⟩ := projects_own env user ps hps r hr
      exact Or.inr ⟨o, ⟨d', hd', hb⟩, d', hd', hm⟩

omit ht in
/-- In every run, a reading request that has ended has shown no row but those of
organizations of which it has met an account with the address of its token as a member,
with accounts of their members and authors. -/
theorem reads_entitled (h : Run backend postgres w₀ w) : ∃ t, Told backend postgres w₀ w t ∧
    ∀ i email route, calls i = .request (some email) route → Reading route → w.prog i = .ret () →
      ∀ b, .response 200 b ∈ (w.cfg.ses i).out → ∀ r ∈ Body.refs b, r.1 = .userAccount ∨
        ∃ o, (∃ d ∈ deedsOf i t, Belongs d.met o r.1 r.2) ∧
          Saw (deedsOf i t) (Mediation.MemberWith env email o) := by
  obtain ⟨t, ht⟩ := run_told backend postgres h
  refine ⟨t, ht, fun i email route hcall hr hi b hb r hrefs => ?_⟩
  rcases told_reported rt env calls w₀ w h₀ t ht i email route hcall hr hi _ hb with
    ⟨status, b', hx, hst⟩ | ⟨user, hid, haccount⟩
  · cases hx
    rcases hst with hst | hst <;> cases hst
  · cases haccount with
    | answered _ hm =>
      refine (met_entitled rt env calls w₀ w h₀ t ht i user route b hm r hrefs).imp id ?_
      rintro ⟨o, hbelongs, hmember⟩
      exact ⟨o, hbelongs,
        Mediation.told_member rt env calls w₀ w h₀ t ht i email user o hid hmember⟩

end Runs

theorem reads_entitled_demo : ∃ w t, Snapshots.demoRun = some w ∧
    Told backend postgres demoStart w t ∧ responses (w.cfg.ses true).out = [200] ∧
    ∀ b, .response 200 b ∈ (w.cfg.ses true).out → ∀ r ∈ Body.refs b, r.1 = .userAccount ∨
      ∃ o, (∃ d ∈ deedsOf true t, Belongs d.met o r.1 r.2) ∧
        Saw (deedsOf true t) (Mediation.MemberWith Env.demo "ada@acme.com" o) := by
  obtain ⟨w, hw, hi, hout⟩ := demoRun_ended
  obtain ⟨t, ht, hall⟩ := reads_entitled Analytics.Runtime.stable Env.demo demoCall demoStart w
    (Mediation.calling_start demoCall) (played_run _ _ w hw)
  exact ⟨w, t, hw, ht, hout,
    hall true "ada@acme.com" (.getOrganizationMembers (.value 2)) rfl rfl hi⟩

end Jetski.Shown
