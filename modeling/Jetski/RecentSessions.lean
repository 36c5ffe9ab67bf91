import Jetski.AnalyticsOrder

/-!
# Recent sessions

What the entries of the recent sessions hold, and when they are in the order of
their ends. The comparison of two ends drops what is below a millisecond, so two
sessions that end closer together are left in the order in which they arrive.
-/

set_option autoImplicit false

namespace Jetski.RecentSessions

open Schema Jetski.Types Analytics Tally AnalyticsViews StableSort AnalyticsOrder

/-! ## The order -/

section Order
variable (env : Env) (logs : List MCPServerLog)

theorem sessions_ok_iff (rt : Runtime) :
    (∃ r, calculateRecentSessions rt env logs = .ok r) ↔
      ∀ log ∈ logs, (getNormalizedSessionID log).isSome → ¬ Unrequested log := by
  have hstep : ∀ m log, (∃ m', sessionStep env m log = .ok m') ↔
      ((getNormalizedSessionID log).isSome → ¬ Unrequested log) := by
    intro m log
    rw [sessionStep]
    split
    · next hn => simp [hn]
    · next s hs =>
      rw [map_ok_iff, isError_ok_iff, hs]
      simp
  rw [← foldlM_ok_iff (sessionStep env) _ hstep logs [], calculateRecentSessions]
  cases logs.foldlM (sessionStep env) [] with
  | error e => simp [bind, Except.bind]
  | ok m => simp [bind, Except.bind, pure, Except.pure]

/-- The first session ends less than a millisecond before the second one. -/
def JustBefore (s s' : String) : Prop :=
  sessionEnd logs s < sessionEnd logs s' ∧ sessionEnd logs s' < sessionEnd logs s+1000000

theorem apart_sorted (rt : Runtime) (r : List RecentSession)
    (h : calculateRecentSessions rt env logs = .ok r)
    (hapart : ∀ s ∈ logs.filterMap getNormalizedSessionID,
      ∀ s' ∈ logs.filterMap getNormalizedSessionID, ¬ JustBefore logs s s') :
    r.Pairwise (fun a b => b.endedAt ≤ a.endedAt) := by
  obtain ⟨m, hm, rfl⟩ := recentSessions_eq rt env logs r h
  have hends : ∀ a ∈ (rt.order .sessionData m).map (recentSession env),
      ∀ b ∈ (rt.order .sessionData m).map (recentSession env),
      a.endedAt = b.endedAt ∨ 1000000 ≤ |a.endedAt-b.endedAt| := by
    intro a ha b hb
    obtain ⟨e, he, rfl⟩ := List.mem_map.mp ha
    obtain ⟨e', he', rfl⟩ := List.mem_map.mp hb
    obtain ⟨hend, hid⟩ := recentSession_end env logs m hm e ((rt.order_perm _ _).mem_iff.mp he)
    obtain ⟨hend', hid'⟩ := recentSession_end env logs m hm e' ((rt.order_perm _ _).mem_iff.mp he')
    have hsplit : ∀ x y : ℤ, ¬ (x < y ∧ y < x+1000000) → ¬ (y < x ∧ x < y+1000000) →
        x = y ∨ 1000000 ≤ |x-y| := by
      intro x y hxy hyx
      rw [le_abs']
      omega
    rw [hend, hend']
    exact hsplit _ _ (hapart e.1 hid e'.1 hid') (hapart e'.1 hid' e.1 hid)
  have hsorted := rt.sortFunc_sorted _ _ (sessions_order _ hends)
  have hp := rt.sortFunc_perm (fun a b => milliseconds (timeSub b.endedAt a.endedAt))
    ((rt.order .sessionData m).map (recentSession env))
  refine hsorted.imp_of_mem fun ha hb hab => ?_
  exact (apart_order _ _ (hends _ (hp.mem_iff.mp ha) _ (hp.mem_iff.mp hb))).mp hab

/-- A stable sort leaves a session in front of one that ends just after it, in
one of two orders of iteration. -/
theorem justBefore_unsorted (s s' : String) (hs : s ∈ logs.filterMap getNormalizedSessionID)
    (hs' : s' ∈ logs.filterMap getNormalizedSessionID) (hclose : JustBefore logs s s')
    (hok : ∀ log ∈ logs, (getNormalizedSessionID log).isSome → ¬ Unrequested log) :
    ∃ rt r, calculateRecentSessions rt env logs = .ok r ∧
      ¬ r.Pairwise (fun a b => b.endedAt ≤ a.endedAt) := by
  obtain ⟨r, hr⟩ := (sessions_ok_iff env logs Runtime.stable).mpr hok
  obtain ⟨r', hr'⟩ := (sessions_ok_iff env logs (reversing .sessionData)).mpr hok
  obtain ⟨m, hm, hsort⟩ := recentSessions_eq Runtime.stable env logs r hr
  have hsort' := recentSessions_at (reversing .sessionData) env logs r' hr' m hm
  have hgroups := sessionData_groups env logs m hm
  obtain ⟨e, he, rfl⟩ := List.mem_map.mp ((groups_key logs m hgroups s).mpr hs)
  obtain ⟨e', he', rfl⟩ := List.mem_map.mp ((groups_key logs m hgroups s').mpr hs')
  have hend := (recentSession_end env logs m hm e he).1
  have hend' := (recentSession_end env logs m hm e' he').1
  obtain ⟨hlt, hnear⟩ := hclose
  have htied : milliseconds (timeSub (recentSession env e').endedAt (recentSession env e).endedAt)
      ≤ 0 := by
    rw [(milliseconds_sub _ _).1]
    rw [hend, hend', abs_lt]
    omega
  have hunsorted : ∀ l : List RecentSession,
      [recentSession env e, recentSession env e'].Sublist l →
      ¬ (Runtime.stable.sortFunc (fun a b => milliseconds (timeSub b.endedAt a.endedAt)) l).Pairwise
        (fun a b => b.endedAt ≤ a.endedAt) := by
    intro l hl hpairwise
    have hpair := List.pair_sublist_insertionSort
      (r := fun a b : RecentSession => milliseconds (timeSub b.endedAt a.endedAt) ≤ 0) htied hl
    have hle : (recentSession env e').endedAt ≤ (recentSession env e).endedAt :=
      List.pairwise_iff_forall_sublist.mp hpairwise hpair
    rw [hend, hend'] at hle
    exact absurd hlt (not_lt.mpr hle)
  have hne : e ≠ e' := fun heq => by
    rw [heq] at hlt
    omega
  rcases pair_or m e e' he he' hne with hpair | hpair
  · exact ⟨Runtime.stable, r, hr, hsort ▸ hunsorted _ (hpair.map (recentSession env))⟩
  · refine ⟨reversing .sessionData, r', hr', hsort' ▸ hunsorted _ ?_⟩
    rw [reversing_self]
    exact (hpair.reverse).map (recentSession env)

/-- The sessions are in the order of their ends in every run exactly if none ends
less than a millisecond before another one. -/
theorem sessions_sorted_iff :
    (∀ rt r, calculateRecentSessions rt env logs = .ok r →
      r.Pairwise (fun a b => b.endedAt ≤ a.endedAt)) ↔
    (∃ log ∈ logs, (getNormalizedSessionID log).isSome ∧ Unrequested log) ∨
      ∀ s ∈ logs.filterMap getNormalizedSessionID,
        ∀ s' ∈ logs.filterMap getNormalizedSessionID, ¬ JustBefore logs s s' := by
  constructor
  · intro hsorted
    by_contra hnot
    rw [not_or] at hnot
    obtain ⟨hok, hclose⟩ := hnot
    push Not at hclose
    obtain ⟨s, hs, s', hs', hjust⟩ := hclose
    obtain ⟨rt, r, hr, hunsorted⟩ := justBefore_unsorted env logs s s' hs hs' hjust
      fun log hlog hid hlost => hok ⟨log, hlog, hid, hlost⟩
    exact hunsorted (hsorted rt r hr)
  · intro h rt r hr
    rcases h with ⟨log, hlog, hid, hlost⟩ | hapart
    · exact absurd hlost ((sessions_ok_iff env logs rt).mp ⟨r, hr⟩ log hlog hid)
    · exact apart_sorted env logs rt r hr hapart

end Order

def closeSessions : List MCPServerLog := [clientLog "cursor" "s1" 0, clientLog "cursor" "s2" 500000]

theorem closeSessions_unsorted : ¬ ∀ rt r,
    calculateRecentSessions rt Env.demo closeSessions = .ok r →
      r.Pairwise (fun a b => b.endedAt ≤ a.endedAt) := by
  have hids : closeSessions.filterMap getNormalizedSessionID = ["s1", "s2"] := by decide
  have hend₁ : sessionEnd closeSessions "s1" = 0 := by decide
  have hend₂ : sessionEnd closeSessions "s2" = 500000 := by decide
  have hok : ∀ log ∈ closeSessions, (getNormalizedSessionID log).isSome → ¬ Unrequested log := by
    simp [closeSessions, clientLog_requested]
  intro h
  obtain ⟨rt, r, hr, hunsorted⟩ := justBefore_unsorted Env.demo closeSessions "s1" "s2"
    (by rw [hids]; simp) (by rw [hids]; simp) (by rw [JustBefore, hend₁, hend₂]; decide) hok
  exact hunsorted (h rt r hr)

/-! ## The entries -/

section Entries
variable (env : Env)

/-- What a session has gathered from further logs. -/
structure Gathered (session : SessionInfo) (bs : List MCPServerLog) (session' : SessionInfo) :
    Prop where
  firstStartedAt : session'.firstStartedAt = session.firstStartedAt
  calls : session'.calls = session.calls+bs.length
  errors : session'.errors = session.errors+bs.countP (errored env)
  userAgent : session'.userAgent =
    (bs.filterMap (fun log => log.userAgent)).getLast?.getD session.userAgent
  lastToolCall : session'.lastToolCall =
    (bs.filterMap (toolKey env)).getLast?.getD session.lastToolCall

/-- The last value of a list after one more in front of it. -/
theorem last_cons {α β : Type} (f : β → Option α) (b : β) (bs : List β) (a : α) :
    ((b::bs).filterMap f).getLast?.getD a = (bs.filterMap f).getLast?.getD ((f b).getD a) := by
  cases h : f b with
  | none => rw [List.filterMap_cons_none h, Option.getD_none]
  | some c =>
    rw [List.filterMap_cons_some h, List.getLast?_cons, Option.getD_some, Option.getD_some]

theorem addLog_gathered (log : MCPServerLog) (session : SessionInfo) :
    (addLog env log session).firstStartedAt = session.firstStartedAt ∧
    (addLog env log session).calls = session.calls+1 ∧
    (addLog env log session).errors = session.errors+(if errored env log then 1 else 0) ∧
    (addLog env log session).userAgent = log.userAgent.getD session.userAgent ∧
    (addLog env log session).lastToolCall = (toolKey env log).getD session.lastToolCall := by
  refine ⟨rfl, rfl, ?_, rfl, ?_⟩
  · simp only [addLog, SessionInfo.extend]
    cases errored env log <;> simp
  · simp only [addLog, SessionInfo.extend, toolKey]
    by_cases h : extractToolName env log.mcpRequest = "" <;> simp [h]

theorem logs_gathered (bs : List MCPServerLog) (session : SessionInfo) :
    Gathered env session bs (bs.foldl (fun session log => addLog env log session) session) := by
  induction bs generalizing session with
  | nil => exact ⟨rfl, by simp, by simp, rfl, rfl⟩
  | cons log bs ih =>
    have h := ih (addLog env log session)
    obtain ⟨hfirst, hcalls, herrors, huser, htool⟩ := addLog_gathered env log session
    rw [List.foldl_cons]
    constructor
    · rw [h.firstStartedAt, hfirst]
    · rw [h.calls, hcalls, List.length_cons]
      push_cast
      ring
    · rw [h.errors, herrors, List.countP_cons]
      push_cast
      ring
    · rw [h.userAgent, huser, last_cons]
    · rw [h.lastToolCall, htool, last_cons]

/-- The entry of a session with the given logs. -/
structure Summarises (bs : List MCPServerLog) (s : RecentSession) : Prop where
  calls : s.calls = bs.length
  errors : s.errors = bs.countP (errored env)
  startedAt : (bs.map (fun log => log.startedAt)).min? = some s.startedAt
  endedAt : (bs.map logEnd).max? = some s.endedAt
  lastToolCall : s.lastToolCall = (bs.filterMap (toolKey env)).getLast?.getD ""
  user : s.user = getNormalizedUserAgent env
    ((bs.filterMap (fun log => log.userAgent)).getLast?.getD "")

theorem folded_summarises (bs : List MCPServerLog) (id : String) (session : SessionInfo)
    (hasc : bs.Pairwise (fun log log' => log.startedAt ≤ log'.startedAt))
    (h : folded newSession (addLog env) bs = some session) :
    Summarises env bs (recentSession env (id, session)) := by
  have hend := folded_end env bs session h
  cases bs with
  | nil => cases h
  | cons log bs =>
    rw [folded_cons, Option.some.injEq] at h
    have hg := logs_gathered env (log::bs) (newSession log)
    rw [List.foldl_cons, h] at hg
    constructor
    · exact hg.calls.trans (by simp [newSession])
    · exact hg.errors.trans (by simp [newSession])
    · have hfirst : (recentSession env (id, session)).startedAt = log.startedAt := hg.firstStartedAt
      rw [hfirst, List.map_cons, List.min?_cons', List.foldl_map]
      have hmin : ∀ (bs : List MCPServerLog), (∀ log' ∈ bs, log.startedAt ≤ log'.startedAt) →
          bs.foldl (fun t log' => min t log'.startedAt) log.startedAt = log.startedAt := by
        intro bs
        induction bs with
        | nil => exact fun _ => rfl
        | cons log' bs ih =>
          intro hle
          rw [List.foldl_cons, min_eq_left (hle log' (.head _))]
          exact ih fun log'' hmem => hle log'' (.tail _ hmem)
      rw [hmin bs (List.pairwise_cons.mp hasc).1]
    · rw [List.map_cons, List.max?_cons'] at hend ⊢
      exact congrArg some hend.symm
    · exact hg.lastToolCall
    · exact congrArg (getNormalizedUserAgent env) hg.userAgent

theorem sessionID_key (log : MCPServerLog) (id : String) :
    getNormalizedSessionID log = some id ↔ id ≠ "" ∧ log.mcpSessionID = some id := by
  rw [getNormalizedSessionID, Option.filter_eq_some_iff]
  simp [and_comm]

section Sessions
variable (rt : Runtime) (logs : List MCPServerLog) (r : List RecentSession)
  (h : calculateRecentSessions rt env logs = .ok r)
include h

theorem entries_ids (id : String) : id ∈ r.map (fun s => s.sessionID) ↔
    id ≠ "" ∧ ∃ log ∈ logs, log.mcpSessionID = some id := by
  rw [(sessions_ids rt env logs r h).mem_iff, List.mem_dedup, List.mem_filterMap]
  simp only [sessionID_key]
  constructor
  · rintro ⟨log, hlog, hid, hsession⟩
    exact ⟨hid, log, hlog, hsession⟩
  · rintro ⟨hid, log, hlog, hsession⟩
    exact ⟨log, hlog, hid, hsession⟩

theorem entries_summarise (hasc : logs.Pairwise (fun log log' => log.startedAt ≤ log'.startedAt))
    (s : RecentSession) (hs : s ∈ r) :
    Summarises env (logs.filter (fun log => log.mcpSessionID = some s.sessionID)) s := by
  have hid := ((entries_ids env rt logs r h s.sessionID).mp (List.mem_map.mpr ⟨s, hs, rfl⟩)).1
  obtain ⟨m, hm, hperm⟩ := sessions_perm rt env logs r h
  obtain ⟨⟨id, session⟩, he, rfl⟩ := List.mem_map.mp (hperm.mem_iff.mp hs)
  have hfold := (groups_entry logs m hm id session).mp he
  have hgroup : logs.filter (fun log => log.mcpSessionID = some id) =
      group getNormalizedSessionID id logs := by
    refine List.filter_congr fun log _ => ?_
    have hid' : id ≠ "" := hid
    simp [sessionID_key, hid']
  refine Eq.mpr (congrArg (fun bs => Summarises env bs _) hgroup) ?_
  exact folded_summarises env _ id session (hasc.filter _) hfold

/-- The times of the entries are the first starts and the last ends of the sessions. -/
theorem entries_times (hasc : logs.Pairwise (fun log log' => log.startedAt ≤ log'.startedAt))
    (p : Time → Prop) : (∀ s ∈ r, p s.startedAt ∧ p s.endedAt) ↔
      ∀ id, id ≠ "" →
        (∀ t ∈ ((logs.filter (fun log => log.mcpSessionID = some id)).map
          (fun log => log.startedAt)).min?, p t) ∧
        ∀ t ∈ ((logs.filter (fun log => log.mcpSessionID = some id)).map logEnd).max?, p t := by
  constructor
  · intro hall id hid
    by_cases hlog : ∃ log ∈ logs, log.mcpSessionID = some id
    · obtain ⟨s, hs, rfl⟩ := List.mem_map.mp ((entries_ids env rt logs r h id).mpr ⟨hid, hlog⟩)
      have hsum := entries_summarise env rt logs r h hasc s hs
      rw [hsum.startedAt, hsum.endedAt]
      exact ⟨fun t ht => Option.some.inj ht ▸ (hall s hs).1,
        fun t ht => Option.some.inj ht ▸ (hall s hs).2⟩
    · have hnone : logs.filter (fun log => log.mcpSessionID = some id) = [] := by
        rw [List.filter_eq_nil_iff]
        exact fun log hmem hsession => hlog ⟨log, hmem, of_decide_eq_true hsession⟩
      rw [hnone]
      constructor <;> (intro t ht; cases ht)
  · intro hall s hs
    have hid := ((entries_ids env rt logs r h s.sessionID).mp (List.mem_map.mpr ⟨s, hs, rfl⟩)).1
    have hsum := entries_summarise env rt logs r h hasc s hs
    exact ⟨(hall s.sessionID hid).1 _ hsum.startedAt, (hall s.sessionID hid).2 _ hsum.endedAt⟩

end Sessions

/-- There is one entry for each session ID that is not empty, with what the logs
of the session say. -/
theorem recentSessions_contents (rt : Runtime) (logs : List MCPServerLog)
    (hasc : logs.Pairwise (fun log log' => log.startedAt ≤ log'.startedAt))
    (hok : ∀ log ∈ logs, ∃ e, isError env log = .ok e) :
    ∃ r, calculateRecentSessions rt env logs = .ok r ∧
      (r.map (fun s => s.sessionID)).Nodup ∧
      (∀ id, id ∈ r.map (fun s => s.sessionID) ↔
        id ≠ "" ∧ ∃ log ∈ logs, log.mcpSessionID = some id) ∧
      ∀ s ∈ r, Summarises env (logs.filter (fun log => log.mcpSessionID = some s.sessionID)) s := by
  obtain ⟨r, hr⟩ := recentSessions_ok rt env logs
    fun log hlog => (isError_ok_iff env log).mp (hok log hlog)
  have hids := sessions_ids rt env logs r hr
  exact ⟨r, hr, hids.nodup_iff.mpr (List.nodup_dedup _), entries_ids env rt logs r hr,
    entries_summarise env rt logs r hr hasc⟩

end Entries

def turningSessions : List MCPServerLog :=
  [clientLog "cursor" "s1" 0, clientLog "node" "s2" 1000000, clientLog "cursor" "s1" 2000000]

theorem recentSessions_contents_demo : ∃ r,
    calculateRecentSessions (reversing .sessionData) Env.demo turningSessions = .ok r ∧
      (∀ id, id ∈ r.map (fun s => s.sessionID) ↔
        id ≠ "" ∧ ∃ log ∈ turningSessions, log.mcpSessionID = some id) ∧
      ∀ s ∈ r, Summarises Env.demo
        (turningSessions.filter (fun log => log.mcpSessionID = some s.sessionID)) s := by
  have hok : ∀ log ∈ turningSessions, ∃ e, isError Env.demo log = .ok e := by
    intro log hlog
    apply (isError_ok_iff Env.demo log).mpr
    revert log
    simp [turningSessions, clientLog_requested]
  obtain ⟨r, hr, -, hids, hentries⟩ := recentSessions_contents Env.demo (reversing .sessionData)
    turningSessions (by simp [turningSessions, clientLog]) hok
  exact ⟨r, hr, hids, hentries⟩

end Jetski.RecentSessions
