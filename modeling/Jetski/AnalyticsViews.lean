import Jetski.Tally

/-!
# The views of one analytics result

The calculators group the same logs by different keys. Every view accounts for
each log that has its key exactly once, in whichever order the maps are
iterated, so that the totals of the views agree.
-/

set_option autoImplicit false

namespace Jetski.AnalyticsViews

open Schema Jetski.Types Analytics Tally

/-! ## The rounds of the loops -/

section Rounds
variable (rt : Runtime) (env : Env)

/-- Logs without operation name are skipped. -/
def toolKey (log : MCPServerLog) : Option String :=
  if extractToolName env log.mcpRequest = "" then none
  else some (extractToolName env log.mcpRequest)

def errored (log : MCPServerLog) : Bool := (isError env log).toOption = some true

theorem errored_ok (log : MCPServerLog) (e : Bool) (h : isError env log = .ok e) :
    errored env log = e := by
  simp [errored, h, Except.toOption]

def addStats (log : MCPServerLog) (stats : ToolPerformanceStats) : ToolPerformanceStats where
  totalCalls := stats.totalCalls+1
  errorCalls := if errored env log then stats.errorCalls+1 else stats.errorCalls
  totalDuration := stats.totalDuration+log.duration

theorem toolStep_round (m : GoMap ToolPerformanceStats) (log : MCPServerLog)
    (m' : GoMap ToolPerformanceStats) (h : toolStep env m log = .ok m') :
    Round (toolKey env) (fun _ => {}) (addStats env) m log m' := by
  simp only [toolStep] at h
  split at h
  · next hn =>
    cases h
    exact Or.inl ⟨if_pos hn, rfl⟩
  · next hn =>
    cases he : isError env log with
    | error e =>
      rw [he] at h
      cases h
    | ok e =>
      rw [he] at h
      cases h
      refine Or.inr ⟨_, if_neg hn, ?_⟩
      have hf : addStats env log = fun stats => {
          totalCalls := stats.totalCalls+1
          errorCalls := if e then stats.errorCalls+1 else stats.errorCalls
          totalDuration := stats.totalDuration+log.duration } := by
        funext stats
        rw [addStats, errored_ok env log e he]
      rw [hf]

def addCall (log : MCPServerLog) (data : ToolAnalyticsData) : ToolAnalyticsData where
  calls := data.calls+1
  arguments := (rt.order (.extractArguments (extractToolName env log.mcpRequest) data.calls)
    (extractArguments env log.mcpRequest)).foldl (fun m a =>
      update m a.1 [] (fun values => update values a.2 0 (fun n => n+1))) data.arguments

theorem toolAnalyticsStep_round (m : GoMap ToolAnalyticsData) (log : MCPServerLog) :
    Round (toolKey env) (fun _ => {}) (addCall rt env) m log (toolAnalyticsStep rt env m log) := by
  simp only [toolAnalyticsStep]
  split
  · next hn => exact Or.inl ⟨if_pos hn, rfl⟩
  · next hn => exact Or.inr ⟨_, if_neg hn, rfl⟩

theorem clientUsage_round (m : GoMap ℤ) (log : MCPServerLog) :
    Round (fun log => some (clientName env log)) (fun _ => 0) (fun _ n => n+1) m log
      (update m (clientName env log) 0 (fun n => n+1)) :=
  Or.inr ⟨_, rfl, rfl⟩

def newSession (log : MCPServerLog) : SessionInfo :=
  ⟨log.startedAt, log.startedAt, log.duration, 0, 0, "", ""⟩

def addLog (log : MCPServerLog) (session : SessionInfo) : SessionInfo :=
  session.extend env log (errored env log)

theorem sessionStep_round (m : GoMap SessionInfo) (log : MCPServerLog) (m' : GoMap SessionInfo)
    (h : sessionStep env m log = .ok m') :
    Round getNormalizedSessionID newSession (addLog env) m log m' := by
  rw [sessionStep] at h
  split at h
  · next hn =>
    cases h
    exact Or.inl ⟨hn, rfl⟩
  · next s hs =>
    cases he : isError env log with
    | error e =>
      rw [he] at h
      cases h
    | ok e =>
      rw [he] at h
      cases h
      refine Or.inr ⟨s, hs, ?_⟩
      have hf : addLog env log = fun session => session.extend env log e := by
        funext session
        rw [addLog, errored_ok env log e he]
      rw [hf]
      rfl

end Rounds

/-! ## The maps -/

section Maps
variable (rt : Runtime) (env : Env) (logs : List MCPServerLog)

theorem toolStats_groups (m : GoMap ToolPerformanceStats)
    (h : logs.foldlM (toolStep env) [] = .ok m) :
    Groups (toolKey env) (fun _ => {}) (addStats env) logs m :=
  groups_foldlM (toolStep env) (toolStep_round env) [] logs [] m (groups_nil _ _ _) h

theorem toolData_groups : Groups (toolKey env) (fun _ => {}) (addCall rt env) logs
    (logs.foldl (toolAnalyticsStep rt env) []) :=
  groups_foldl (toolAnalyticsStep rt env) (toolAnalyticsStep_round rt env) [] logs []
    (groups_nil _ _ _)

theorem clientUsage_groups :
    Groups (fun log => some (clientName env log)) (fun _ => 0) (fun _ n => n+1) logs
      (logs.foldl (fun m log => update m (clientName env log) (0 : ℤ) (fun n => n+1)) []) :=
  groups_foldl _ (clientUsage_round env) [] logs [] (groups_nil _ _ _)

theorem sessionData_groups (m : GoMap SessionInfo) (h : logs.foldlM (sessionStep env) [] = .ok m) :
    Groups getNormalizedSessionID newSession (addLog env) logs m :=
  groups_foldlM (sessionStep env) (sessionStep_round env) [] logs [] m (groups_nil _ _ _) h

end Maps

/-! ## What the calculators return -/

/-- The tool of an entry, whose number of calls is never the divisor zero. -/
def toolOf (entry : String × ToolPerformanceStats) : PerformingTool where
  name := entry.1
  totalCalls := entry.2.totalCalls
  errorRate := if 0 < entry.2.totalCalls then
    float64 (float64 entry.2.errorCalls/float64 entry.2.totalCalls) else 0
  avgLatency := if 0 < entry.2.totalCalls then
    (milliseconds entry.2.totalDuration).tdiv entry.2.totalCalls else 0

theorem performingTool_eq (entry : String × ToolPerformanceStats) :
    performingTool entry = .ok (toolOf entry) := by
  rw [performingTool, toolOf]
  by_cases h : 0 < entry.2.totalCalls
  · have hne : entry.2.totalCalls ≠ 0 := by omega
    simp only [if_pos h, div, if_neg hne]
    rfl
  · simp only [if_neg h]

theorem mapM_total {α β : Type} (f : α → Except Panic β) (g : α → β)
    (hf : ∀ a, f a = .ok (g a)) (as : List α) : as.mapM f = .ok (as.map g) := by
  induction as with
  | nil => rfl
  | cons a as ih =>
    rw [List.mapM_cons, hf a, ih]
    rfl

section Calculators
variable (rt : Runtime) (env : Env) (logs : List MCPServerLog)

def allTools (m : GoMap ToolPerformanceStats) : List PerformingTool :=
  (rt.order .toolStats m).map toolOf

theorem toolsPerformance_eq (r : ToolsPerformance)
    (h : calculateToolsPerformance rt env logs = .ok r) :
    ∃ m, logs.foldlM (toolStep env) [] = .ok m ∧
      r.topPerformingTools =
        (rt.sortFunc (fun a b => b.totalCalls-a.totalCalls) (allTools rt m)).take 5 ∧
      r.toolsRequiringAttention = rt.sortFunc
        (fun a b => trunc (float64 (a.errorRate*100))-trunc (float64 (b.errorRate*100)))
        ((allTools rt m).filter needsAttention) := by
  rw [calculateToolsPerformance] at h
  cases hm : logs.foldlM (toolStep env) [] with
  | error e =>
    rw [hm] at h
    cases h
  | ok m =>
    rw [hm] at h
    change ((rt.order .toolStats m).mapM performingTool >>= _) = _ at h
    rw [mapM_total performingTool toolOf performingTool_eq] at h
    cases h
    exact ⟨m, rfl, rfl, rfl⟩

/-- What two runs return comes from one map of statistics. -/
theorem toolsPerformance_at (r : ToolsPerformance)
    (h : calculateToolsPerformance rt env logs = .ok r) (m : GoMap ToolPerformanceStats)
    (hm : logs.foldlM (toolStep env) [] = .ok m) :
    r.topPerformingTools =
        (rt.sortFunc (fun a b => b.totalCalls-a.totalCalls) (allTools rt m)).take 5 ∧
      r.toolsRequiringAttention = rt.sortFunc
        (fun a b => trunc (float64 (a.errorRate*100))-trunc (float64 (b.errorRate*100)))
        ((allTools rt m).filter needsAttention) := by
  obtain ⟨m', hm', hlists⟩ := toolsPerformance_eq rt env logs r h
  have hmm : m' = m := Except.ok.inj (hm'.symm.trans hm)
  rwa [hmm] at hlists

theorem recentSessions_eq (r : List RecentSession)
    (h : calculateRecentSessions rt env logs = .ok r) :
    ∃ m, logs.foldlM (sessionStep env) [] = .ok m ∧
      r = rt.sortFunc (fun a b => milliseconds (timeSub b.endedAt a.endedAt))
        ((rt.order .sessionData m).map (recentSession env)) := by
  rw [calculateRecentSessions] at h
  cases hm : logs.foldlM (sessionStep env) [] with
  | error e =>
    rw [hm] at h
    cases h
  | ok m =>
    rw [hm] at h
    cases h
    exact ⟨m, rfl, rfl⟩

theorem recentSessions_at (r : List RecentSession)
    (h : calculateRecentSessions rt env logs = .ok r) (m : GoMap SessionInfo)
    (hm : logs.foldlM (sessionStep env) [] = .ok m) :
    r = rt.sortFunc (fun a b => milliseconds (timeSub b.endedAt a.endedAt))
      ((rt.order .sessionData m).map (recentSession env)) := by
  obtain ⟨m', hm', hlist⟩ := recentSessions_eq rt env logs r h
  have hmm : m' = m := Except.ok.inj (hm'.symm.trans hm)
  rwa [hmm] at hlist

theorem overview_eq (previousLogs : List MCPServerLog) (o : Overview)
    (h : calculateOverviewWithComparison env logs previousLogs = .ok o) :
    o.totalSessionCount = countUniqueSessions logs ∧ o.totalToolCallsCount = logs.length := by
  rw [calculateOverviewWithComparison] at h
  cases hc : calculateLatencyAndErrorRate env logs with
  | error e =>
    rw [hc] at h
    cases h
  | ok current =>
    cases hp : calculateLatencyAndErrorRate env previousLogs with
    | error e =>
      rw [hc, hp] at h
      cases h
    | ok previous =>
      rw [hc, hp] at h
      cases h
      exact ⟨rfl, rfl⟩

/-- The result is put together from those of the calculators. -/
structure Assembled (previousLogs : List MCPServerLog) (a : ProjectAnalytics) : Prop where
  overview : calculateOverviewWithComparison env logs previousLogs = .ok a.overview
  toolsPerformance : calculateToolsPerformance rt env logs = .ok a.toolsPerformance
  recentSessions : calculateRecentSessions rt env logs = .ok a.recentSessions
  toolAnalytics : a.toolAnalytics = calculateToolAnalytics rt env logs
  promptAnalytics : a.promptAnalytics = calculatePromptAnalytics env logs
  clientUsage : a.clientUsage = calculateClientUsage rt env logs

theorem aggregate_assembled (previousLogs : List MCPServerLog) (a : ProjectAnalytics)
    (h : aggregateLogsToAnalyticsWithComparison rt env logs previousLogs = .ok a) :
    Assembled rt env logs previousLogs a := by
  rw [aggregateLogsToAnalyticsWithComparison] at h
  cases ho : calculateOverviewWithComparison env logs previousLogs with
  | error e =>
    rw [ho] at h
    cases h
  | ok o =>
    cases ht : calculateToolsPerformance rt env logs with
    | error e =>
      rw [ho, ht] at h
      cases h
    | ok t =>
      cases hr : calculateRecentSessions rt env logs with
      | error e =>
        rw [ho, ht, hr] at h
        cases h
      | ok r =>
        rw [ho, ht, hr] at h
        cases h
        exact ⟨ho, ht, hr, rfl, rfl, rfl⟩

end Calculators

/-! ## The views -/

section Views
variable (rt : Runtime) (env : Env) (logs : List MCPServerLog)

theorem clients_perm : ∃ m : GoMap ℤ,
    Groups (fun log => some (clientName env log)) (fun _ => 0) (fun _ n => n+1) logs m ∧
      (calculateClientUsage rt env logs).clients.Perm
        (m.map (fun entry => ⟨entry.1, entry.2⟩)) := by
  refine ⟨_, clientUsage_groups env logs, ?_⟩
  exact (rt.sortFunc_perm _ _).trans ((rt.order_perm _ _).map _)

theorem clients_requests :
    ((calculateClientUsage rt env logs).clients.map (fun c => c.requests)).sum = logs.length := by
  obtain ⟨m, hm, hperm⟩ := clients_perm rt env logs
  have htotal := groups_total (fun n => n) (fun _ => rfl) (fun _ _ => rfl) logs m hm
  have hkeys : (logs.filterMap (fun log => some (clientName env log))).length = logs.length := by
    rw [List.filterMap_eq_map', List.length_map]
  rw [(hperm.map (fun c => c.requests)).sum_eq, List.map_map, ← hkeys, ← htotal]
  rfl

theorem clients_names :
    ((calculateClientUsage rt env logs).clients.map (fun c => c.name)).Nodup := by
  obtain ⟨m, hm, hperm⟩ := clients_perm rt env logs
  rw [(hperm.map (fun c => c.name)).nodup_iff, List.map_map]
  exact hm.nodup

theorem clients_sorted :
    (calculateClientUsage rt env logs).clients.Pairwise (fun c c' => c'.requests ≤ c.requests) := by
  have hsorted := rt.sortFunc_sorted (fun a b : ClientUsageData => b.requests-a.requests)
  refine (hsorted _ ⟨fun a _ b _ => ?_, fun a _ b _ c _ hab hbc => ?_⟩).imp fun h => ?_
  · omega
  · omega
  · omega

theorem sessions_perm (r : List RecentSession) (h : calculateRecentSessions rt env logs = .ok r) :
    ∃ m, Groups getNormalizedSessionID newSession (addLog env) logs m ∧
      r.Perm (m.map (recentSession env)) := by
  obtain ⟨m, hm, rfl⟩ := recentSessions_eq rt env logs r h
  exact ⟨m, sessionData_groups env logs m hm,
    (rt.sortFunc_perm _ _).trans ((rt.order_perm _ _).map _)⟩

theorem sessions_calls (r : List RecentSession) (h : calculateRecentSessions rt env logs = .ok r) :
    (r.map (fun s => s.calls)).sum = (logs.filterMap getNormalizedSessionID).length := by
  obtain ⟨m, hm, hperm⟩ := sessions_perm rt env logs r h
  have htotal := groups_total (fun s => s.calls) (fun _ => rfl) (fun _ _ => rfl) logs m hm
  rw [(hperm.map (fun s => s.calls)).sum_eq, List.map_map, ← htotal]
  rfl

theorem sessions_ids (r : List RecentSession) (h : calculateRecentSessions rt env logs = .ok r) :
    (r.map (fun s => s.sessionID)).Perm (logs.filterMap getNormalizedSessionID).dedup := by
  obtain ⟨m, hm, hperm⟩ := sessions_perm rt env logs r h
  have hids := hperm.map (fun s => s.sessionID)
  rw [List.map_map] at hids
  exact hids.trans (groups_keys logs m hm)

theorem tools_perm : ∃ m : GoMap ToolAnalyticsData,
    Groups (toolKey env) (fun _ => {}) (addCall rt env) logs m ∧
      (calculateToolAnalytics rt env logs).Perm (m.map (fun entry => ⟨entry.1, entry.2.calls,
        (rt.order (.arguments entry.1) entry.2.arguments).map (toolArgument rt entry.1)⟩)) := by
  refine ⟨_, toolData_groups rt env logs, ?_⟩
  exact (rt.sortFunc_perm _ _).trans ((rt.order_perm _ _).map _)

theorem tools_calls :
    ((calculateToolAnalytics rt env logs).map (fun t => t.calls)).sum =
      (logs.filterMap (toolKey env)).length := by
  obtain ⟨m, hm, hperm⟩ := tools_perm rt env logs
  have htotal := groups_total (fun data => data.calls) (fun _ => rfl) (fun _ _ => rfl) logs m hm
  rw [(hperm.map (fun t => t.calls)).sum_eq, List.map_map, ← htotal]
  rfl

/-- The performance of a tool is listed under its name with its number of calls. -/
theorem tools_listed (m : GoMap ToolPerformanceStats) (h : logs.foldlM (toolStep env) [] = .ok m)
    (tool : PerformingTool) (ht : tool ∈ allTools rt m) :
    ∃ t ∈ calculateToolAnalytics rt env logs, t.name = tool.name ∧ t.calls = tool.totalCalls := by
  have hstats := toolStats_groups env logs m h
  obtain ⟨m', hm', hperm⟩ := tools_perm rt env logs
  obtain ⟨⟨k, stats⟩, he, rfl⟩ := List.mem_map.mp ht
  have hmem : (k, stats) ∈ m := (rt.order_perm _ _).mem_iff.mp he
  have hk : k ∈ m'.map Prod.fst := by
    rw [groups_key logs m' hm', ← groups_key logs m hstats]
    exact List.mem_map.mpr ⟨_, hmem, rfl⟩
  obtain ⟨⟨k', data⟩, hmem', rfl⟩ := List.mem_map.mp hk
  have hcalls := groups_count (fun s => s.totalCalls) (fun _ => rfl) (fun _ _ => rfl) logs m hstats
    k' stats hmem
  have hcalls' := groups_count (fun d => d.calls) (fun _ => rfl) (fun _ _ => rfl) logs m' hm'
    k' data hmem'
  exact ⟨_, hperm.mem_iff.mpr (List.mem_map.mpr ⟨_, hmem', rfl⟩), rfl, hcalls'.trans hcalls.symm⟩

end Views

/-- The views of a result agree with each other and with the logs. -/
structure ViewsAgree (env : Env) (logs : List MCPServerLog) (a : ProjectAnalytics) : Prop where
  toolCalls : a.overview.totalToolCallsCount = logs.length
  totalRequests : a.clientUsage.totalRequests = logs.length
  requests : (a.clientUsage.clients.map (fun c => c.requests)).sum = logs.length
  clients : (a.clientUsage.clients.map (fun c => c.name)).Nodup
  clientsSorted : a.clientUsage.clients.Pairwise (fun c c' => c'.requests ≤ c.requests)
  sessions : a.overview.totalSessionCount = a.recentSessions.length
  sessionIDs : (a.recentSessions.map (fun s => s.sessionID)).Nodup
  sessionCalls : (a.recentSessions.map (fun s => s.calls)).sum =
    logs.countP (fun log => log.mcpSessionID.any (fun s => s ≠ ""))
  calls : (a.toolAnalytics.map (fun t => t.calls)).sum =
    logs.countP (fun log => extractToolName env log.mcpRequest ≠ "")
  tools : ∀ tool ∈
    a.toolsPerformance.topPerformingTools++a.toolsPerformance.toolsRequiringAttention,
    ∃ t ∈ a.toolAnalytics, t.name = tool.name ∧ t.calls = tool.totalCalls

theorem keyed_length {β : Type} (key : β → Option String) (p : β → Bool)
    (h : ∀ b, (key b).isSome = p b) (bs : List β) : (bs.filterMap key).length = bs.countP p := by
  rw [List.length_filterMap_eq_countP]
  exact List.countP_congr (fun b _ => by rw [h b])

theorem sessionKey_isSome (log : MCPServerLog) :
    (getNormalizedSessionID log).isSome = log.mcpSessionID.any (fun s => s ≠ "") := by
  rw [getNormalizedSessionID]
  cases log.mcpSessionID with
  | none => rfl
  | some s => by_cases hs : s = "" <;> simp [Option.filter, hs]

theorem toolKey_isSome (env : Env) (log : MCPServerLog) :
    (toolKey env log).isSome = decide (extractToolName env log.mcpRequest ≠ "") := by
  rw [toolKey]
  by_cases h : extractToolName env log.mcpRequest = "" <;> simp [h]

/-- Whenever the aggregation returns, in any order of iteration, its views agree. -/
theorem aggregate_views_agree (rt : Runtime) (env : Env)
    (currentLogs previousLogs : List MCPServerLog) (a : ProjectAnalytics)
    (h : aggregateLogsToAnalyticsWithComparison rt env currentLogs previousLogs = .ok a) :
    ViewsAgree env currentLogs a := by
  obtain ⟨ho, ht, hr, htools, -, hclients⟩ :=
    aggregate_assembled rt env currentLogs previousLogs a h
  obtain ⟨hcount, hcalls⟩ := overview_eq env currentLogs previousLogs _ ho
  obtain ⟨m, hm, htop, hattention⟩ := toolsPerformance_eq rt env currentLogs _ ht
  have hids := sessions_ids rt env currentLogs _ hr
  constructor
  · exact hcalls
  · rw [hclients]
    rfl
  · rw [hclients]
    exact clients_requests rt env currentLogs
  · rw [hclients]
    exact clients_names rt env currentLogs
  · rw [hclients]
    exact clients_sorted rt env currentLogs
  · have hlength := hids.length_eq
    rw [List.length_map] at hlength
    rw [hcount, hlength]
    rfl
  · exact hids.nodup_iff.mpr (List.nodup_dedup _)
  · rw [sessions_calls rt env currentLogs _ hr, keyed_length _ _ sessionKey_isSome]
  · rw [htools, tools_calls, keyed_length _ _ (toolKey_isSome env)]
  · intro tool hmem
    rw [htools]
    apply tools_listed rt env currentLogs m hm
    rw [htop, hattention] at hmem
    rcases List.mem_append.mp hmem with h | h
    · exact (rt.sortFunc_perm _ _).mem_iff.mp (List.mem_of_mem_take h)
    · exact List.mem_of_mem_filter ((rt.sortFunc_perm _ _).mem_iff.mp h)

def demoLogs : List MCPServerLog :=
  [("s1", "tools/list"), ("s2", "tools/list"), ("s1", "initialize"), ("", "ping")].map (fun c =>
    { id := 1, userAccountID := none, mcpSessionID := some c.1, startedAt := 0, duration := 0
      deploymentRevisionID := 9, projectID := 7, authTokenDigest := none
      mcpRequest := some ⟨c.2, none, none⟩, mcpResponse := none, userAgent := some "cursor"
      httpStatusCode := some 200, httpError := none })

theorem aggregate_views_demo : ∃ a, ViewsAgree Env.demo demoLogs a := by
  have hrequested : ∀ log ∈ demoLogs++[], ¬ Unrequested log := by
    intro log hlog
    rintro ⟨-, response, hresponse, -⟩
    simp only [demoLogs, List.append_nil, List.mem_map] at hlog
    obtain ⟨c, -, rfl⟩ := hlog
    cases hresponse
  obtain ⟨a, ha⟩ := (aggregate_ok_iff Runtime.stable Env.demo demoLogs []).mpr hrequested
  exact ⟨a, aggregate_views_agree Runtime.stable Env.demo demoLogs [] a ha⟩

end Jetski.AnalyticsViews
