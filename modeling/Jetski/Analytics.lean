import Mathlib.Data.Int.Log
import Mathlib.Data.Rat.Floor
import Mathlib.Data.List.Dedup
import Mathlib.Data.List.Infix
import Jetski.Types

/-!
# Analytics of server logs

The logs of the current and the previous period are aggregated by several
calculators. A nil pointer that is read or an integer that is divided by zero
ends the aggregation with a panic. The order in which maps are iterated and the
sorting of the standard library are parameters. Floating-point numbers are
rationals, rounded after every operation.
-/

set_option autoImplicit false

namespace Jetski.Analytics

open Schema Jetski.Types

inductive Panic where
  | nilDereference
  | divisionByZero
  deriving DecidableEq, Repr

/-- The loops over maps. The loops in the body of another one are told apart by
what the outer one has reached. -/
inductive MapLoop where
  | toolStats
  | extractArguments (toolName : String) (calls : ℤ)
  | toolData
  | arguments (toolName : String)
  | values (toolName argName : String)
  | clientUsage
  | sessionData
  deriving DecidableEq, Repr

/-- The comparison orders the elements of a list, with ties. -/
structure Orders {α : Type} (cmp : α → α → ℤ) (l : List α) : Prop where
  total : ∀ a ∈ l, ∀ b ∈ l, cmp a b ≤ 0 ∨ cmp b a ≤ 0
  trans : ∀ a ∈ l, ∀ b ∈ l, ∀ c ∈ l, cmp a b ≤ 0 → cmp b c ≤ 0 → cmp a c ≤ 0

/-- Map iteration and `slices.SortFunc`. -/
structure Runtime where
  order : MapLoop → {α : Type} → List α → List α
  order_perm : ∀ (loop : MapLoop) {α : Type} (l : List α), (order loop l).Perm l
  sortFunc : {α : Type} → (α → α → ℤ) → List α → List α
  sortFunc_perm : ∀ {α : Type} (cmp : α → α → ℤ) (l : List α), (sortFunc cmp l).Perm l
  sortFunc_sorted : ∀ {α : Type} (cmp : α → α → ℤ) (l : List α), Orders cmp l →
    (sortFunc cmp l).Pairwise (fun a b => cmp a b ≤ 0)

/-- Insertion only compares elements of the list. -/
theorem insertionSort_sorted {α : Type} (cmp : α → α → ℤ) (l : List α) (h : Orders cmp l) :
    (l.insertionSort (fun a b => cmp a b ≤ 0)).Pairwise (fun a b => cmp a b ≤ 0) := by
  let le : {a // a ∈ l} → {a // a ∈ l} → Prop := fun a b => cmp a b ≤ 0
  have : Std.Total le := ⟨fun a b => h.total a a.2 b b.2⟩
  have : IsTrans _ le := ⟨fun a b c => h.trans a a.2 b b.2 c c.2⟩
  have hsort := List.map_insertionSort le (fun a b => cmp a b ≤ 0) Subtype.val l.attach
    (fun _ _ _ _ => Iff.rfl)
  rw [List.attach_map_subtype_val] at hsort
  rw [← hsort, List.pairwise_map]
  exact List.pairwise_insertionSort le l.attach

def Runtime.stable : Runtime where
  order _ _ l := l
  order_perm _ _ _ := .refl _
  sortFunc cmp l := l.insertionSort (fun a b => cmp a b ≤ 0)
  sortFunc_perm _ l := List.perm_insertionSort _ l
  sortFunc_sorted := insertionSort_sorted

abbrev Float64 := ℚ

def roundEven (q : ℚ) : ℤ :=
  if q-⌊q⌋ < 1/2 then ⌊q⌋
  else if 1/2 < q-⌊q⌋ then ⌊q⌋+1
  else if ⌊q⌋ % 2 = 0 then ⌊q⌋ else ⌊q⌋+1

/-- The nearest number with 53 significant bits, ties to even. -/
def float64 (q : ℚ) : Float64 :=
  if q = 0 then 0
  else roundEven (q/2^(Int.log 2 |q|-52))*2^(Int.log 2 |q|-52)

/-- The conversion of a float to an integer drops the fraction. -/
def trunc (q : Float64) : ℤ := if 0 ≤ q then ⌊q⌋ else ⌈q⌉

def div (a b : ℤ) : Except Panic ℤ :=
  if b = 0 then .error .divisionByZero else .ok (a.tdiv b)

def milliseconds (d : Duration) : ℤ := (d/1000000).toInt

/-- `Time.Sub` saturates. -/
def timeSub (t u : Time) : Duration :=
  Int64.ofInt (max Int64.minValue.toInt (min Int64.maxValue.toInt (t-u)))

abbrev GoMap (α : Type) := List (String × α)

def update {α : Type} (m : GoMap α) (k : String) (init : α) (f : α → α) : GoMap α :=
  match m with
  | [] => [(k, f init)]
  | (k', a)::m => if k' = k then (k', f a)::m else (k', a)::update m k init f

/-! ## Fields of a log -/

/-- `MCPServerLog.IsError` -/
def isError (env : Env) (log : MCPServerLog) : Except Panic Bool :=
  if log.httpStatusCode.any (fun code => 400 ≤ code) then .ok true
  else
    match log.mcpResponse with
    | none => .ok false
    | some response =>
      if response.error.isSome then .ok true
      else
        match log.mcpRequest with
        | none => .error .nilDereference
        | some request =>
          if request.method = "tools/call" then
            .ok ((response.result.bind env.callToolResult).getD false)
          else .ok false

def extractToolName (env : Env) (mcpRequest : Option Request) : String :=
  match mcpRequest with
  | none => ""
  | some r =>
    if r.method = "tools/call" then
      match r.params.bind env.callToolParams with
      | some params => params.1
      | none => r.method
    else r.method

def stringArg (env : Env) : Json → String
  | .string s => s
  | j => env.marshal j

/-- The arguments of a tool call; of equal names the last one counts. -/
def arguments (env : Env) (mcpRequest : Option Request) : Option (GoMap Json) := do
  let r ← mcpRequest
  if r.method = "tools/call" then
    match ← r.params.bind env.callToolParams with
    | (_, .object fields) =>
      return fields.foldl (fun m a => update m a.1 a.2 (fun _ => a.2)) []
    | _ => none
  else none

def extractArguments (env : Env) (mcpRequest : Option Request) : GoMap String :=
  ((arguments env mcpRequest).getD []).map (fun a => (a.1, stringArg env a.2))

def getNormalizedSessionID (log : MCPServerLog) : Option String :=
  log.mcpSessionID.filter (fun s => s ≠ "")

def contains (s sub : String) : Bool := sub.toList <:+: s.toList

def getNormalizedUserAgent (env : Env) (userAgent : String) : String :=
  let ua := env.toLower userAgent
  if contains ua "cursor" then "cursor"
  else if contains ua "claude" then
    if contains ua "code" then "claude_code" else "claude_pro"
  else if contains ua "chatgpt" || contains ua "openai" then "chatgpt"
  else if contains ua "node" then "node"
  else "other"

def countUniqueFunc {β : Type} [DecidableEq β] (logs : List MCPServerLog)
    (p : MCPServerLog → Option β) : ℕ :=
  (logs.filterMap p).dedup.length

def countUniqueSessions (logs : List MCPServerLog) : ℕ :=
  countUniqueFunc logs getNormalizedSessionID

def countUniqueUsers (logs : List MCPServerLog) : ℕ :=
  countUniqueFunc logs (fun log => log.userAccountID)

/-! ## Overview -/

structure Overview where
  totalSessionCount : ℤ
  totalSessionChange : Float64
  totalToolCallsCount : ℤ
  totalToolCallsChange : Float64
  usersCount : ℤ
  usersChange : Float64
  avgLatencyValue : ℤ
  avgLatencyChange : Float64
  errorRateValue : Float64
  errorRateChange : Float64

def totalDuration (logs : List MCPServerLog) : Duration :=
  logs.foldl (fun d log => d+log.duration) 0

def countErrors (env : Env) (logs : List MCPServerLog) : Except Panic ℤ :=
  logs.foldlM (fun n log => (isError env log).map (fun e => if e then n+1 else n)) 0

def calculateLatencyAndErrorRate (env : Env) (logs : List MCPServerLog) :
    Except Panic (ℤ × Float64) :=
  if logs = [] then .ok (0, 0)
  else do
    let avgLatency ← div (milliseconds (totalDuration logs)) logs.length
    let errorCount ← countErrors env logs
    return (avgLatency, float64 (float64 errorCount/float64 logs.length))

/-- The previous value is the divisor of a float division, which does not panic. -/
def calculatePercentageChange {α : Type} [DecidableEq α] [Zero α] (sub : α → α → α)
    (toFloat : α → Float64) (previous current : α) : Float64 :=
  if previous = 0 then
    if current = 0 then 0 else 1
  else float64 (toFloat (sub current previous)/toFloat previous)

def changeInt (previous current : ℤ) : Float64 :=
  calculatePercentageChange (fun a b => a-b) (fun a => float64 a) previous current

def changeFloat (previous current : Float64) : Float64 :=
  calculatePercentageChange (fun a b => float64 (a-b)) (fun a => a) previous current

def calculateOverviewWithComparison (env : Env) (currentLogs previousLogs : List MCPServerLog) :
    Except Panic Overview := do
  let current ← calculateLatencyAndErrorRate env currentLogs
  let previous ← calculateLatencyAndErrorRate env previousLogs
  return {
    totalSessionCount := countUniqueSessions currentLogs
    totalSessionChange := changeInt (countUniqueSessions previousLogs)
      (countUniqueSessions currentLogs)
    totalToolCallsCount := currentLogs.length
    totalToolCallsChange := changeInt previousLogs.length currentLogs.length
    usersCount := countUniqueUsers currentLogs
    usersChange := changeInt (countUniqueUsers previousLogs) (countUniqueUsers currentLogs)
    avgLatencyValue := current.1
    avgLatencyChange := changeInt previous.1 current.1
    errorRateValue := current.2
    errorRateChange := changeFloat previous.2 current.2 }

/-! ## Tools -/

structure ToolPerformanceStats where
  totalCalls : ℤ := 0
  errorCalls : ℤ := 0
  totalDuration : Duration := 0

structure PerformingTool where
  name : String
  totalCalls : ℤ
  errorRate : Float64
  avgLatency : ℤ

structure ToolsPerformance where
  topPerformingTools : List PerformingTool
  toolsRequiringAttention : List PerformingTool

def toolStep (env : Env) (toolStats : GoMap ToolPerformanceStats) (log : MCPServerLog) :
    Except Panic (GoMap ToolPerformanceStats) :=
  let toolName := extractToolName env log.mcpRequest
  if toolName = "" then .ok toolStats
  else (isError env log).map (fun e => update toolStats toolName {} (fun stats => {
    totalCalls := stats.totalCalls+1
    errorCalls := if e then stats.errorCalls+1 else stats.errorCalls
    totalDuration := stats.totalDuration+log.duration }))

def performingTool (entry : String × ToolPerformanceStats) : Except Panic PerformingTool :=
  let (toolName, stats) := entry
  if 0 < stats.totalCalls then
    (div (milliseconds stats.totalDuration) stats.totalCalls).map (fun avgLatency =>
      ⟨toolName, stats.totalCalls,
        float64 (float64 stats.errorCalls/float64 stats.totalCalls), avgLatency⟩)
  else .ok ⟨toolName, stats.totalCalls, 0, 0⟩

def needsAttention (tool : PerformingTool) : Bool :=
  float64 (5/100) < tool.errorRate ∨ 1000 < tool.avgLatency

def calculateToolsPerformance (rt : Runtime) (env : Env) (logs : List MCPServerLog) :
    Except Panic ToolsPerformance := do
  let toolStats ← logs.foldlM (toolStep env) []
  let allTools ← (rt.order .toolStats toolStats).mapM performingTool
  return {
    topPerformingTools :=
      (rt.sortFunc (fun a b => b.totalCalls-a.totalCalls) allTools).take 5
    toolsRequiringAttention :=
      rt.sortFunc (fun a b => trunc (float64 (a.errorRate*100))-trunc (float64 (b.errorRate*100)))
        (allTools.filter needsAttention) }

structure ArgumentValue where
  name : String
  count : ℤ

structure ToolArgument where
  name : String
  usageCount : ℤ
  values : List ArgumentValue

structure McpTool where
  name : String
  calls : ℤ
  arguments : List ToolArgument

structure ToolAnalyticsData where
  calls : ℤ := 0
  arguments : GoMap (GoMap ℤ) := []

def toolAnalyticsStep (rt : Runtime) (env : Env) (toolData : GoMap ToolAnalyticsData)
    (log : MCPServerLog) : GoMap ToolAnalyticsData :=
  let toolName := extractToolName env log.mcpRequest
  if toolName = "" then toolData
  else update toolData toolName {} (fun data => {
    calls := data.calls+1
    arguments := (rt.order (.extractArguments toolName data.calls)
      (extractArguments env log.mcpRequest)).foldl (fun m a =>
        update m a.1 [] (fun values => update values a.2 0 (fun n => n+1))) data.arguments })

def toolArgument (rt : Runtime) (toolName : String) (entry : String × GoMap ℤ) :
    ToolArgument where
  name := entry.1
  usageCount := (entry.2.map (fun v => v.2)).sum
  values := (rt.order (.values toolName entry.1) entry.2).map (fun v => ⟨v.1, v.2⟩)

/-- `strings.Compare` -/
def compareStrings (a b : String) : ℤ := if a < b then -1 else if a = b then 0 else 1

def calculateToolAnalytics (rt : Runtime) (env : Env) (logs : List MCPServerLog) : List McpTool :=
  let toolData := logs.foldl (toolAnalyticsStep rt env) []
  rt.sortFunc (fun a b => compareStrings a.name b.name)
    ((rt.order .toolData toolData).map (fun entry => ⟨entry.1, entry.2.calls,
      (rt.order (.arguments entry.1) entry.2.arguments).map (toolArgument rt entry.1)⟩))

/-! ## Prompts, clients and sessions -/

structure MCPPrompt where
  id : UUID
  toolName : String
  prompt : String

def promptOf (env : Env) (log : MCPServerLog) : Option MCPPrompt := do
  let argMap ← arguments env log.mcpRequest
  let params ← log.mcpRequest.bind (fun r => r.params.bind env.callToolParams)
  match ← argMap.lookup "hyprmcpPromptAnalytics" with
  | .string prompt => return ⟨log.id, params.1, prompt⟩
  | _ => none

def maxResults : ℕ := 25

/-- The loop over the logs, which ends early once the result is full. -/
def promptLoop (env : Env) : List MCPServerLog → List MCPPrompt → List MCPPrompt
  | [], result => result
  | log::logs, result =>
    match promptOf env log with
    | none => promptLoop env logs result
    | some prompt =>
      if (result++[prompt]).length ≥ maxResults then result++[prompt]
      else promptLoop env logs (result++[prompt])

def calculatePromptAnalytics (env : Env) (logs : List MCPServerLog) : List MCPPrompt :=
  promptLoop env logs.reverse []

structure ClientUsageData where
  name : String
  requests : ℤ

structure ClientUsage where
  totalRequests : ℤ
  clients : List ClientUsageData

def clientName (env : Env) (log : MCPServerLog) : String :=
  match log.userAgent with
  | none => "unknown"
  | some userAgent => getNormalizedUserAgent env userAgent

def calculateClientUsage (rt : Runtime) (env : Env) (logs : List MCPServerLog) : ClientUsage where
  totalRequests := logs.length
  clients :=
    let usage := logs.foldl (fun m log => update m (clientName env log) 0 (fun n => n+1)) []
    rt.sortFunc (fun a b => b.requests-a.requests)
      ((rt.order .clientUsage usage).map (fun entry => ⟨entry.1, entry.2⟩))

structure SessionInfo where
  firstStartedAt : Time
  lastStartedAt : Time
  lastDuration : Duration
  calls : ℤ := 0
  errors : ℤ := 0
  userAgent : String := ""
  lastToolCall : String := ""

structure RecentSession where
  sessionID : String
  user : String
  calls : ℤ
  errors : ℤ
  lastToolCall : String
  startedAt : Time
  endedAt : Time

def SessionInfo.extend (env : Env) (log : MCPServerLog) (e : Bool) (session : SessionInfo) :
    SessionInfo :=
  let toolName := extractToolName env log.mcpRequest
  let later := decide (session.lastStartedAt+session.lastDuration.toInt <
    log.startedAt+log.duration.toInt)
  { session with
    lastStartedAt := if later then log.startedAt else session.lastStartedAt
    lastDuration := if later then log.duration else session.lastDuration
    calls := session.calls+1
    errors := if e then session.errors+1 else session.errors
    userAgent := log.userAgent.getD session.userAgent
    lastToolCall := if toolName ≠ "" then toolName else session.lastToolCall }

def sessionStep (env : Env) (sessionData : GoMap SessionInfo) (log : MCPServerLog) :
    Except Panic (GoMap SessionInfo) :=
  match getNormalizedSessionID log with
  | none => .ok sessionData
  | some sessionID => (isError env log).map (fun e =>
      update sessionData sessionID ⟨log.startedAt, log.startedAt, log.duration, 0, 0, "", ""⟩
        (fun session => session.extend env log e))

def recentSession (env : Env) (entry : String × SessionInfo) : RecentSession where
  sessionID := entry.1
  user := getNormalizedUserAgent env entry.2.userAgent
  calls := entry.2.calls
  errors := entry.2.errors
  lastToolCall := entry.2.lastToolCall
  startedAt := entry.2.firstStartedAt
  endedAt := entry.2.lastStartedAt+entry.2.lastDuration.toInt

def calculateRecentSessions (rt : Runtime) (env : Env) (logs : List MCPServerLog) :
    Except Panic (List RecentSession) := do
  let sessionData ← logs.foldlM (sessionStep env) []
  return rt.sortFunc (fun a b => milliseconds (timeSub b.endedAt a.endedAt))
    ((rt.order .sessionData sessionData).map (recentSession env))

structure ProjectAnalytics where
  overview : Overview
  toolsPerformance : ToolsPerformance
  toolAnalytics : List McpTool
  promptAnalytics : List MCPPrompt
  clientUsage : ClientUsage
  recentSessions : List RecentSession

def aggregateLogsToAnalyticsWithComparison (rt : Runtime) (env : Env)
    (currentLogs previousLogs : List MCPServerLog) : Except Panic ProjectAnalytics := do
  let overview ← calculateOverviewWithComparison env currentLogs previousLogs
  let toolsPerformance ← calculateToolsPerformance rt env currentLogs
  let recentSessions ← calculateRecentSessions rt env currentLogs
  return {
    overview := overview
    toolsPerformance := toolsPerformance
    toolAnalytics := calculateToolAnalytics rt env currentLogs
    promptAnalytics := calculatePromptAnalytics env currentLogs
    clientUsage := calculateClientUsage rt env currentLogs
    recentSessions := recentSessions }

/-! ## When the aggregation returns -/

/-- Neither the status nor the response of the log reports an error, and the
request that belongs to the response is missing. -/
def Unrequested (log : MCPServerLog) : Prop :=
  ¬ log.httpStatusCode.any (fun code => 400 ≤ code) ∧
    ∃ response, log.mcpResponse = some response ∧ response.error = none ∧ log.mcpRequest = none

theorem isError_ok_iff (env : Env) (log : MCPServerLog) :
    (∃ e, isError env log = .ok e) ↔ ¬ Unrequested log := by
  simp only [isError, Unrequested]
  split
  · next h => simp [h]
  · next h =>
    split
    · next hr => simp [hr]
    · next response hr =>
      split
      · next he =>
        have : response.error ≠ none := by simpa [Option.isSome_iff_ne_none] using he
        simp [hr, this]
      · next he =>
        have hn : response.error = none := by simpa using he
        split
        · next hq => simp [h, hr, hn, hq]
        · next request hq =>
          simp only [hq, reduceCtorEq, and_false, exists_false, not_false_eq_true, iff_true]
          split <;> exact ⟨_, rfl⟩

/-- A fold returns exactly if each of its steps does, when whether a step
returns does not depend on the state it starts in. -/
theorem foldlM_ok_iff {α β : Type} (f : β → α → Except Panic β) (ok : α → Prop)
    (hf : ∀ b a, (∃ b', f b a = .ok b') ↔ ok a) (as : List α) (b : β) :
    (∃ b', as.foldlM f b = .ok b') ↔ ∀ a ∈ as, ok a := by
  induction as generalizing b with
  | nil => simp [List.foldlM, pure, Except.pure]
  | cons a as ih =>
    rw [List.forall_mem_cons, ← hf b a, List.foldlM_cons]
    cases h : f b a with
    | error e => simp [bind, Except.bind]
    | ok b' =>
      simp only [bind, Except.bind, Except.ok.injEq, exists_eq', true_and]
      exact ih b'

theorem foldlM_ok {α β : Type} (f : β → α → Except Panic β) (as : List α)
    (hf : ∀ b, ∀ a ∈ as, ∃ b', f b a = .ok b') (b : β) : ∃ b', as.foldlM f b = .ok b' := by
  induction as generalizing b with
  | nil => exact ⟨b, rfl⟩
  | cons a as ih =>
    obtain ⟨b', h⟩ := hf b a (by simp)
    rw [List.foldlM_cons, h]
    exact ih (fun b a ha => hf b a (by simp [ha])) b'

theorem mapM_ok {α β : Type} (f : α → Except Panic β) (as : List α)
    (hf : ∀ a ∈ as, ∃ b, f a = .ok b) : ∃ bs, as.mapM f = .ok bs := by
  induction as with
  | nil => exact ⟨[], rfl⟩
  | cons a as ih =>
    obtain ⟨b, hb⟩ := hf a (by simp)
    obtain ⟨bs, hbs⟩ := ih (fun a' ha => hf a' (by simp [ha]))
    rw [List.mapM_cons, hb, hbs]
    exact ⟨b::bs, rfl⟩

theorem map_ok_iff {α β : Type} (r : Except Panic α) (f : α → β) :
    (∃ b, r.map f = .ok b) ↔ ∃ a, r = .ok a := by
  cases r <;> simp [Except.map]

theorem div_length (a : ℤ) (logs : List MCPServerLog) (h : logs ≠ []) :
    ∃ q, div a logs.length = .ok q := by
  have : (logs.length : ℤ) ≠ 0 := by
    simpa using h
  exact ⟨_, if_neg this⟩

theorem countErrors_ok_iff (env : Env) (logs : List MCPServerLog) :
    (∃ n, countErrors env logs = .ok n) ↔ ∀ log ∈ logs, ¬ Unrequested log :=
  foldlM_ok_iff _ _ (fun _ log => (map_ok_iff _ _).trans (isError_ok_iff env log)) logs 0

theorem latency_ok_iff (env : Env) (logs : List MCPServerLog) :
    (∃ r, calculateLatencyAndErrorRate env logs = .ok r) ↔ ∀ log ∈ logs, ¬ Unrequested log := by
  rw [calculateLatencyAndErrorRate]
  split
  · next h => simp [h]
  · next h =>
    obtain ⟨q, hq⟩ := div_length (milliseconds (totalDuration logs)) logs h
    rw [← countErrors_ok_iff env logs, hq]
    simp only [bind, Except.bind]
    cases countErrors env logs <;> simp [pure, Except.pure]

theorem performingTool_ok (entry : String × ToolPerformanceStats) :
    ∃ tool, performingTool entry = .ok tool := by
  rw [performingTool]
  split
  · next h =>
    have : entry.2.totalCalls ≠ 0 := by omega
    exact (map_ok_iff _ _).mpr ⟨_, if_neg this⟩
  · exact ⟨_, rfl⟩

theorem toolsPerformance_ok (rt : Runtime) (env : Env) (logs : List MCPServerLog)
    (h : ∀ log ∈ logs, ¬ Unrequested log) : ∃ r, calculateToolsPerformance rt env logs = .ok r := by
  have hstep : ∀ m, ∀ log ∈ logs, ∃ m', toolStep env m log = .ok m' := by
    intro m log hlog
    simp only [toolStep]
    split
    · exact ⟨m, rfl⟩
    · exact (map_ok_iff _ _).mpr ((isError_ok_iff env log).mpr (h log hlog))
  obtain ⟨stats, hstats⟩ := foldlM_ok (toolStep env) logs hstep []
  obtain ⟨tools, htools⟩ := mapM_ok performingTool (rt.order .toolStats stats)
    (fun entry _ => performingTool_ok entry)
  simp only [calculateToolsPerformance, hstats, htools, bind, Except.bind]
  exact ⟨_, rfl⟩

theorem recentSessions_ok (rt : Runtime) (env : Env) (logs : List MCPServerLog)
    (h : ∀ log ∈ logs, ¬ Unrequested log) : ∃ r, calculateRecentSessions rt env logs = .ok r := by
  have hstep : ∀ m, ∀ log ∈ logs, ∃ m', sessionStep env m log = .ok m' := by
    intro m log hlog
    simp only [sessionStep]
    split
    · exact ⟨m, rfl⟩
    · exact (map_ok_iff _ _).mpr ((isError_ok_iff env log).mpr (h log hlog))
  obtain ⟨sessions, hsessions⟩ := foldlM_ok (sessionStep env) logs hstep []
  simp only [calculateRecentSessions, hsessions, bind, Except.bind]
  exact ⟨_, rfl⟩

/-- The aggregation returns exactly if no log of either period is a response
without error whose request is missing. -/
theorem aggregate_ok_iff (rt : Runtime) (env : Env) (currentLogs previousLogs : List MCPServerLog) :
    (∃ a, aggregateLogsToAnalyticsWithComparison rt env currentLogs previousLogs = .ok a) ↔
      ∀ log ∈ currentLogs++previousLogs, ¬ Unrequested log := by
  rw [List.forall_mem_append, ← latency_ok_iff env previousLogs]
  constructor
  · rintro ⟨a, h⟩
    rw [← latency_ok_iff env currentLogs]
    simp only [aggregateLogsToAnalyticsWithComparison, calculateOverviewWithComparison, bind,
      Except.bind] at h
    cases hc : calculateLatencyAndErrorRate env currentLogs with
    | error e => simp [hc] at h
    | ok c =>
      cases hp : calculateLatencyAndErrorRate env previousLogs with
      | error e => simp [hc, hp] at h
      | ok p => exact ⟨⟨c, rfl⟩, p, rfl⟩
  · rintro ⟨hcur, p, hp⟩
    obtain ⟨c, hc⟩ := (latency_ok_iff env currentLogs).mpr hcur
    obtain ⟨tools, htools⟩ := toolsPerformance_ok rt env currentLogs hcur
    obtain ⟨sessions, hsessions⟩ := recentSessions_ok rt env currentLogs hcur
    simp only [aggregateLogsToAnalyticsWithComparison, calculateOverviewWithComparison, hc, hp,
      htools, hsessions, bind, Except.bind]
    exact ⟨_, rfl⟩

end Jetski.Analytics
