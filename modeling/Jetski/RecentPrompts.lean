import Jetski.PromptReaders

/-!
# The recent prompts

The logs are walked from the last to the first until the result is full. Only a
log with a prompt takes a place in it, so the result lists the newest prompts.
-/

set_option autoImplicit false

namespace Jetski.RecentPrompts

open Schema Jetski.Types Queries Analytics PromptReaders

section Loop
variable (env : Env)

/-- What is still to come is cut to the places that are left. -/
theorem promptLoop_take (logs : List MCPServerLog) (result : List MCPPrompt)
    (h : result.length < maxResults) : promptLoop env logs result =
      result++(logs.filterMap (promptOf env)).take (maxResults-result.length) := by
  induction logs generalizing result with
  | nil => simp [promptLoop]
  | cons log logs ih =>
    rw [promptLoop, List.filterMap_cons]
    cases promptOf env log with
    | none => exact ih result h
    | some prompt =>
      have hlen : (result++[prompt]).length = result.length+1 := by simp
      have hleft : maxResults-result.length = maxResults-(result.length+1)+1 := by omega
      simp only [hlen]
      rw [hleft, List.take_succ_cons]
      by_cases hfull : result.length+1 ≥ maxResults
      · have hzero : maxResults-(result.length+1) = 0 := by omega
        rw [if_pos hfull, hzero, List.take_zero]
      · rw [if_neg hfull, ih _ (by omega), hlen, List.append_assoc, List.singleton_append]

theorem calculatePromptAnalytics_take (logs : List MCPServerLog) :
    calculatePromptAnalytics env logs =
      (logs.reverse.filterMap (promptOf env)).take maxResults := by
  rw [calculatePromptAnalytics, promptLoop_take env _ [] (by decide), List.nil_append]
  rfl

/-- The request is a tool call that can be decoded and passes the prompt. -/
def Prompts (log : MCPServerLog) (p : MCPPrompt) : Prop :=
  ∃ r params args prompt, log.mcpRequest = some r ∧
    r.method = "tools/call" ∧ r.params = some params ∧
    env.callToolParams params = some (p.toolName, .object args) ∧
    field args "hyprmcpPromptAnalytics" = some (.string prompt) ∧
    p = ⟨log.id, p.toolName, prompt⟩

def prompting (logs : List MCPServerLog) : List MCPServerLog :=
  logs.filter (fun log => (promptOf env log).isSome)

/-- The prompts are those of the newest logs with one, the newest first. -/
structure Newest (logs : List MCPServerLog) (prompts : List MCPPrompt)
    (older newest : List MCPServerLog) : Prop where
  split : prompting env logs = older++newest
  length : newest.length = min maxResults (prompting env logs).length
  prompts : newest.reverse.map (promptOf env) = prompts.map some
  sorted : newest.reverse.Pairwise (fun log log' => log'.startedAt ≤ log.startedAt)
  recent : ∀ log ∈ older, ∀ log' ∈ newest, log.startedAt ≤ log'.startedAt

theorem filterMap_prompting (logs : List MCPServerLog) :
    (logs.filterMap (promptOf env)).map some = (prompting env logs).map (promptOf env) := by
  induction logs with
  | nil => rfl
  | cons log logs ih =>
    rw [prompting] at ih ⊢
    rw [List.filterMap_cons, List.filter_cons]
    cases hp : promptOf env log with
    | none => simpa [hp] using ih
    | some p => simpa [hp] using ih

/-- Of logs in the order of their start the newest calls with a prompt are returned, the newest
first. -/
theorem calculatePromptAnalytics_newest (logs : List MCPServerLog)
    (hsorted : logs.Pairwise (fun log log' => log.startedAt ≤ log'.startedAt)) :
    calculatePromptAnalytics env logs = (logs.reverse.filterMap (promptOf env)).take 25 ∧
      (∀ log p, promptOf env log = some p ↔ Prompts env log p) ∧
      ∃ older newest, Newest env logs (calculatePromptAnalytics env logs) older newest := by
  have htake := calculatePromptAnalytics_take env logs
  refine ⟨htake, promptOf_iff env, ?_⟩
  have hkept : (prompting env logs).Pairwise (fun log log' => log.startedAt ≤ log'.startedAt) :=
    hsorted.filter _
  have hsplit := (List.take_append_drop ((prompting env logs).length-maxResults)
    (prompting env logs)).symm
  rw [hsplit, List.pairwise_append] at hkept
  refine ⟨_, _, hsplit, ?_, ?_, ?_, hkept.2.2⟩
  · rw [List.length_drop]
    omega
  · have hreverse : prompting env logs.reverse = (prompting env logs).reverse :=
      List.filter_reverse
    rw [htake, List.map_take, filterMap_prompting, hreverse, ← List.map_take, List.take_reverse]
  · rw [List.pairwise_reverse]
    exact hkept.2.1

end Loop

def demoLogs : List MCPServerLog :=
  [{ promptLog "tools/call" with id := 1 }, { promptLog "tools/list" with id := 2, startedAt := 1 }]

theorem calculatePromptAnalytics_demo :
    calculatePromptAnalytics decodingEnv demoLogs = [⟨1, "search", "docs?"⟩] ∧ ∃ older newest,
      Newest decodingEnv demoLogs (calculatePromptAnalytics decodingEnv demoLogs) older newest := by
  have h := calculatePromptAnalytics_newest decodingEnv demoLogs (by decide)
  exact ⟨h.1.trans rfl, h.2.2⟩

end Jetski.RecentPrompts
