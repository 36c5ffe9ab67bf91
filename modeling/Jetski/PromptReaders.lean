import Jetski.Analytics
import Jetski.Logs
import Jetski.Tally

/-!
# The two readers of prompts

The list of prompts is read by the database out of the stored requests, whatever
their method is, and the analytics decode the parameters of tool calls. The
readers agree on a request if it is a tool call with a name and a prompt, and
if neither of them finds a prompt.
-/

set_option autoImplicit false

namespace Jetski.PromptReaders

open Relational Schema Jetski.Types Queries Logs

/-! ## The decoder -/

section Decoder
variable (equalFold : String → String → Bool)

/-- The values of the fields whose names are equal up to letter case, in their order. -/
def fieldsLike (fields : List (String × Json)) (name : String) : List Json :=
  (fields.filter (fun f => equalFold f.1 name)).map (fun f => f.2)

/-- A later text replaces an earlier one and null leaves it as it is. -/
def decodeString : String → List Json → Option String
  | s, [] => some s
  | _, .string s::js => decodeString s js
  | s, .null::js => decodeString s js
  | _, _::_ => none

def isMeta : Json → Bool
  | .object _ => true
  | .null => true
  | _ => false

/-- `json.Unmarshal` of an `mcp.CallToolParams`. -/
def decodeParams : Json → Option (String × Json)
  | .object fields =>
    if (fieldsLike equalFold fields "_meta").all isMeta then
      (decodeString "" (fieldsLike equalFold fields "name")).map (fun name =>
        (name, (fieldsLike equalFold fields "arguments").getLast?.getD .null))
    else none
  | .null => some ("", .null)
  | _ => none

/-- The decoder ignores letter case, and a later field overwrites an earlier one. -/
def Decodes (env : Env) : Prop :=
  ∀ params, env.callToolParams params = decodeParams equalFold params

/-- The fields that the decoder reads hold a name and, in an object, a prompt. -/
def Passes (fields : List (String × Json)) (name prompt : String) : Prop :=
  (fieldsLike equalFold fields "_meta").all isMeta ∧
    decodeString "" (fieldsLike equalFold fields "name") = some name ∧
    ∃ args, (fieldsLike equalFold fields "arguments").getLast? = some (.object args) ∧
      field args "hyprmcpPromptAnalytics" = some (.string prompt)

theorem decodeParams_iff (params : Json) (name : String) (args : List (String × Json)) :
    decodeParams equalFold params = some (name, .object args) ↔ ∃ fields,
      params = .object fields ∧ (fieldsLike equalFold fields "_meta").all isMeta ∧
      decodeString "" (fieldsLike equalFold fields "name") = some name ∧
      (fieldsLike equalFold fields "arguments").getLast? = some (.object args) := by
  cases params with
  | object fields =>
    rw [decodeParams]
    by_cases hmeta : (fieldsLike equalFold fields "_meta").all isMeta
    · rw [if_pos hmeta, Option.map_eq_some_iff]
      constructor
      · rintro ⟨name', hname, h⟩
        cases hlast : (fieldsLike equalFold fields "arguments").getLast? with
        | none =>
          rw [hlast] at h
          cases h
        | some j =>
          rw [hlast] at h
          cases h
          exact ⟨fields, rfl, hmeta, hname, hlast⟩
      · rintro ⟨fields', heq, -, hname, hlast⟩
        cases heq
        exact ⟨name, hname, by rw [hlast, Option.getD_some]⟩
    · rw [if_neg hmeta]
      constructor
      · intro h
        cases h
      · rintro ⟨fields', heq, hmeta', -⟩
        cases heq
        exact absurd hmeta' hmeta
  | null => simp [decodeParams]
  | _ => simp [decodeParams]

end Decoder

/-! ## One request -/

/-- A decoded request is a tool call with a name and a prompt. -/
def ToolPrompt (equalFold : String → String → Bool) (request : Option Request)
    (name prompt : String) : Prop :=
  ∃ r fields, request = some r ∧ r.method = "tools/call" ∧ r.params = some (.object fields) ∧
    Passes equalFold fields name prompt

theorem update_last (fields : List (String × Json)) (m : Analytics.GoMap Json) (k : String) :
    (fields.foldl (fun m a => Analytics.update m a.1 a.2 (fun _ => a.2)) m).lookup k =
      (field fields k).or (m.lookup k) := by
  induction fields generalizing m with
  | nil => rfl
  | cons a fields ih =>
    obtain ⟨k', j⟩ := a
    rw [List.foldl_cons, ih, Tally.update_lookup, field, field, List.reverse_cons,
      List.lookup_append, Option.or_assoc]
    by_cases h : k = k'
    · subst h
      rw [if_pos rfl, List.lookup_cons_self, Option.some_or]
    · rw [if_neg h, Tally.lookup_cons_ne [] k k' j h]
      rfl

section Rows
variable (env : Env)

/-- The analytics read the prompts of tool calls. -/
theorem promptOf_iff (log : MCPServerLog) (p : Analytics.MCPPrompt) :
    Analytics.promptOf env log = some p ↔ ∃ r params args prompt, log.mcpRequest = some r ∧
      r.method = "tools/call" ∧ r.params = some params ∧
      env.callToolParams params = some (p.toolName, .object args) ∧
      field args "hyprmcpPromptAnalytics" = some (.string prompt) ∧
      p = ⟨log.id, p.toolName, prompt⟩ := by
  constructor
  · intro h
    obtain ⟨argMap, hm, h⟩ := Option.bind_eq_some_iff.mp h
    obtain ⟨tool, htool, h⟩ := Option.bind_eq_some_iff.mp h
    obtain ⟨j, hj, h⟩ := Option.bind_eq_some_iff.mp h
    obtain ⟨r, hr, hm⟩ := Option.bind_eq_some_iff.mp hm
    rw [hr, Option.bind_some] at htool
    split at hm
    · next hmethod =>
      obtain ⟨⟨name, args⟩, hd, hm⟩ := Option.bind_eq_some_iff.mp hm
      obtain ⟨params, hparams, hd⟩ := Option.bind_eq_some_iff.mp hd
      rw [hparams, Option.bind_some] at htool
      cases args with
      | object args =>
        cases hm
        cases htool.symm.trans hd
        rw [update_last args [] "hyprmcpPromptAnalytics"] at hj
        cases j with
        | string prompt =>
          cases h
          exact ⟨r, params, args, prompt, hr, hmethod, hparams, hd, by simpa using hj, rfl⟩
        | _ => cases h
      | _ => cases hm
    · cases hm
  · rintro ⟨r, params, args, prompt, hr, hmethod, hparams, hd, hp, hid⟩
    have hlookup := update_last args [] "hyprmcpPromptAnalytics"
    rw [hp, Option.some_or] at hlookup
    simp only [Analytics.promptOf, Analytics.arguments, hr, hparams, hmethod, Option.bind_eq_bind,
      Option.bind_some, if_true, hd, Option.pure_def, hlookup]
    rw [hid]

theorem toolPrompt_iff (equalFold : String → String → Bool) (hdec : Decodes equalFold env)
    (log : MCPServerLog) (name prompt : String) :
    Analytics.promptOf env log = some ⟨log.id, name, prompt⟩ ↔
      ToolPrompt equalFold log.mcpRequest name prompt := by
  rw [promptOf_iff]
  constructor
  · rintro ⟨r, params, args, prompt', hr, hmethod, hparams, hd, hp, heq⟩
    cases heq
    rw [hdec] at hd
    obtain ⟨fields, rfl, hmeta, hname, hlast⟩ := (decodeParams_iff equalFold _ _ _).mp hd
    exact ⟨r, fields, hr, hmethod, hparams, hmeta, hname, args, hlast, hp⟩
  · rintro ⟨r, fields, hr, hmethod, hparams, hmeta, hname, args, hlast, hp⟩
    refine ⟨r, .object fields, args, prompt, hr, hmethod, hparams, ?_, hp, rfl⟩
    rw [hdec, decodeParams_iff]
    exact ⟨fields, rfl, hmeta, hname, hlast⟩

def promptText (request : Option Request) : Option String :=
  pathText env ["arguments", "hyprmcpPromptAnalytics"] request

/-- The database finds a name and a prompt in the stored request. -/
def Listed (v : MCPServerLogRow) (name prompt : String) : Prop :=
  pathText env ["name"] v.mcpRequest = some name ∧ promptText env v.mcpRequest = some prompt

/-- The analytics find a name and a prompt in the decoded request. -/
def Found (equalFold : String → String → Bool) (v : MCPServerLogRow) (name prompt : String) :
    Prop :=
  Readable env v.toMCPServerLogRow5 ∧
    ToolPrompt equalFold (decodeColumn env.unmarshalRequest v.mcpRequest).join name prompt

/-- Either nothing is found under the path of prompts and no prompt is decoded, or
the texts under the paths are those that are decoded. -/
def Coherent (equalFold : String → String → Bool) (v : MCPServerLogRow) : Prop :=
  (promptText env v.mcpRequest = none ∧ ∀ name prompt, ¬ Found env equalFold v name prompt) ∨
    ∃ name prompt, Listed env v name prompt ∧ Found env equalFold v name prompt

/-- The entry that the analytics have for a stored log. -/
def Produces (id : UUID) (v : MCPServerLogRow) (toolName prompt : String) : Prop :=
  ∃ log, scanLog env (id, v) = .ok log ∧ Analytics.promptOf env log = some ⟨id, toolName, prompt⟩

variable (equalFold : String → String → Bool) (hdec : Decodes equalFold env) (id : UUID)
  (v : MCPServerLogRow)
include hdec

theorem produces_iff (toolName prompt : String) :
    Produces env id v toolName prompt ↔ Found env equalFold v toolName prompt := by
  have hlog := toolPrompt_iff env equalFold hdec (logOf env (id, v)) toolName prompt
  constructor
  · rintro ⟨log, hscan, hp⟩
    obtain ⟨hread, rfl⟩ := (scanLog_iff env (id, v) log).mp hscan
    exact ⟨hread, hlog.mp hp⟩
  · rintro ⟨hread, htool⟩
    exact ⟨_, (scanLog_iff env (id, v) _).mpr ⟨hread, rfl⟩, hlog.mpr htool⟩

theorem found_unique (name name' prompt prompt' : String)
    (h : Found env equalFold v name prompt) (h' : Found env equalFold v name' prompt') :
    name = name' ∧ prompt = prompt' := by
  have hlog := (toolPrompt_iff env equalFold hdec (logOf env (0, v)) name prompt).mpr h.2
  have hlog' := (toolPrompt_iff env equalFold hdec (logOf env (0, v)) name' prompt').mpr h'.2
  cases hlog.symm.trans hlog'
  exact ⟨rfl, rfl⟩

end Rows

/-! ## All requests of a project -/

section Project
variable (env : Env) (db : Db) (projectID : UUID)

/-- The list, on one page, succeeds. It has a log with a tool name and a prompt exactly
if the analytics have an entry for the log with the same tool name and prompt. -/
def ReadersAgree (count : Int64) (sorting : Sorting) (t : Tick) : Prop :=
  ∃ ps, getPromptsForProject env projectID ⟨count, 0⟩ sorting none t db = .ok (ps, []) ∧
    ∀ id v, db.row .mcpServerLog id = some v → v.projectID = projectID → ∀ toolName prompt,
      (∃ p ∈ ps, p.id = id ∧ p.toolName = toolName ∧ p.prompt = prompt) ↔
        Produces env id v toolName prompt

def promptRows (sorting : Sorting) : List PromptRow :=
  (((projectLogs env db projectID none none).map (promptRow env)).filter
    (fun r => r.prompt.isSome)).insertionSort (fun r r' =>
      ordered sorting.sortOrder (promptLe env sorting.sortBy) r r')

theorem mem_promptRows (sorting : Sorting) (r : PromptRow) :
    r ∈ promptRows env db projectID sorting ↔
    ∃ id v, db.row .mcpServerLog id = some v ∧ v.projectID = projectID ∧
      r = promptRow env (id, v) ∧ r.prompt.isSome := by
  rw [promptRows, List.mem_insertionSort, List.mem_filter, List.mem_map]
  constructor
  · rintro ⟨⟨⟨id, v⟩, hl, rfl⟩, hp⟩
    rw [projectLogs, (env.arrange_perm _).mem_iff, List.mem_filter, db.mem_scan] at hl
    exact ⟨id, v, hl.1, (of_decide_eq_true hl.2).1, rfl, hp⟩
  · rintro ⟨id, v, hv, hproj, rfl, hp⟩
    refine ⟨⟨(id, v), ?_, rfl⟩, hp⟩
    rw [projectLogs, (env.arrange_perm _).mem_iff, List.mem_filter, db.mem_scan]
    simp [hv, hproj]

theorem promptRows_length (sorting : Sorting) : (promptRows env db projectID sorting).length ≤
    ((db.scan .mcpServerLog).filter (fun l => l.2.projectID = projectID)).length := by
  rw [promptRows, List.length_insertionSort]
  refine (List.length_filter_le _ _).trans (le_of_eq ?_)
  rw [List.length_map, projectLogs, (env.arrange_perm _).length_eq]
  simp

theorem getPrompts_all (count : Int64) (sorting : Sorting) (t : Tick)
    (hcount : ((db.scan .mcpServerLog).filter (fun l => l.2.projectID = projectID)).length ≤
      count.toNatClampNeg) (ps : List MCPServerLogPromptData) :
    getPromptsForProject env projectID ⟨count, 0⟩ sorting none t db = .ok (ps, []) ↔
      collectRows promptData (promptRows env db projectID sorting) = .ok ps := by
  have hlength := (promptRows_length env db projectID sorting).trans hcount
  have hpage := page_all count _ hlength
  rw [promptRows] at hpage ⊢
  simp only [getPromptsForProject, select, storableText, Option.all_none, if_true, hpage]
  cases hc : collectRows promptData (promptRows env db projectID sorting) with
  | error e =>
    rw [promptRows] at hc
    simp [hc, bind, Except.bind, Except.map]
  | ok ps' =>
    rw [promptRows] at hc
    simp [hc, bind, Except.bind, Except.map]

theorem promptData_ok (l : UUID × MCPServerLogRow) (p : MCPServerLogPromptData)
    (h : promptData (promptRow env l) = .ok p) :
    p.id = l.1 ∧ Listed env l.2 p.toolName p.prompt := by
  rw [promptData] at h
  split at h
  · next method name prompt hm hn hp =>
    cases h
    exact ⟨rfl, hn, hp⟩
  · cases h

theorem listed_scan (l : UUID × MCPServerLogRow) (name prompt : String)
    (h : Listed env l.2 name prompt) : ∃ p, promptData (promptRow env l) = .ok p ∧
      p.toolName = name ∧ p.prompt = prompt := by
  obtain ⟨hname, hprompt⟩ := h
  cases hr : l.2.mcpRequest with
  | none =>
    rw [hr] at hname
    cases hname
  | some r =>
    have hmethod : l.2.mcpRequest.map (fun r => r.method) = some r.method := by
      rw [hr]
      rfl
    change pathText env ["arguments", "hyprmcpPromptAnalytics"] l.2.mcpRequest = some prompt
      at hprompt
    refine ⟨⟨l.1, l.2.startedAt, r.method, name, prompt⟩, ?_, rfl, rfl⟩
    simp only [promptData, promptRow, hmethod, hname, hprompt]

/-- The row of a listed log. -/
theorem listed_row (sorting : Sorting) (ps : List MCPServerLogPromptData)
    (h : collectRows promptData (promptRows env db projectID sorting) = .ok ps)
    (p : MCPServerLogPromptData) (hp : p ∈ ps) :
    ∃ v, db.row .mcpServerLog p.id = some v ∧ v.projectID = projectID ∧
      promptData (promptRow env (p.id, v)) = .ok p := by
  obtain ⟨r, hr, hscan⟩ := mem_collectRows _ _ _ h p hp
  obtain ⟨id, v, hv, hproj, rfl, -⟩ := (mem_promptRows env db projectID sorting r).mp hr
  have hid := (promptData_ok env _ p hscan).1
  simp only at hid
  subst hid
  exact ⟨v, hv, hproj, hscan⟩

theorem row_listed (sorting : Sorting) (ps : List MCPServerLogPromptData)
    (h : collectRows promptData (promptRows env db projectID sorting) = .ok ps) (id : UUID)
    (v : MCPServerLogRow) (hv : db.row .mcpServerLog id = some v) (hproj : v.projectID = projectID)
    (prompt : String) (hp : promptText env v.mcpRequest = some prompt) :
    ∃ p ∈ ps, promptData (promptRow env (id, v)) = .ok p := by
  apply collectRows_mem _ _ _ h
  rw [mem_promptRows]
  exact ⟨id, v, hv, hproj, rfl, Option.isSome_iff_exists.mpr ⟨prompt, hp⟩⟩

variable (equalFold : String → String → Bool) (hdec : Decodes equalFold env) (sorting : Sorting)
include hdec

theorem agree_coherent (ps : List MCPServerLogPromptData)
    (hps : collectRows promptData (promptRows env db projectID sorting) = .ok ps)
    (h : ∀ id v, db.row .mcpServerLog id = some v → v.projectID = projectID → ∀ toolName prompt,
      (∃ p ∈ ps, p.id = id ∧ p.toolName = toolName ∧ p.prompt = prompt) ↔
        Produces env id v toolName prompt)
    (id : UUID) (v : MCPServerLogRow) (hv : db.row .mcpServerLog id = some v)
    (hproj : v.projectID = projectID) : Coherent env equalFold v := by
  cases hp : promptText env v.mcpRequest with
  | none =>
    refine Or.inl ⟨hp, fun name prompt hfound => ?_⟩
    have hentry := (produces_iff env equalFold hdec id v name prompt).mpr hfound
    obtain ⟨p, hmem, rfl, -, -⟩ := (h id v hv hproj _ _).mpr hentry
    obtain ⟨v', hv', -, hscan⟩ := listed_row env db projectID sorting ps hps p hmem
    cases hv.symm.trans hv'
    have hsome := (promptData_ok env _ p hscan).2.2
    rw [hp] at hsome
    cases hsome
  | some prompt =>
    right
    obtain ⟨p, hmem, hscan⟩ := row_listed env db projectID sorting ps hps id v hv hproj prompt hp
    obtain ⟨hid, hlisted⟩ := promptData_ok env _ p hscan
    exact ⟨p.toolName, p.prompt, hlisted, (produces_iff env equalFold hdec id v _ _).mp
      ((h id v hv hproj _ _).mp ⟨p, hmem, hid, rfl, rfl⟩)⟩

omit hdec in
theorem coherent_listed
    (h : ∀ id v, db.row .mcpServerLog id = some v → v.projectID = projectID →
      Coherent env equalFold v) :
    ∃ ps, collectRows promptData (promptRows env db projectID sorting) = .ok ps := by
  apply collectRows_ok
  intro r hr
  obtain ⟨id, v, hv, hproj, rfl, hsome⟩ := (mem_promptRows env db projectID sorting r).mp hr
  rcases h id v hv hproj with ⟨hnone, -⟩ | ⟨name, prompt, hlisted, -⟩
  · change (promptText env v.mcpRequest).isSome at hsome
    rw [hnone] at hsome
    cases hsome
  · obtain ⟨p, hscan, -, -⟩ := listed_scan env (id, v) name prompt hlisted
    exact ⟨p, hscan⟩

theorem coherent_agree (ps : List MCPServerLogPromptData)
    (hps : collectRows promptData (promptRows env db projectID sorting) = .ok ps)
    (id : UUID) (v : MCPServerLogRow) (hv : db.row .mcpServerLog id = some v)
    (hproj : v.projectID = projectID) (h : Coherent env equalFold v) (toolName prompt : String) :
    (∃ p ∈ ps, p.id = id ∧ p.toolName = toolName ∧ p.prompt = prompt) ↔
      Produces env id v toolName prompt := by
  have hrow : ∀ p ∈ ps, p.id = id → promptData (promptRow env (id, v)) = .ok p := by
    rintro p hp rfl
    obtain ⟨v', hv', -, hscan⟩ := listed_row env db projectID sorting ps hps p hp
    cases hv.symm.trans hv'
    exact hscan
  rw [produces_iff env equalFold hdec]
  rcases h with ⟨hnone, hsilent⟩ | ⟨name, s, hlisted, hfound⟩
  · constructor
    · rintro ⟨p, hp, hid, -, -⟩
      have hsome := (promptData_ok env _ p (hrow p hp hid)).2.2
      rw [hnone] at hsome
      cases hsome
    · intro hfound
      exact absurd hfound (hsilent toolName prompt)
  · obtain ⟨q, hscan, hname, htext⟩ := listed_scan env (id, v) name s hlisted
    constructor
    · rintro ⟨p, hp, hid, rfl, rfl⟩
      cases hscan.symm.trans (hrow p hp hid)
      rw [hname, htext]
      exact hfound
    · intro hother
      obtain ⟨rfl, rfl⟩ := found_unique env equalFold hdec v _ _ _ _ hother hfound
      obtain ⟨p, hp, hscan'⟩ := row_listed env db projectID sorting ps hps id v hv hproj _ hlisted.2
      cases hscan.symm.trans hscan'
      exact ⟨_, hp, (promptData_ok env _ _ hscan).1, hname, htext⟩

/-- The readers of prompts agree on a project exactly if each of its logs is coherent. -/
theorem readersAgree_iff (count : Int64) (t : Tick)
    (hcount : ((db.scan .mcpServerLog).filter (fun l => l.2.projectID = projectID)).length ≤
      count.toNatClampNeg) :
    ReadersAgree env db projectID count sorting t ↔
      ∀ id v, db.row .mcpServerLog id = some v → v.projectID = projectID →
        Coherent env equalFold v := by
  constructor
  · rintro ⟨ps, hps, h⟩
    rw [getPrompts_all env db projectID count sorting t hcount] at hps
    exact agree_coherent env db projectID equalFold hdec sorting ps hps h
  · intro h
    obtain ⟨ps, hps⟩ := coherent_listed env db projectID equalFold sorting h
    refine ⟨ps, (getPrompts_all env db projectID count sorting t hcount ps).mpr hps, ?_⟩
    intro id v hv hproj
    exact coherent_agree env db projectID equalFold hdec sorting ps hps id v hv hproj
      (h id v hv hproj)

end Project

/-! ## One stored request -/

def sameLetters (s s' : String) : Bool :=
  s.toList.map Char.toLower = s'.toList.map Char.toLower

def decodingEnv : Env := { Env.demo with callToolParams := decodeParams sameLetters }

def promptFields : List (String × Json) :=
  [("name", .string "search"), ("arguments", .object [("hyprmcpPromptAnalytics", .string "docs?")])]

def promptLog (method : String) : MCPServerLogRow where
  userAccountID := none
  mcpSessionID := some "s1"
  startedAt := 0
  duration := 0
  deploymentRevisionID := 9
  projectID := 7
  authTokenDigest := none
  mcpRequest := some ⟨method, some (.object promptFields), some (.num 1)⟩
  mcpResponse := none
  userAgent := none
  httpStatusCode := some 200
  httpError := none

def promptDb (method : String) : Db := Store.empty.set .mcpServerLog 5 (some (promptLog method))

theorem readersAgree_demo :
    ReadersAgree decodingEnv (promptDb "tools/call") 7 10 ⟨"started_at", .desc⟩ ⟨0, 0, 0⟩ := by
  refine (readersAgree_iff decodingEnv _ 7 sameLetters (fun _ => rfl) _ 10 _ (by decide)).mpr ?_
  intro id v hv _
  rw [← Store.mem_scan] at hv
  have hscan : (promptDb "tools/call").scan .mcpServerLog = [(5, promptLog "tools/call")] := rfl
  rw [hscan, List.mem_singleton] at hv
  cases hv
  refine Or.inr ⟨"search", "docs?", ⟨rfl, rfl⟩, ⟨rfl, rfl⟩, _, promptFields, rfl, rfl, rfl, ?_⟩
  exact ⟨rfl, rfl, _, rfl, rfl⟩

/-- The list shows the prompt of a request that is no tool call. -/
theorem prompt_listed_only : ¬ ReadersAgree decodingEnv (promptDb "prompts/get") 7 10
    ⟨"started_at", .desc⟩ ⟨0, 0, 0⟩ := by
  rintro ⟨ps, hps, h⟩
  have hlist : getPromptsForProject decodingEnv 7 ⟨10, 0⟩ ⟨"started_at", .desc⟩ none ⟨0, 0, 0⟩
      (promptDb "prompts/get") = .ok ([⟨5, 0, "prompts/get", "search", "docs?"⟩], []) := rfl
  rw [hlist] at hps
  cases hps
  obtain ⟨log, hscan, hp⟩ := (h 5 (promptLog "prompts/get") rfl rfl "search" "docs?").mp
    ⟨_, .head _, rfl, rfl, rfl⟩
  cases hscan
  cases hp

end Jetski.PromptReaders
