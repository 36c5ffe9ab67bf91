import Jetski.Handlers
import Jetski.Pages

/-!
# The statements of the lists

The text of the queries for logs and prompts is put together from the filters
that are present and from the sorting. Everything else of a request is bound as
an argument. The sorting is allowed for the list, so the texts are finitely
many, and each sorts by a column of what it selects from.
-/

set_option autoImplicit false

namespace Jetski.Statements

open Schema Jetski.Types Handlers Validation
open Database (Api)

/-! ## Texts and arguments -/

def sortOrderText : SortOrder → String
  | .asc => "asc"
  | .desc => "desc"

inductive Arg where
  | uuid (id : Option UUID)
  | int (n : Int64)
  | text (s : Option String)

structure Statement where
  text : String
  args : List (String × Arg)

def whereText (byID bySession : Bool) : String :=
  " AND ".intercalate (["project_id = @projectId"]++(if byID then ["id = @id"] else [])++
    (if bySession then ["mcp_session_id = @mcpSessionId"] else []))

def logsText (byID bySession : Bool) (sortBy : String) (sortOrder : SortOrder) : String :=
  "\n\t\tSELECT * FROM MCPServerLog\n\t\tWHERE "++whereText byID bySession++
    "\n\t\tORDER BY "++sortBy++" "++sortOrderText sortOrder++
    "\n\t\tLIMIT @count OFFSET @offset\n\t"

/-- The inner select up to its conditions. -/
def promptsBefore : String :=
  "SELECT * FROM (\n\t\t\tSELECT\n\t\t\t\tid,\n\t\t\t\tstarted_at,\n"++
    "\t\t\t\tjsonb_path_query_first(mcp_request, '$.method') #>> '\x7b\x7d' AS method,\n"++
    "\t\t\t\tjsonb_path_query_first(mcp_request, '$.params.name') #>> '\x7b\x7d' AS tool_name,\n"++
    "\t\t\t\tjsonb_path_query_first(mcp_request, '$.params.arguments.hyprmcpPromptAnalytics') "++
    "#>> '\x7b\x7d' AS prompt\n\t\t\tFROM MCPServerLog\n\t\t\tWHERE "

def promptsText (bySession : Bool) (sortBy : String) (sortOrder : SortOrder) : String :=
  promptsBefore++whereText false bySession++
    "\n\t\t)\n\t\tWHERE prompt IS NOT NULL\n\t\tORDER BY "++sortBy++" "++sortOrderText sortOrder++
    "\n\t\tLIMIT @count OFFSET @offset"

section Queries
variable (projectID : UUID) (pagination : Pagination) (sorting : Sorting)

def getLogsForProject (id : Option UUID) (mcpSessionID : Option String) : Statement where
  text := logsText id.isSome mcpSessionID.isSome sorting.sortBy sorting.sortOrder
  args := [("projectId", .uuid (some projectID)), ("count", .int pagination.count),
    ("offset", .int (pagination.count*pagination.page)), ("id", .uuid id),
    ("mcpSessionId", .text mcpSessionID)]

def getPromptsForProject (mcpSessionID : Option String) : Statement where
  text := promptsText mcpSessionID.isSome sorting.sortBy sorting.sortOrder
  args := [("projectId", .uuid (some projectID)), ("count", .int pagination.count),
    ("offset", .int (pagination.count*pagination.page)), ("mcpSessionId", .text mcpSessionID)]

end Queries

/-! ## Requests -/

structure ListCall where
  pagination : Pagination
  sorting : Sorting
  id : Option UUID
  mcpSessionID : Option String

section Requests
variable (env : Env)

def logSorting (req : ListRequest) : Sorting :=
  Pages.logSorting env trimSpace req.sortBy req.sortOrder

def promptSorting (req : ListRequest) : Sorting :=
  Pages.promptSorting env trimSpace req.sortBy req.sortOrder

/-- Nothing is asked for if the paging or the ID is refused. -/
def logsCall (req : ListRequest) : Except String ListCall :=
  match parsePaginationOrDefault req.count req.page ⟨10, 0⟩, req.id with
  | none, _ => .error "invalid parameter"
  | some _, .invalid => .error "invalid UUID"
  | some pagination, .absent =>
    .ok ⟨pagination, logSorting env req, none, sessionFilter req.mcpSessionID⟩
  | some pagination, .value id =>
    .ok ⟨pagination, logSorting env req, some id, sessionFilter req.mcpSessionID⟩

def promptsCall (req : ListRequest) : Except String ListCall :=
  match parsePaginationOrDefault req.count req.page ⟨10, 0⟩ with
  | none => .error "invalid parameter"
  | some pagination =>
    .ok ⟨pagination, promptSorting env req, none, sessionFilter req.mcpSessionID⟩

def logsStatement (projectID : UUID) (req : ListRequest) : Option Statement :=
  (logsCall env req).toOption.map (fun c =>
    getLogsForProject projectID c.pagination c.sorting c.id c.mcpSessionID)

def promptsStatement (projectID : UUID) (req : ListRequest) : Option Statement :=
  (promptsCall env req).toOption.map (fun c =>
    getPromptsForProject projectID c.pagination c.sorting c.mcpSessionID)

/-- The handlers ask for what the request calls for. -/
def answerCall (call : Except String ListCall) (list : ListCall → Api Unit) : Api Unit :=
  match call with
  | .error e => respond 400 (.text e)
  | .ok c => list c

theorem getLogsForProject_call (user : UserAccount) (projectID : Param UUID) (req : ListRequest) :
    Handlers.getLogsForProject env user projectID req = withProject user projectID
      (fun projectID => answerCall (logsCall env req) (fun c => do
        respondOr (← Database.getLogsForProject env .pool projectID c.pagination c.sorting c.id
          c.mcpSessionID) .logs (fun ls => ls.map (·.startedAt)))) := by
  rw [Handlers.getLogsForProject]
  congr 1
  funext projectID
  rw [logsCall]
  cases parsePaginationOrDefault req.count req.page ⟨10, 0⟩ with
  | none => rfl
  | some pagination =>
    cases req.id with
    | absent => rfl
    | invalid => rfl
    | value id => rfl

theorem getPromptsForProject_call (user : UserAccount) (projectID : Param UUID)
    (req : ListRequest) :
    Handlers.getPromptsForProject env user projectID req = withProject user projectID
      (fun projectID => answerCall (promptsCall env req) (fun c => do
        respondOr (← Database.getPromptsForProject env .pool projectID c.pagination c.sorting
          c.mcpSessionID) .prompts (fun ps => ps.map (·.startedAt)))) := by
  rw [Handlers.getPromptsForProject]
  congr 1
  funext projectID
  rw [promptsCall]
  cases parsePaginationOrDefault req.count req.page ⟨10, 0⟩ with
  | none => rfl
  | some pagination => rfl

end Requests

/-! ## Which texts there are -/

def logColumns : List String :=
  ["id", "user_account_id", "mcp_session_id", "started_at", "duration", "deployment_revision_id",
    "project_id", "auth_token_digest", "mcp_request", "mcp_response", "user_agent",
    "http_status_code", "http_error"]

def promptColumns : List String := ["id", "started_at", "method", "tool_name", "prompt"]

def logColumnsSorted : List String := ["started_at", "duration", "http_status_code"]

def promptColumnsSorted : List String := ["started_at", "tool_name", "prompt"]

def logsShapes : List (String → SortOrder → String) :=
  [logsText false false, logsText false true, logsText true false, logsText true true]

def promptsShapes : List (String → SortOrder → String) := [promptsText false, promptsText true]

def texts (shapes : List (String → SortOrder → String)) (sorted : List String) : List String :=
  shapes.flatMap fun shape => sorted.flatMap fun sortBy =>
    [SortOrder.asc, .desc].map (shape sortBy)

example : (texts logsShapes logColumnsSorted).length = 24 ∧
    (texts promptsShapes promptColumnsSorted).length = 12 := ⟨rfl, rfl⟩

def isNameChar (c : Char) : Bool := c.isAlphanum ∨ c = '_'

def parameters : List Char → List (List Char)
  | [] => []
  | c::cs => if c = '@' then cs.takeWhile isNameChar::parameters cs else parameters cs

/-- The text has one of the shapes for the sorting, sorts by a column of what it
selects from, is one of finitely many texts and has only parameters that are
bound. -/
structure Regular (columns sorted : List String) (shapes : List (String → SortOrder → String))
    (sorting : Sorting) (s : Statement) : Prop where
  column : sorting.sortBy ∈ columns
  direction : sortOrderText sorting.sortOrder = "asc" ∨ sortOrderText sorting.sortOrder = "desc"
  shape : ∃ shape ∈ shapes, s.text = shape sorting.sortBy sorting.sortOrder
  text : s.text ∈ texts shapes sorted
  bound : ∀ p ∈ parameters s.text.toList, ∃ a ∈ s.args, a.1.toList = p

theorem sorting_allowed (env : Env) (sortBy sortOrder : String) (options : SortingOptions)
    (h : options.defaultSortBy ∈ options.allowedSortBy) :
    (parseSortingOrDefault env trimSpace sortBy sortOrder options).sortBy ∈
      options.allowedSortBy := by
  rw [parseSortingOrDefault]
  by_cases hsort : sortBy ≠ "" ∧ sortBy ∈ options.allowedSortBy
  · rw [if_pos hsort]
    exact hsort.2
  · rw [if_neg hsort]
    exact h

theorem sortOrderText_cases (order : SortOrder) :
    sortOrderText order = "asc" ∨ sortOrderText order = "desc" := by
  cases order with
  | asc => exact Or.inl rfl
  | desc => exact Or.inr rfl

theorem parameters_skip (ps cs : List Char) (h : '@' ∉ ps) :
    parameters (ps++cs) = parameters cs := by
  induction ps with
  | nil => rfl
  | cons c ps ih =>
    rw [List.mem_cons, not_or] at h
    rw [List.cons_append, parameters, if_neg (fun hc => h.1 hc.symm), ih h.2]

theorem parameters_append (ps cs : List Char) (h : ∀ c ∈ cs.head?, isNameChar c = false) :
    parameters (ps++cs) = parameters ps++parameters cs := by
  have hname : ∀ ps : List Char, (ps++cs).takeWhile isNameChar = ps.takeWhile isNameChar := by
    intro ps
    induction ps with
    | nil =>
      cases cs with
      | nil => rfl
      | cons c cs => rw [List.nil_append, List.takeWhile_cons, h c rfl]; rfl
    | cons c ps ih => rw [List.cons_append, List.takeWhile_cons, List.takeWhile_cons, ih]
  induction ps with
  | nil => rfl
  | cons c ps ih =>
    rw [List.cons_append, parameters, parameters, hname, ih]
    split
    · rfl
    · rfl

/-- The parameters of a list are those of its conditions and of its limit. -/
theorem list_parameters (before conditions orderBy sortBy limit : String) (order : SortOrder)
    (hbefore : '@' ∉ before.toList) (horder : '@' ∉ orderBy.toList) (hsort : '@' ∉ sortBy.toList)
    (hline : ∃ cs, orderBy.toList = '\n'::cs)
    (hlimit : parameters limit.toList = ["count".toList, "offset".toList]) :
    parameters (before++conditions++orderBy++sortBy++" "++sortOrderText order++limit).toList =
      parameters conditions.toList++["count".toList, "offset".toList] := by
  have hsorting :
      '@' ∉ orderBy.toList++sortBy.toList++" ".toList++(sortOrderText order).toList := by
    have hdirection : '@' ∉ (sortOrderText order).toList := by
      cases order with
      | asc => decide
      | desc => decide
    have hspace : '@' ∉ " ".toList := by decide
    simp only [List.mem_append, not_or]
    exact ⟨⟨⟨horder, hsort⟩, hspace⟩, hdirection⟩
  obtain ⟨cs, hcs⟩ := hline
  have hjoin : (before++conditions++orderBy++sortBy++" "++sortOrderText order++limit).toList =
      before.toList++(conditions.toList++
        ((orderBy.toList++sortBy.toList++" ".toList++(sortOrderText order).toList)++
          limit.toList)) := by
    simp only [String.toList_append, List.append_assoc]
  rw [hjoin, parameters_skip _ _ hbefore, parameters_append, parameters_skip _ _ hsorting, hlimit]
  rw [hcs]
  intro c hc
  cases hc
  rfl

theorem where_parameters (byID bySession : Bool) :
    parameters (whereText byID bySession).toList = "projectId".toList::
      ((if byID then ["id".toList] else [])++
        (if bySession then ["mcpSessionId".toList] else [])) := by
  cases byID with
  | false =>
    cases bySession with
    | false => decide
    | true => decide
  | true =>
    cases bySession with
    | false => decide
    | true => decide

theorem text_listed (shapes : List (String → SortOrder → String)) (sorted : List String)
    (sorting : Sorting) (s : Statement) (hsort : sorting.sortBy ∈ sorted)
    (hshape : ∃ shape ∈ shapes, s.text = shape sorting.sortBy sorting.sortOrder) :
    s.text ∈ texts shapes sorted := by
  obtain ⟨shape, hmem, htext⟩ := hshape
  have horder : sorting.sortOrder ∈ [SortOrder.asc, .desc] := by
    cases sorting.sortOrder with
    | asc => exact List.mem_cons_self
    | desc => exact List.mem_cons_of_mem _ List.mem_cons_self
  rw [htext]
  exact List.mem_flatMap.mpr ⟨shape, hmem, List.mem_flatMap.mpr
    ⟨_, hsort, List.mem_map_of_mem horder⟩⟩

/-- A list whose sorting is allowed and whose text has one of the shapes is regular
if the names in its conditions and in its limit are bound. -/
theorem list_regular (columns sorted : List String)
    (shapes : List (String → SortOrder → String)) (sorting : Sorting) (s : Statement)
    (byID bySession : Bool) (hsub : sorted ⊆ columns) (hsort : sorting.sortBy ∈ sorted)
    (hshape : ∃ shape ∈ shapes, s.text = shape sorting.sortBy sorting.sortOrder)
    (hparams : parameters s.text.toList =
      parameters (whereText byID bySession).toList++["count".toList, "offset".toList])
    (hargs : ["projectId", "count", "offset"]++(if byID then ["id"] else [])++
      (if bySession then ["mcpSessionId"] else []) ⊆ s.args.map Prod.fst) :
    Regular columns sorted shapes sorting s where
  column := hsub hsort
  direction := sortOrderText_cases sorting.sortOrder
  shape := hshape
  text := text_listed shapes sorted sorting s hsort hshape
  bound := by
    intro p hp
    have hname : p ∈ (["projectId", "count", "offset"]++(if byID then ["id"] else [])++
        (if bySession then ["mcpSessionId"] else [])).map String.toList := by
      rw [hparams, where_parameters] at hp
      revert hp
      cases byID <;> cases bySession <;> simp <;> tauto
    obtain ⟨name, hmem, rfl⟩ := List.mem_map.mp hname
    obtain ⟨a, ha, rfl⟩ := List.mem_map.mp (hargs hmem)
    exact ⟨a, ha, rfl⟩

theorem logsShape_listed (byID bySession : Bool) : logsText byID bySession ∈ logsShapes := by
  cases byID <;> cases bySession <;> simp [logsShapes]

theorem promptsShape_listed (bySession : Bool) : promptsText bySession ∈ promptsShapes := by
  cases bySession <;> simp [promptsShapes]

section Lists
variable (env : Env)

theorem logSorting_column (req : ListRequest) : (logSorting env req).sortBy ∈ logColumnsSorted :=
  sorting_allowed env req.sortBy req.sortOrder
    ⟨"started_at", .desc, ["started_at", "duration", "http_status_code"]⟩ (by simp)

theorem promptSorting_column (req : ListRequest) :
    (promptSorting env req).sortBy ∈ promptColumnsSorted :=
  sorting_allowed env req.sortBy req.sortOrder
    ⟨"started_at", .desc, ["started_at", "tool_name", "prompt"]⟩ (by simp)

/-- The columns of both lists have no parameter in them. -/
theorem column_plain (sortBy : String)
    (h : sortBy ∈ logColumnsSorted++promptColumnsSorted) : '@' ∉ sortBy.toList := by
  have hall : ∀ s ∈ logColumnsSorted++promptColumnsSorted, '@' ∉ s.toList := by decide
  exact hall sortBy h

theorem logs_parameters (byID bySession : Bool) (sortBy : String) (order : SortOrder)
    (hsort : '@' ∉ sortBy.toList) : parameters (logsText byID bySession sortBy order).toList =
      parameters (whereText byID bySession).toList++["count".toList, "offset".toList] :=
  list_parameters "\n\t\tSELECT * FROM MCPServerLog\n\t\tWHERE " (whereText byID bySession)
    "\n\t\tORDER BY " sortBy "\n\t\tLIMIT @count OFFSET @offset\n\t" order (by decide)
    (by decide) hsort ⟨_, rfl⟩ (by decide)

theorem promptsBefore_plain : '@' ∉ promptsBefore.toList := by
  have hjoin : ∀ s s' : String, '@' ∉ s.toList → '@' ∉ s'.toList → '@' ∉ (s++s').toList := by
    intro s s' hs hs'
    rw [String.toList_append, List.mem_append, not_or]
    exact ⟨hs, hs'⟩
  exact hjoin _ _ (hjoin _ _ (hjoin _ _ (hjoin _ _ (by decide) (by decide)) (by decide))
    (by decide)) (by decide)

theorem prompts_parameters (bySession : Bool) (sortBy : String) (order : SortOrder)
    (hsort : '@' ∉ sortBy.toList) : parameters (promptsText bySession sortBy order).toList =
      parameters (whereText false bySession).toList++["count".toList, "offset".toList] :=
  list_parameters promptsBefore (whereText false bySession)
    "\n\t\t)\n\t\tWHERE prompt IS NOT NULL\n\t\tORDER BY " sortBy
    "\n\t\tLIMIT @count OFFSET @offset" order promptsBefore_plain (by decide) hsort ⟨_, rfl⟩
    (by decide)

theorem logsStatement_eq (projectID : UUID) (req : ListRequest) (s : Statement)
    (h : logsStatement env projectID req = some s) : ∃ pagination id,
      s = getLogsForProject projectID pagination (logSorting env req) id
        (sessionFilter req.mcpSessionID) ∧ id.isSome = decide (req.id ≠ .absent) := by
  rw [logsStatement, logsCall] at h
  cases hp : parsePaginationOrDefault req.count req.page ⟨10, 0⟩ with
  | none =>
    rw [hp] at h
    cases h
  | some pagination =>
    rw [hp] at h
    cases hid : req.id with
    | absent =>
      rw [hid] at h
      cases h
      exact ⟨pagination, none, rfl, by simp⟩
    | invalid =>
      rw [hid] at h
      cases h
    | value id =>
      rw [hid] at h
      cases h
      exact ⟨pagination, some id, rfl, by simp⟩

theorem promptsStatement_eq (projectID : UUID) (req : ListRequest) (s : Statement)
    (h : promptsStatement env projectID req = some s) : ∃ pagination,
      s = getPromptsForProject projectID pagination (promptSorting env req)
        (sessionFilter req.mcpSessionID) := by
  rw [promptsStatement, promptsCall] at h
  cases hp : parsePaginationOrDefault req.count req.page ⟨10, 0⟩ with
  | none =>
    rw [hp] at h
    cases h
  | some pagination =>
    rw [hp] at h
    cases h
    exact ⟨pagination, rfl⟩

theorem sessionFilter_isSome (mcpSessionID : String) :
    (sessionFilter mcpSessionID).isSome = decide (mcpSessionID ≠ "") := by
  rw [sessionFilter]
  by_cases h : mcpSessionID = ""
  · simp [h]
  · simp [h]

theorem sessionFilter_alike (mcpSessionID mcpSessionID' : String)
    (h : mcpSessionID = "" ↔ mcpSessionID' = "") :
    (sessionFilter mcpSessionID).isSome = (sessionFilter mcpSessionID').isSome := by
  rw [sessionFilter_isSome, sessionFilter_isSome]
  exact decide_eq_decide.mpr (not_congr h)

theorem logs_regular (projectID : UUID) (req : ListRequest) (s : Statement)
    (h : logsStatement env projectID req = some s) :
    Regular logColumns logColumnsSorted logsShapes (logSorting env req) s := by
  obtain ⟨pagination, id, rfl, -⟩ := logsStatement_eq env projectID req s h
  have hcolumn := logSorting_column env req
  refine list_regular _ _ _ _ _ id.isSome (sessionFilter req.mcpSessionID).isSome (by decide)
    hcolumn ⟨_, logsShape_listed _ _, rfl⟩ ?_ ?_
  · exact logs_parameters _ _ _ _ (column_plain _ (List.mem_append_left _ hcolumn))
  · cases id.isSome <;> cases (sessionFilter req.mcpSessionID).isSome <;>
      simp [getLogsForProject]

theorem prompts_regular (projectID : UUID) (req : ListRequest) (s : Statement)
    (h : promptsStatement env projectID req = some s) :
    Regular promptColumns promptColumnsSorted promptsShapes (promptSorting env req) s := by
  obtain ⟨pagination, rfl⟩ := promptsStatement_eq env projectID req s h
  have hcolumn := promptSorting_column env req
  refine list_regular _ _ _ _ _ false (sessionFilter req.mcpSessionID).isSome (by decide)
    hcolumn ⟨_, promptsShape_listed _, rfl⟩ ?_ ?_
  · exact prompts_parameters _ _ _ (column_plain _ (List.mem_append_right _ hcolumn))
  · cases (sessionFilter req.mcpSessionID).isSome <;> simp [getPromptsForProject]

/-- The requests agree on the filters that are present and on the effective sorting. -/
structure LogsAlike (req req' : ListRequest) : Prop where
  id : req.id = .absent ↔ req'.id = .absent
  mcpSessionID : req.mcpSessionID = "" ↔ req'.mcpSessionID = ""
  sorting : logSorting env req = logSorting env req'

structure PromptsAlike (req req' : ListRequest) : Prop where
  mcpSessionID : req.mcpSessionID = "" ↔ req'.mcpSessionID = ""
  sorting : promptSorting env req = promptSorting env req'

/-- The text of a list depends on which filters are present and on the sorting only. -/
theorem list_statements :
    (∀ projectID projectID' req req' s s', LogsAlike env req req' →
      logsStatement env projectID req = some s → logsStatement env projectID' req' = some s' →
        s.text = s'.text) ∧
    (∀ projectID projectID' req req' s s', PromptsAlike env req req' →
      promptsStatement env projectID req = some s →
        promptsStatement env projectID' req' = some s' → s.text = s'.text) ∧
    (∀ projectID req s, logsStatement env projectID req = some s →
      Regular logColumns logColumnsSorted logsShapes (logSorting env req) s) ∧
    ∀ projectID req s, promptsStatement env projectID req = some s →
      Regular promptColumns promptColumnsSorted promptsShapes (promptSorting env req) s := by
  refine ⟨?_, ?_, logs_regular env, prompts_regular env⟩
  · intro projectID projectID' req req' s s' halike h h'
    obtain ⟨pagination, id, rfl, hid⟩ := logsStatement_eq env projectID req s h
    obtain ⟨pagination', id', rfl, hid'⟩ := logsStatement_eq env projectID' req' s' h'
    have hpresent : id.isSome = id'.isSome := by
      rw [hid, hid']
      exact decide_eq_decide.mpr (not_congr halike.id)
    have hsession := sessionFilter_alike _ _ halike.mcpSessionID
    simp only [getLogsForProject, hpresent, hsession, halike.sorting]
  · intro projectID projectID' req req' s s' halike h h'
    obtain ⟨pagination, rfl⟩ := promptsStatement_eq env projectID req s h
    obtain ⟨pagination', rfl⟩ := promptsStatement_eq env projectID' req' s' h'
    have hsession := sessionFilter_alike _ _ halike.mcpSessionID
    simp only [getPromptsForProject, hsession, halike.sorting]

end Lists

/-- A sort column from outside the list leaves the default. -/
theorem list_statements_demo : ∃ s,
    logsStatement Env.demo 7 ⟨.absent, .absent, "id; --", "desc", .absent, ""⟩ = some s ∧
      s.text ∈ texts logsShapes logColumnsSorted := by
  have hstatement := (list_statements Env.demo).2.2.1 7
    ⟨.absent, .absent, "id; --", "desc", .absent, ""⟩ _ rfl
  exact ⟨_, rfl, hstatement.text⟩

end Jetski.Statements
