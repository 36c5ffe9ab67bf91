import Jetski.Queries

/-!
# Queries over server logs

Storing a log copies the project of its revision into it. Lists are filtered
by project, sorted and cut to a page, whose requests and responses are decoded
row by row; the prompts of tool calls are read out of the stored requests by
JSON paths.
-/

set_option autoImplicit false

namespace Jetski.Logs

open Relational Schema Jetski.Types Queries

def storableText (s : Option String) : Bool := s.all storable

def storableRequest (r : Request) : Bool := storable r.method && r.params.all storableJson

/-- A response without result and error has no JSON text. -/
def storableResponse (r : Response) : Bool :=
  (r.result.isSome || r.error.isSome) && r.result.all storableJson &&
    r.error.all (fun e => storable e.message && e.data.all storableJson)

def fits (data : MCPServerLogRow5) : Bool :=
  storableText data.mcpSessionID && storableText data.authTokenDigest &&
    storableText data.userAgent && storableText data.httpError &&
    data.mcpRequest.all storableRequest && data.mcpResponse.all storableResponse &&
    data.httpStatusCode.all isInt4

/-- Time stamps and intervals are stored in microseconds. -/
def storedLog (data : MCPServerLogRow5) : MCPServerLogRow5 :=
  { data with
    startedAt := data.startedAt/1000*1000
    duration := data.duration/1000*1000 }

/-- The inserted row, which is returned as it was stored. -/
def createMCPServerLog (data : MCPServerLogRow5) : Sql (UUID × MCPServerLogRow) := fun t db =>
  if fits data then
    match db.row .deploymentRevision data.deploymentRevisionID with
    | none => .error (.notNull "project_id")
    | some r =>
      let v : MCPServerLogRow := { storedLog data with projectID := r.projectID }
      insertRow db .mcpServerLog t.fresh v (t.fresh, v)
  else .error .invalid

/-- A null value is decoded as a nil pointer. -/
def decodeColumn {α : Type} (unmarshal : α → Option α) : Option α → Option (Option α)
  | none => some none
  | some a => (unmarshal a).map some

/-- `RowToStructByName[types.MCPServerLog]` -/
def scanLog (env : Env) (l : UUID × MCPServerLogRow) : Except DbError MCPServerLog :=
  match decodeColumn env.unmarshalRequest l.2.mcpRequest,
    decodeColumn env.unmarshalResponse l.2.mcpResponse with
  | some mcpRequest, some mcpResponse =>
    .ok { l.2 with id := l.1, mcpRequest := mcpRequest, mcpResponse := mcpResponse }
  | _, _ => .error .invalid

/-- Ascending order has null values last and descending order has them first. -/
def nullsLast {α : Type} (le : α → α → Bool) : Option α → Option α → Bool
  | _, none => true
  | none, some _ => false
  | some a, some b => le a b

def ordered {α : Type} (order : SortOrder) (le : α → α → Bool) (a b : α) : Bool :=
  match order with
  | .asc => le a b
  | .desc => le b a

def page {α : Type} (count offset : Int64) (rows : List α) : Except DbError (List α) :=
  if offset < 0 then .error .invalid
  else .ok ((rows.drop offset.toNatClampNeg).take count.toNatClampNeg)

/-- The comparison for the columns that server logs are sorted by. -/
def logLe (sortBy : String) (l l' : MCPServerLogRow) : Bool :=
  if sortBy = "duration" then l.duration ≤ l'.duration
  else if sortBy = "http_status_code" then
    nullsLast (fun a b => decide (a ≤ b)) l.httpStatusCode l'.httpStatusCode
  else l.startedAt ≤ l'.startedAt

/-- The logs of a project that pass the optional filters. -/
def projectLogs (env : Env) (db : Db) (projectID : UUID) (id : Option UUID)
    (mcpSessionID : Option String) : List (UUID × MCPServerLogRow) :=
  env.arrange ((db.scan .mcpServerLog).filter (fun l => l.2.projectID = projectID ∧
    (∀ i ∈ id, l.1 = i) ∧ (∀ s ∈ mcpSessionID, l.2.mcpSessionID = some s)))

def collectRows {α β : Type} (scan : α → Except DbError β) : List α → Except DbError (List β)
  | [] => .ok []
  | a::as =>
    match scan a, collectRows scan as with
    | .ok b, .ok bs => .ok (b::bs)
    | .error e, _ => .error e
    | _, .error e => .error e

def getLogsForProject (env : Env) (projectID : UUID) (pagination : Pagination)
    (sorting : Sorting) (id : Option UUID) (mcpSessionID : Option String) :
    Sql (List MCPServerLog) :=
  select fun db =>
    if storableText mcpSessionID then do
      let paged ← page pagination.count (pagination.count*pagination.page)
        ((projectLogs env db projectID id mcpSessionID).insertionSort (fun l l' =>
          ordered sorting.sortOrder (logLe sorting.sortBy) l.2 l'.2))
      collectRows (scanLog env) paged
    else .error .invalid

/-- The first value under a key in lax mode: arrays are searched element-wise. -/
def member (name : String) : Json → List Json
  | .object fields => (field fields name).toList
  | .array items => items.flatMap (fun j => match j with
    | .object fields => (field fields name).toList
    | _ => [])
  | _ => []

/-- `jsonb_path_query_first(mcp_request, '$.params…') #>> '{}'` -/
def pathText (env : Env) (path : List String) (request : Option Request) : Option String := do
  let r ← request
  let params ← r.params
  match ← (path.foldl (fun js name => js.flatMap (member name)) [params]).head? with
  | .null => none
  | .string s => return s
  | j => return env.jsonText j

structure PromptRow where
  id : UUID
  startedAt : Time
  method : Option String
  toolName : Option String
  prompt : Option String

def promptRow (env : Env) (l : UUID × MCPServerLogRow) : PromptRow where
  id := l.1
  startedAt := l.2.startedAt
  method := l.2.mcpRequest.map (fun r => r.method)
  toolName := pathText env ["name"] l.2.mcpRequest
  prompt := pathText env ["arguments", "hyprmcpPromptAnalytics"] l.2.mcpRequest

def promptLe (env : Env) (sortBy : String) (r r' : PromptRow) : Bool :=
  if sortBy = "tool_name" then nullsLast env.collate r.toolName r'.toolName
  else if sortBy = "prompt" then nullsLast env.collate r.prompt r'.prompt
  else r.startedAt ≤ r'.startedAt

/-- Scanning a null value into a Go string fails. -/
def promptData (r : PromptRow) : Except DbError MCPServerLogPromptData :=
  match r.method, r.toolName, r.prompt with
  | some method, some toolName, some prompt => .ok ⟨r.id, r.startedAt, method, toolName, prompt⟩
  | _, _, _ => .error .invalid

def getPromptsForProject (env : Env) (projectID : UUID) (pagination : Pagination)
    (sorting : Sorting) (mcpSessionID : Option String) : Sql (List MCPServerLogPromptData) :=
  select fun db =>
    if storableText mcpSessionID then do
      let rows := ((projectLogs env db projectID none mcpSessionID).map (promptRow env)).filter
        (fun r => r.prompt.isSome)
      let paged ← page pagination.count (pagination.count*pagination.page)
        (rows.insertionSort (fun r r' =>
          ordered sorting.sortOrder (promptLe env sorting.sortBy) r r'))
      collectRows promptData paged
    else .error .invalid

theorem mem_collectRows {α β : Type} (scan : α → Except DbError β) (as : List α) (bs : List β)
    (h : collectRows scan as = .ok bs) (b : β) (hb : b ∈ bs) : ∃ a ∈ as, scan a = .ok b := by
  induction as generalizing bs with
  | nil =>
    cases h
    cases hb
  | cons a as ih =>
    simp only [collectRows] at h
    split at h
    · next b' bs' ha has =>
      cases h
      rcases List.mem_cons.mp hb with rfl | hb
      · exact ⟨a, by simp, ha⟩
      · obtain ⟨a', ha', he⟩ := ih bs' has hb
        exact ⟨a', by simp [ha'], he⟩
    · cases h
    · cases h

theorem collectRows_iff {α β : Type} (scan : α → Except DbError β) (as : List α) (bs : List β) :
    collectRows scan as = .ok bs ↔ List.Forall₂ (fun a b => scan a = .ok b) as bs := by
  induction as generalizing bs with
  | nil => simp [collectRows, eq_comm]
  | cons a as ih =>
    rw [collectRows]
    cases ha : scan a with
    | error e => cases bs <;> simp [ha]
    | ok b =>
      cases has : collectRows scan as with
      | error e =>
        cases bs with
        | nil => simp
        | cons b' bs => simp [← ih, has]
      | ok bs' =>
        cases bs with
        | nil => simp
        | cons b' bs => simp [ha, ← ih, has]

/-- The rows can be scanned exactly if each of them can. -/
theorem collectRows_ok {α β : Type} (scan : α → Except DbError β) (as : List α)
    (h : ∀ a ∈ as, ∃ b, scan a = .ok b) : ∃ bs, collectRows scan as = .ok bs := by
  induction as with
  | nil => exact ⟨[], rfl⟩
  | cons a as ih =>
    obtain ⟨b, hb⟩ := h a (.head _)
    obtain ⟨bs, hbs⟩ := ih (fun a' ha' => h a' (.tail _ ha'))
    exact ⟨b::bs, by rw [collectRows, hb, hbs]⟩

theorem collectRows_mem {α β : Type} (scan : α → Except DbError β) (as : List α) (bs : List β)
    (h : collectRows scan as = .ok bs) (a : α) (ha : a ∈ as) : ∃ b ∈ bs, scan a = .ok b := by
  rw [collectRows_iff] at h
  induction h with
  | nil => cases ha
  | cons hab _ ih =>
    rcases List.mem_cons.mp ha with rfl | ha
    · exact ⟨_, .head _, hab⟩
    · obtain ⟨b, hb, hscan⟩ := ih ha
      exact ⟨b, .tail _ hb, hscan⟩

/-! ## Decoded rows -/

def Readable (env : Env) (v : MCPServerLogRow5) : Prop :=
  (decodeColumn env.unmarshalRequest v.mcpRequest).isSome ∧
    (decodeColumn env.unmarshalResponse v.mcpResponse).isSome

instance (env : Env) (v : MCPServerLogRow5) : Decidable (Readable env v) :=
  inferInstanceAs (Decidable (_ ∧ _))

def logOf (env : Env) (l : UUID × MCPServerLogRow) : MCPServerLog :=
  { l.2 with
    id := l.1
    mcpRequest := (decodeColumn env.unmarshalRequest l.2.mcpRequest).join
    mcpResponse := (decodeColumn env.unmarshalResponse l.2.mcpResponse).join }

theorem scanLog_iff (env : Env) (l : UUID × MCPServerLogRow) (log : MCPServerLog) :
    scanLog env l = .ok log ↔ Readable env l.2.toMCPServerLogRow5 ∧ log = logOf env l := by
  simp only [scanLog, Readable, logOf]
  cases decodeColumn env.unmarshalRequest l.2.mcpRequest with
  | none => simp
  | some mcpRequest =>
    cases decodeColumn env.unmarshalResponse l.2.mcpResponse with
    | none => simp
    | some mcpResponse => simp [eq_comm]

theorem scanLog_error (env : Env) (l : UUID × MCPServerLogRow) (e : DbError)
    (h : scanLog env l = .error e) : e = .invalid ∧ ¬ Readable env l.2.toMCPServerLogRow5 := by
  refine ⟨?_, fun hread => ?_⟩
  · rw [scanLog] at h
    split at h <;> cases h
    rfl
  · rw [(scanLog_iff env l _).mpr ⟨hread, rfl⟩] at h
    cases h

/-- One row that is not readable fails the whole page. -/
theorem collectLogs_iff (env : Env) (ls : List (UUID × MCPServerLogRow))
    (logs : List MCPServerLog) : collectRows (scanLog env) ls = .ok logs ↔
      (∀ l ∈ ls, Readable env l.2.toMCPServerLogRow5) ∧ logs = ls.map (logOf env) := by
  rw [collectRows_iff]
  induction ls generalizing logs with
  | nil => simp
  | cons l ls ih =>
    rw [List.forall₂_cons_left_iff, List.forall_mem_cons, List.map_cons]
    constructor
    · rintro ⟨log, logs', hlog, hlogs, rfl⟩
      obtain ⟨hl, rfl⟩ := (scanLog_iff env l log).mp hlog
      obtain ⟨hls, rfl⟩ := (ih logs').mp hlogs
      exact ⟨⟨hl, hls⟩, rfl⟩
    · rintro ⟨⟨hl, hls⟩, rfl⟩
      exact ⟨_, _, (scanLog_iff env l _).mpr ⟨hl, rfl⟩, (ih _).mpr ⟨hls, rfl⟩, rfl⟩

theorem collectLogs_ok (env : Env) (ls : List (UUID × MCPServerLogRow))
    (h : ∀ l ∈ ls, Readable env l.2.toMCPServerLogRow5) :
    collectRows (scanLog env) ls = .ok (ls.map (logOf env)) :=
  (collectLogs_iff env ls _).mpr ⟨h, rfl⟩

theorem page_sub {α : Type} (count offset : Int64) (rows rows' : List α)
    (h : page count offset rows = .ok rows') : ∀ r ∈ rows', r ∈ rows := by
  intro r hr
  rw [page] at h
  split at h <;> cases h
  exact List.mem_of_mem_drop (List.mem_of_mem_take hr)

theorem page_length {α : Type} (count offset : Int64) (rows rows' : List α)
    (h : page count offset rows = .ok rows') : rows'.length ≤ count.toNatClampNeg := by
  rw [page] at h
  split at h <;> cases h
  exact List.length_take_le _ _

theorem mem_projectLogs (env : Env) (db : Db) (projectID : UUID) (id : Option UUID)
    (mcpSessionID : Option String) (l : UUID × MCPServerLogRow) :
    l ∈ projectLogs env db projectID id mcpSessionID ↔
      db.row .mcpServerLog l.1 = some l.2 ∧ l.2.projectID = projectID ∧ (∀ i ∈ id, l.1 = i) ∧
        ∀ s ∈ mcpSessionID, l.2.mcpSessionID = some s := by
  rw [projectLogs, (env.arrange_perm _).mem_iff, List.mem_filter, ← db.mem_scan,
    decide_eq_true_eq]

/-- A page of logs is decoded from readable rows of the project. -/
theorem getLogs_rows (env : Env) (db : Db) (projectID : UUID) (pagination : Pagination)
    (sorting : Sorting) (id : Option UUID) (mcpSessionID : Option String) (t : Tick)
    (logs : List MCPServerLog) (ws : List Image)
    (h : getLogsForProject env projectID pagination sorting id mcpSessionID t db =
      .ok (logs, ws)) :
    ∃ rows : List (UUID × MCPServerLogRow),
      (∀ l ∈ rows, l ∈ projectLogs env db projectID id mcpSessionID ∧
      Readable env l.2.toMCPServerLogRow5) ∧ logs = rows.map (logOf env) := by
  simp only [getLogsForProject, select] at h
  split at h
  · cases hpage : page pagination.count (pagination.count*pagination.page)
      ((projectLogs env db projectID id mcpSessionID).insertionSort (fun l l' =>
        ordered sorting.sortOrder (logLe sorting.sortBy) l.2 l'.2)) with
    | error e =>
      rw [hpage] at h
      cases h
    | ok rows =>
      cases hrows : collectRows (scanLog env) rows with
      | error e => simp [hpage, hrows, Except.map, bind, Except.bind] at h
      | ok logs' =>
        simp only [hpage, hrows, Except.map, bind, Except.bind, Except.ok.injEq,
          Prod.mk.injEq] at h
        obtain ⟨hread, hlogs⟩ := (collectLogs_iff env rows logs').mp hrows
        refine ⟨rows, fun l hl => ⟨?_, hread l hl⟩, h.1 ▸ hlogs⟩
        exact (List.mem_insertionSort _).mp (page_sub _ _ _ _ hpage l hl)
  · cases h

theorem promptData_id (r : PromptRow) (p : MCPServerLogPromptData) (h : promptData r = .ok p) :
    p.id = r.id := by
  rw [promptData] at h
  split at h <;> cases h
  rfl

/-- Every prompt of a page is that of a log of the project. -/
theorem getPrompts_rows (env : Env) (db : Db) (projectID : UUID) (pagination : Pagination)
    (sorting : Sorting) (mcpSessionID : Option String) (t : Tick)
    (ps : List MCPServerLogPromptData) (ws : List Image)
    (h : getPromptsForProject env projectID pagination sorting mcpSessionID t db = .ok (ps, ws)) :
    ∀ p ∈ ps, ∃ l ∈ projectLogs env db projectID none mcpSessionID, p.id = l.1 := by
  simp only [getPromptsForProject, select] at h
  split at h
  · cases hpage : page pagination.count (pagination.count*pagination.page)
      ((((projectLogs env db projectID none mcpSessionID).map (promptRow env)).filter
        (fun r => r.prompt.isSome)).insertionSort (fun r r' =>
          ordered sorting.sortOrder (promptLe env sorting.sortBy) r r')) with
    | error e => simp [hpage, Except.map, bind, Except.bind] at h
    | ok rows =>
      cases hrows : collectRows promptData rows with
      | error e => simp [hpage, hrows, Except.map, bind, Except.bind] at h
      | ok ps' =>
        simp only [hpage, hrows, Except.map, bind, Except.bind, Except.ok.injEq,
          Prod.mk.injEq] at h
        obtain ⟨rfl, -⟩ := h
        intro p hp
        obtain ⟨r, hr, hscan⟩ := mem_collectRows _ _ _ hrows p hp
        have hmem := (List.mem_insertionSort _).mp (page_sub _ _ _ _ hpage r hr)
        obtain ⟨l, hl, rfl⟩ := List.mem_map.mp (List.mem_of_mem_filter hmem)
        exact ⟨l, hl, promptData_id _ p hscan⟩
  · cases h

/-- A page that starts with the first row and has room for all rows is the whole list. -/
theorem page_all {α : Type} (count : Int64) (rows : List α)
    (h : rows.length ≤ count.toNatClampNeg) :
    page count (count*0) rows = .ok rows := by
  have hzero : count*0 = 0 := by
    rw [← Int64.toBitVec_inj]
    simp
  rw [hzero, page, if_neg (by decide)]
  have hfirst : (0 : Int64).toNatClampNeg = 0 := by decide
  rw [hfirst, List.drop_zero, List.take_of_length_le h]

end Jetski.Logs
