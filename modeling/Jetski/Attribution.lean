import Jetski.Deletion
import Jetski.Requests
import Jetski.Webhook
import Jetski.Relational.Informed

/-!
# Attribution of reported calls

A call served by a gateway is reported at the webhook URL of its proxy entry,
which names a revision. The revision of an entry is one of the project of the
entry, whatever is deployed later, so the log that is stored belongs to this
project. Nothing removes a log, and a project with logs is never deleted. A
page of logs is decoded row by row, so a stored request that cannot be read back
hides itself and fails every page that it is on.
-/

set_option autoImplicit false

namespace Jetski.Attribution

open Relational Schema Jetski.Types Database Handlers Routes Reachability Ownership
open Gateway GatewayConfig

/-! ## The path of the webhook -/

def webhookRoute : List Char := "/webhook/proxy/".toList

/-- The value of `{deploymentRevisionID}`, if the path matches the route: the rest
of the path, unless it is empty or has another segment. -/
def deploymentRevisionParam (path : String) : Option String :=
  if webhookRoute <+: path.toList then
    let rest := path.toList.drop webhookRoute.length
    if rest = [] ∨ '/' ∈ rest then none else some (String.ofList rest)
  else none

theorem param_of_path (s : String) (hne : s.toList ≠ []) (hs : '/' ∉ s.toList) :
    deploymentRevisionParam ("/webhook/proxy/"++s) = some s := by
  have hpath : ("/webhook/proxy/"++s).toList = webhookRoute++s.toList := String.toList_append
  rw [deploymentRevisionParam, hpath, if_pos (List.prefix_append _ _), List.drop_left]
  simp [hne, hs]

theorem uuidString_plain (id : UUID) :
    (uuidString id).toList ≠ [] ∧ '/' ∉ (uuidString id).toList := by
  have hdigits : (uuidString id).toList = Nat.toDigits 10 id := Nat.toList_repr
  rw [hdigits]
  constructor
  · exact Nat.toDigits_ne_nil
  · intro hm
    have hdigit := Nat.isDigit_of_mem_toDigits (by decide) (by decide) hm
    exact absurd hdigit (by decide)

def webhookRouter (env : Env) (parseUUID : String → Option UUID) (path : String)
    (body : Option WebhookPayload) : Api Unit :=
  match deploymentRevisionParam path with
  | none => respond 404 (.text "404 page not found")
  | some s =>
    gatewayWebhook env (match parseUUID s with | some id => .value id | none => .invalid) body

/-! ## Lists -/

section Lists
variable (env : Env) (db : Db) (p : UUID)

/-- The page of an element: its position divided by the size of the pages. -/
theorem mem_page {α : Type} (rows : List α) (a : α) (ha : a ∈ rows) (hl : rows.length < 2^63)
    (count : Int64) (hc : 0 < count) :
    ∃ number as, Logs.page count (count*number) rows = .ok as ∧ a ∈ as := by
  obtain ⟨n, hn, rfl⟩ := List.mem_iff_getElem.mp ha
  obtain ⟨c, hcount⟩ := Int.eq_ofNat_of_zero_le (Int64.lt_iff_toInt_lt.mp hc).le
  have hsize : count.toNatClampNeg = c := by rw [← Int64.toNat_toInt, hcount, Int.toNat_natCast]
  have hpos : 0 < c := by
    have hlt := Int64.lt_iff_toInt_lt.mp hc
    rw [hcount, Int64.toInt_zero] at hlt
    omega
  have hfloor : c*(n/c) ≤ n := Nat.mul_div_le n c
  have hnumber : n/c ≤ n := Nat.div_le_self n c
  have hoffset : (count*Int64.ofNat (n/c)).toInt = (c*(n/c) : ℕ) := by
    rw [Int64.toInt_mul, hcount, Int64.toInt_ofNat_of_lt (by omega), Nat.cast_mul]
    apply Int.bmod_eq_of_le <;> rw [← Nat.cast_mul] <;> omega
  have hnonneg : ¬ count*Int64.ofNat (n/c) < 0 := by
    rw [Int64.lt_iff_toInt_lt, hoffset, Int64.toInt_zero]
    omega
  have hstart : (count*Int64.ofNat (n/c)).toNatClampNeg = c*(n/c) := by
    rw [← Int64.toNat_toInt, hoffset, Int.toNat_natCast]
  refine ⟨Int64.ofNat (n/c), _, if_neg hnonneg, ?_⟩
  rw [hstart, hsize]
  have hrest : n-c*(n/c) < c := by
    have hmod := Nat.mod_lt n hpos
    have hsplit := Nat.div_add_mod n c
    omega
  refine List.mem_iff_getElem.mpr ⟨n-c*(n/c), ?_, ?_⟩
  · rw [List.length_take, List.length_drop]
    omega
  · rw [List.getElem_take, List.getElem_drop]
    congr 1
    omega

/-- The log is on a page of the project's logs, for any order and any size of the pages. -/
def Listed (l : UUID) (v : MCPServerLogRow) : Prop :=
  ∀ (count : Int64) (sorting : Sorting) (t : Tick), 0 < count → ∃ number logs,
    Logs.getLogsForProject env p ⟨count, number⟩ sorting none none t db = .ok (logs, []) ∧
      Logs.logOf env (l, v) ∈ logs

/-- The log is on a page of some size of the project's logs. -/
def OnPage (l : UUID) (v : MCPServerLogRow) : Prop :=
  ∃ pagination sorting t logs,
    Logs.getLogsForProject env p pagination sorting none none t db = .ok (logs, []) ∧
      Logs.logOf env (l, v) ∈ logs

def Unlisted (l : UUID) : Prop :=
  ∀ pagination sorting id session t logs ws,
    Logs.getLogsForProject env p pagination sorting id session t db = .ok (logs, ws) →
      ∀ log ∈ logs, log.id ≠ l

/-- Every stored log of the project can be read back. -/
def LogsReadable : Prop :=
  ∀ l v, db.row .mcpServerLog l = some v → v.projectID = p →
    Logs.Readable env v.toMCPServerLogRow5

theorem unlisted_of_row (l : UUID) (v : MCPServerLogRow) (hv : db.row .mcpServerLog l = some v)
    (h : v.projectID ≠ p ∨ ¬ Logs.Readable env v.toMCPServerLogRow5) : Unlisted env db p l := by
  intro pagination sorting id session t logs ws hlogs log hlog hid
  obtain ⟨rows, hrows, rfl⟩ := Logs.getLogs_rows env db p _ _ id session t logs ws hlogs
  obtain ⟨⟨k, row⟩, hm, rfl⟩ := List.mem_map.mp hlog
  obtain ⟨hmem, hread⟩ := hrows _ hm
  obtain ⟨hrow, hproject, -⟩ := (Logs.mem_projectLogs env db p id session _).mp hmem
  cases hid
  cases hv.symm.trans hrow
  exact h.elim (fun hp => hp hproject) (fun hr => hr hread)

theorem projectLogs_length (hl : (db.scan .mcpServerLog).length ≤ 2^62) :
    (Logs.projectLogs env db p none none).length ≤ 2^62 := by
  rw [Logs.projectLogs, (env.arrange_perm _).length_eq]
  exact (List.length_filter_le _ _).trans hl

abbrev sortedLogs (sorting : Sorting) : List (UUID × MCPServerLogRow) :=
  (Logs.projectLogs env db p none none).insertionSort (fun l l' =>
    Logs.ordered sorting.sortOrder (Logs.logLe sorting.sortBy) l.2 l'.2)

theorem mem_sortedLogs (sorting : Sorting) (x : UUID × MCPServerLogRow) :
    x ∈ sortedLogs env db p sorting ↔
      db.row .mcpServerLog x.1 = some x.2 ∧ x.2.projectID = p := by
  rw [sortedLogs, List.mem_insertionSort, Logs.mem_projectLogs]
  simp

/-- A page whose rows can be read back. -/
theorem getLogs_page (count number : Int64) (sorting : Sorting) (t : Tick)
    (rows : List (UUID × MCPServerLogRow))
    (hpage : Logs.page count (count*number) (sortedLogs env db p sorting) = .ok rows)
    (hrows : ∀ x ∈ rows, Logs.Readable env x.2.toMCPServerLogRow5) :
    Logs.getLogsForProject env p ⟨count, number⟩ sorting none none t db =
      .ok (rows.map (Logs.logOf env), []) := by
  simp only [Logs.getLogsForProject, Queries.select, Logs.storableText, Option.all_none, if_true,
    hpage, bind, Except.bind, Logs.collectLogs_ok env rows hrows]
  rfl

theorem onPage_of_readable (hl : (db.scan .mcpServerLog).length ≤ 2^62) (l : UUID)
    (v : MCPServerLogRow) (hv : db.row .mcpServerLog l = some v) (hp : v.projectID = p)
    (hread : Logs.Readable env v.toMCPServerLogRow5) : OnPage env db p l v := by
  have hlength := projectLogs_length env db p hl
  obtain ⟨number, rows, hpage, hrow⟩ := mem_page (sortedLogs env db p ⟨"started_at", .asc⟩) (l, v)
    ((mem_sortedLogs env db p _ _).mpr ⟨hv, hp⟩) (by rw [List.length_insertionSort]; omega) 1
    (by decide)
  -- the row is alone on a page of size one
  have hsingle : rows = [(l, v)] := by
    have hshort : rows.length ≤ 1 := Logs.page_length _ _ _ _ hpage
    have hone : rows.length = 1 := le_antisymm hshort (List.length_pos_of_mem hrow)
    obtain ⟨x, rfl⟩ := List.length_eq_one_iff.mp hone
    rw [List.mem_singleton.mp hrow]
  subst hsingle
  exact ⟨⟨1, number⟩, _, ⟨0, 0, 0⟩, _, getLogs_page env db p 1 number _ _ _ hpage
    (by simpa using hread), by simp⟩

theorem listed_of_readable (hl : (db.scan .mcpServerLog).length ≤ 2^62) (l : UUID)
    (v : MCPServerLogRow) (hv : db.row .mcpServerLog l = some v) (hp : v.projectID = p)
    (hread : LogsReadable env db p) : Listed env db p l v := by
  intro count sorting t hc
  have hlength := projectLogs_length env db p hl
  obtain ⟨number, rows, hpage, hrow⟩ := mem_page (sortedLogs env db p sorting) (l, v)
    ((mem_sortedLogs env db p _ _).mpr ⟨hv, hp⟩) (by rw [List.length_insertionSort]; omega) count hc
  have hrows : ∀ x ∈ rows, Logs.Readable env x.2.toMCPServerLogRow5 := by
    intro x hx
    obtain ⟨hrow, hproject⟩ := (mem_sortedLogs env db p _ _).mp (Logs.page_sub _ _ _ _ hpage x hx)
    exact hread x.1 x.2 hrow hproject
  exact ⟨number, rows.map (Logs.logOf env), getLogs_page env db p count number sorting t rows hpage
    hrows, List.mem_map_of_mem hrow⟩

/-- Pages of this size start at multiples of it, also where the offset wraps. -/
theorem wide_page {α : Type} (number : Int64) (rows as : List α) (hl : rows.length ≤ 2^62)
    (h : Logs.page 4611686018427387904 (4611686018427387904*number) rows = .ok as)
    (hne : as ≠ []) : as = rows := by
  have hoffset : ∃ n : ℕ, (4611686018427387904*number).toNatClampNeg = 4611686018427387904*n := by
    have hmul := Int64.toInt_mul 4611686018427387904 number
    rw [← Int64.toNat_toInt, hmul, show (4611686018427387904 : Int64).toInt =
      4611686018427387904 from rfl, Int.bmod_def]
    refine ⟨(4611686018427387904*number.toInt % 18446744073709551616/4611686018427387904).toNat*
      if 4611686018427387904*number.toInt % 18446744073709551616 < 9223372036854775808
        then 1 else 0, ?_⟩
    split <;> split <;> omega
  obtain ⟨n, hn⟩ := hoffset
  have hsize : (4611686018427387904 : Int64).toNatClampNeg = 4611686018427387904 := by decide
  rw [Logs.page] at h
  split at h
  · cases h
  · rw [hn, hsize] at h
    cases h
    cases n with
    | zero =>
      rw [Nat.mul_zero, List.drop_zero]
      exact List.take_of_length_le hl
    | succ n =>
      refine absurd ?_ hne
      rw [List.drop_eq_nil_of_le (hl.trans (by omega)), List.take_nil]

theorem readable_of_listed (hl : (db.scan .mcpServerLog).length ≤ 2^62) (l : UUID)
    (v : MCPServerLogRow) (h : Listed env db p l v) : LogsReadable env db p := by
  intro k row hrow hp
  obtain ⟨number, logs, hlogs, hmem⟩ := h 4611686018427387904 ⟨"started_at", .asc⟩ ⟨0, 0, 0⟩
    (by decide)
  have hlength := projectLogs_length env db p hl
  have hk := (mem_sortedLogs env db p ⟨"started_at", .asc⟩ (k, row)).mpr ⟨hrow, hp⟩
  simp only [Logs.getLogsForProject, Queries.select, Logs.storableText, Option.all_none,
    if_true] at hlogs
  cases hpage : Logs.page 4611686018427387904 (4611686018427387904*number)
      (sortedLogs env db p ⟨"started_at", .asc⟩) with
  | error e => simp [hpage, Except.map, bind, Except.bind] at hlogs
  | ok rows =>
    cases hrows : Logs.collectRows (Logs.scanLog env) rows with
    | error e => simp [hpage, hrows, Except.map, bind, Except.bind] at hlogs
    | ok logs' =>
      simp only [hpage, hrows, Except.map, bind, Except.bind, Except.ok.injEq,
        Prod.mk.injEq] at hlogs
      obtain ⟨hread, hmap⟩ := (Logs.collectLogs_iff env rows logs').mp hrows
      have hne : rows ≠ [] := by
        rintro rfl
        rw [← hlogs.1, hmap] at hmem
        cases hmem
      have hwhole := wide_page number _ rows (by rwa [List.length_insertionSort]) hpage hne
      exact hread (k, row) (hwhole ▸ hk)

end Lists

/-! ## Programs that follow rules -/

section Follows
variable (rule : StatementRule Key Row Stmt DbError) (allowed : List Db → KubeCall → Prop)

/-- Programs whose statements obey a rule and whose calls are allowed, whatever was seen before. -/
def Follows {α : Type} (p : Api α) : Prop :=
  ∀ seen, p.Informed rule allowed (fun _ _ => True) seen

theorem follows_ret {α : Type} (a : α) : Follows rule allowed (.ret a) := fun _ => trivial

theorem follows_bind {α β : Type} (p : Api α) (f : α → Api β) (h : Follows rule allowed p)
    (hf : ∀ a, Follows rule allowed (f a)) : Follows rule allowed (p.bind f) := by
  intro seen
  exact informed_bind _ _ _ p f seen
    (informed_mono _ _ _ _ (fun a seen' _ => hf a seen') p seen (h seen))

theorem follows_query {β : Type} (name : Stmt) (db : Handle) (f : Queries.Sql β)
    (h : rule β name db f) : Follows rule allowed (query name db f) :=
  fun _ => ⟨h, fun _ => trivial, fun _ _ _ _ _ => trivial⟩

theorem follows_respond (status : ℕ) (body : Body) : Follows rule allowed (respond status body) :=
  fun _ => ⟨trivial, trivial⟩

theorem follows_withProject (user : UserAccount) (projectID : Param UUID) (f : UUID → Api Unit)
    (hselect : ∀ id, rule Bool .canUserAccessProject .pool
      (Queries.canUserAccessProject user.id id))
    (h : ∀ id, Follows rule allowed (f id)) :
    Follows rule allowed (withProject user projectID f) := by
  have hdenied : ∀ status text, Follows rule allowed (show Api UUID from do
      respond status (.text text)
      return 0) := fun status text =>
    follows_bind rule allowed _ _ (follows_respond rule allowed _ _) fun _ =>
      follows_ret rule allowed 0
  refine follows_bind rule allowed _ _ ?_ fun id => ?_
  · cases projectID with
    | absent => exact follows_ret rule allowed 0
    | invalid => exact hdenied _ _
    | value id =>
      refine follows_bind rule allowed _ _
        (follows_query rule allowed _ _ _ (hselect id)) fun r => ?_
      cases r with
      | error e => exact hdenied _ _
      | ok b =>
        cases b with
        | false => exact hdenied _ _
        | true => exact follows_ret rule allowed id
  · split
    · exact follows_ret rule allowed ()
    · exact h id

end Follows

/-! ## Gateways name revisions of their projects -/

section Gateways
variable (env : Env)

/-- A gateway is applied with the summaries of projects that were read before. -/
def justified (seen : List Db) (c : KubeCall) : Prop :=
  ∀ name spec, c = .apply name spec → ∃ db ∈ seen, ∃ org : Organization,
    spec = gatewaySpec org (Queries.projectSummaries env db org.id)

abbrev Justified {α : Type} (p : Api α) : Prop :=
  Follows (fun _ _ _ _ => True) (justified env) p

theorem justified_ret {α : Type} (a : α) : Justified env (.ret a) := follows_ret _ _ a

theorem justified_bind {α β : Type} (p : Api α) (f : α → Api β) (h : Justified env p)
    (hf : ∀ a, Justified env (f a)) : Justified env (p.bind f) :=
  follows_bind _ _ p f h hf

theorem justified_query {β : Type} (name : Stmt) (db : Handle) (f : Queries.Sql β) :
    Justified env (query name db f) :=
  follows_query _ _ name db f trivial

theorem justified_runTx {α : Type} (db : Handle) (f : Handle → Api (Except DbError α))
    (hf : ∀ tx, Justified env (f tx)) : Justified env (runTx db f) := by
  intro seen
  refine ⟨trivial, fun r => ?_⟩
  cases r with
  | none => trivial
  | some tx =>
    refine justified_bind env (f tx) _ (hf tx) (fun r => ?_) seen
    cases r with
    | error e => exact fun _ => ⟨trivial, trivial⟩
    | ok a => exact fun _ => ⟨trivial, fun ok => by cases ok <;> trivial⟩

theorem justified_applyGateway (db : Handle) (org : Organization) :
    Justified env (applyGateway env db org) := by
  intro seen
  refine ⟨trivial, fun e => trivial, fun t rows pss ws hf => ?_⟩
  have hpss : pss = Queries.projectSummaries env rows org.id := by
    cases hf
    rfl
  refine ⟨fun name spec hc => ⟨rows, List.mem_cons_self, org, ?_⟩,
    fun ok => by cases ok <;> trivial⟩
  rw [← hpss]
  split at hc
  · cases hc
  · cases hc
    rfl

/-- Programs that send nothing but gateways that they apply. -/
theorem justified_built (T : Table → Prop) {α : Type} (p : Api α)
    (h : Built env T (fun _ => False) p) : Justified env p := by
  induction h with
  | ret a => exact justified_ret env a
  | bind _ _ ihp ihf => exact justified_bind env _ _ ihp ihf
  | runTx db _ ih => exact justified_runTx env db _ ih
  | call c h => exact h.elim
  | applyGateway db org => exact justified_applyGateway env db org
  | emit o => exact fun _ => ⟨trivial, trivial⟩
  | createDeploymentRevision _ _ db dr =>
    refine justified_runTx env db _ fun tx => ?_
    refine justified_bind env _ _ (justified_query env _ _ _) fun r => ?_
    cases r with
    | error e => exact justified_ret env _
    | ok res =>
      refine justified_bind env _ _ (justified_query env _ _ _) fun r => ?_
      cases r <;> exact justified_ret env _
  | createHostedDeploymentRevision _ _ db =>
    refine justified_runTx env db _ fun tx => ?_
    refine justified_bind env _ _ (justified_query env _ _ _) fun r => ?_
    cases r with
    | error e => exact justified_ret env _
    | ok res =>
      refine justified_bind env _ _ (justified_query env _ _ _) fun r => ?_
      cases r <;> exact justified_ret env _
  | addDeploymentRevisionEvent =>
    refine justified_bind env _ _ (justified_query env _ _ _) fun r => ?_
    cases r with
    | error e => exact justified_ret env _
    | ok eventID => exact justified_query env _ _ _
  | _ => exact justified_query env _ _ _

end Gateways

section Wired
variable {σ : Type} (env : Env)

/-- Every project of a gateway is named with a revision of its own. -/
def Wired (x : Conf σ) : Prop :=
  ∀ name spec, x.srv.ext name = some spec → ∀ s ∈ spec.projects, ∃ p d,
    s.projectID = uuidString p ∧ s.deploymentRevisionID = uuidString d ∧
      Known labelling x .deploymentRevision d p

/-- Rows that are remembered give only specifications that name own revisions. -/
theorem remembered_spec (x : Conf σ) (db : Db) (h : Remembered labelling x db) (orgID : UUID)
    (s : ProjectSpec) (hs : s ∈ (Queries.projectSummaries env db orgID).filterMap deployedProject) :
    ∃ p d, s.projectID = uuidString p ∧ s.deploymentRevisionID = uuidString d ∧
      Known labelling x .deploymentRevision d p := by
  obtain ⟨id, v, d, dr, ps, hd, hps, hds⟩ := deployed_of_spec env db orgID s hs
  have hspec := hds.symm.trans (deployedProject_of_deployed db orgID id v d dr hd ps hps)
  have hpointers : pointersAgree (Known labelling x) .project id v :=
    h.agrees .project id v hd.project
  cases hspec
  exact ⟨id, d, rfl, rfl, hpointers.1 d hd.latest⟩

variable [DecidableEq σ]

theorem step_wired (x : Conf σ) (i : σ) (fail : Bool) {β : Type}
    (a : Action Key Row Stmt DbError KubeCall Output β) (seen : List Db)
    (hfits : a.Fits (fun _ _ _ _ => True) (justified env) seen)
    (hseen : ∀ db ∈ seen, Remembered labelling x db)
    (hkeep : Keeps labelling x (x.exec backend i fail a).2) (h : Wired x) :
    Wired (x.exec backend i fail a).2 := by
  intro name spec hspec s hs
  have hold : ∀ spec', x.srv.ext name = some spec' → s ∈ spec'.projects → ∃ p d,
      s.projectID = uuidString p ∧ s.deploymentRevisionID = uuidString d ∧
        Known labelling (x.exec backend i fail a).2 .deploymentRevision d p := by
    intro spec' hspec' hs'
    obtain ⟨p, d, hp, hd, hk⟩ := h name spec' hspec' s hs'
    exact ⟨p, d, hp, hd, hkeep.2 _ _ _ hk⟩
  change (a.exec backend i fail x.srv (x.ses i)).2.1.ext name = some spec at hspec
  rcases exec_ext backend i fail a x.srv (x.ses i) with hext | ⟨c, hc, hext⟩
  · rw [hext] at hspec
    exact hold spec hspec hs
  · rw [hext] at hspec
    by_cases hname : c.name = name
    · cases c with
      | delete n =>
        have hname : n = name := hname
        simp [backend, react, hname] at hspec
      | apply n applied =>
        have hname : n = name := hname
        subst hname
        obtain ⟨db, hdb, org, rfl⟩ := fits_called _ _ seen a _ hfits hc n applied rfl
        simp only [backend, react, served_gatewaySpec, Function.update_self] at hspec
        cases hspec
        obtain ⟨p, d, hp, hd, hk⟩ := remembered_spec env x db (hseen db hdb) org.id s hs
        exact ⟨p, d, hp, hd, hkeep.2 _ _ _ hk⟩
    · change react c x.srv.ext name = some spec at hspec
      rw [react_other c x.srv.ext name hname] at hspec
      exact hold spec hspec hs

end Wired

/-! ## Logs stay -/

/-- A deletion clears rows of projects only. -/
theorem deletion_images (db : Db) (p : UUID) (ws : List Image)
    (h : deleteRow foreignKeys tables .project p db = .ok ws) (l : UUID) (v : MCPServerLogRow) :
    (⟨.mcpServerLog, l, some v⟩ : Image) ∉ ws := by
  intro hw
  have hclear : ∀ f ∈ foreignKeys, f.onDelete = .setNull → f.child ≠ .mcpServerLog := by
    intro f hf hnull
    simp only [foreignKeys, List.mem_cons, List.not_mem_nil, or_false] at hf
    rcases hf with rfl | rfl | rfl | rfl | rfl | rfl | rfl | rfl | rfl | rfl | rfl | rfl | rfl |
      rfl | rfl <;> first | decide | cases hnull
  exact deleteRow_cleared foreignKeys tables (fun _ _ _ => True) (fun t _ _ => t ≠ .mcpServerLog)
    (fun f hf hnull _ _ _ => hclear f hf hnull) (fun _ _ _ _ => trivial) .project p db ws
    (fun _ _ _ _ => trivial) h .mcpServerLog l v hw rfl

section LogRules
variable (env : Env) (names : MCPServerLogRow → Prop)

/-- What a statement may do to logs: nothing, or on the pool store one or delete a project. -/
inductive LogEffect (h : Handle) (t : Tick) (db : Db) (ws : List Image) : Prop
  | untouched : (∀ w ∈ ws, w.table ≠ .mcpServerLog) → LogEffect h t db ws
  | stored (v : MCPServerLogRow) : h = .pool → names v →
    ws = [⟨.mcpServerLog, t.fresh, some v⟩] → LogEffect h t db ws
  | deletion (p : UUID) : h = .pool →
    deleteRow foreignKeys tables .project p db = .ok ws → LogEffect h t db ws

def logRule : StatementRule Key Row Stmt DbError :=
  fun _ _ h f => ∀ t db b ws, f t db = .ok (b, ws) → LogEffect names h t db ws

abbrev Logging {α : Type} (p : Api α) : Prop := Follows (logRule names) (fun _ _ => True) p

theorem logRule_select {β : Type} (name : Stmt) (h : Handle) (rows : Db → Except DbError β) :
    logRule names β name h (Queries.select rows) := by
  intro t db b ws hf
  rw [read_ok _ b ws hf]
  exact .untouched (by simp)

/-- Programs that write other tables only. -/
theorem logging_built {α : Type} (p : Api α)
    (h : Built env (fun t => t ≠ .mcpServerLog) (fun _ => True) p) : Logging names p := by
  have hfoot := Requests.built_footprint _ env p h
  clear h
  induction p with
  | ret a => exact follows_ret _ _ a
  | act a k ih =>
    intro seen
    have hrest : ∀ b seen, (k b).Informed (logRule names) (fun _ _ => True)
      (fun _ _ => True) seen :=
      fun b => ih b (hfoot.2 b)
    cases a with
    | stmt name hd f =>
      exact ⟨fun t db b ws hf => .untouched (hfoot.1 t db b ws hf), fun e => hrest _ _,
        fun t db b ws _ => hrest _ _⟩
    | begin hd => exact ⟨trivial, fun tx => hrest _ _⟩
    | commit hd => exact ⟨trivial, fun ok => hrest _ _⟩
    | rollback hd => exact ⟨trivial, hrest _ _⟩
    | call c => exact ⟨trivial, fun ok => hrest _ _⟩
    | emit o => exact ⟨trivial, hrest _ _⟩

theorem logging_deleteProject (user : UserAccount) (projectID : Param UUID) :
    Logging names (deleteProjectHandler env user projectID) := by
  refine follows_withProject _ _ user projectID _
    (fun id => logRule_select names _ _ _) fun id => ?_
  refine follows_bind _ _ _ _ (logging_built env names _ (.select _ _ _)) fun r => ?_
  cases r with
  | error e => cases e <;> exact follows_respond _ _ _ _
  | ok project =>
    have hdelete : logRule names ℕ .deleteProject .pool (Queries.deleteProject id) := by
      intro t db n ws hf
      rw [Queries.deleteProject] at hf
      split at hf
      · cases hf
        exact .untouched (by simp)
      · split at hf
        · cases hf
        · next hd =>
          cases hf
          exact .deletion id rfl hd
    refine follows_bind _ _ _ _ (follows_bind _ _ _ _ (follows_query _ _ _ _ _ hdelete) fun r => ?_)
      fun r => ?_
    · cases r with
      | error e => exact follows_ret _ _ _
      | ok n =>
        dsimp only
        split <;> exact follows_ret _ _ _
    · cases r with
      | error e => exact follows_respond _ _ _ _
      | ok _ =>
        exact follows_bind _ _ _ _ (logging_built env names _ (.applyGateway _ _)) fun _ =>
          follows_respond _ _ _ _

theorem handle_logging (rt : Analytics.Runtime) (user : UserAccount)
    (route : Route) :
    Logging names (handle rt env user route) := by
  cases route with
  | deleteProject projectID => exact logging_deleteProject env names user projectID
  | _ =>
    exact logging_built env names _
      (ApiRuns.handle_built rt env _ user _ (by simp [ApiRuns.tablesOf]))

theorem serve_logging (rt : Analytics.Runtime) (email : Option String)
    (route : Route) :
    Logging names (serve rt env email route) := by
  cases email with
  | none => exact follows_respond _ _ _ _
  | some email =>
    have hlookup : Logging names (getUserByEmailOrCreate env .pool email) :=
      logging_built env names _
        (.bind (.getUserByEmailOrCreate (by decide) _ _) fun r => .ret (r.mapError notFound))
    refine follows_bind _ _ _ _ hlookup fun r => ?_
    cases r with
    | error e => cases e <;> exact follows_respond _ _ _ _
    | ok user => exact handle_logging env names rt user route

/-- The webhook stores logs of the revision and with the fields of the payload. -/
theorem gatewayWebhook_logging (id : Param UUID) (body : Option WebhookPayload)
    (hnames : ∀ d payload user projectID, id = .value d → body = some payload →
      names { Logs.storedLog (mcpLogEntry payload d user) with projectID := projectID }) :
    Logging names (gatewayWebhook env id body) := by
  cases body with
  | none => exact follows_respond _ _ _ _
  | some payload =>
    cases id with
    | absent => exact follows_respond _ _ _ _
    | invalid => exact follows_respond _ _ _ _
    | value d =>
      have hlookup : Logging names (getUserByEmail env .pool payload.subjectEmail) :=
        logging_built env names _ (.bind (.select _ _ _) fun r => .ret (r.mapError notFound))
      refine follows_bind _ _ _ _ hlookup fun r => ?_
      cases r with
      | error e => exact follows_ret _ _ ()
      | ok user =>
        have hstore : logRule names (UUID × MCPServerLogRow) .createMCPServerLog .pool
            (Logs.createMCPServerLog (mcpLogEntry payload d user)) := by
          intro t db l ws hf
          obtain ⟨r, -, -, rfl, rfl⟩ := Webhook.createMCPServerLog_ok db _ t l ws hf
          exact .stored _ rfl (hnames d payload user r.projectID rfl rfl) rfl
        have hcreate : Logging names (createMCPServerLog env .pool (mcpLogEntry payload d user)) :=
          follows_bind _ _ _ _ (follows_query _ _ _ _ _ hstore) fun r => by
            cases r <;> exact follows_ret _ _ _
        refine follows_bind _ _ _ _ hcreate fun r => ?_
        cases r with
        | error e => cases e <;> exact follows_respond _ _ _ _
        | ok _ => exact follows_ret _ _ ()

end LogRules

section Stored
variable {σ : Type} (names : σ → MCPServerLogRow → Prop) (start : ℕ)

/-- Every log that was committed since the start is still there, and it is one
that its client stores. There are no others, and open transactions have none. -/
structure Stored (x : Conf σ) : Prop where
  sound : Sound schema x.srv.db
  begun : start ≤ x.srv.wal.length
  pending : ∀ j, ∀ w ∈ (x.ses j).pending, w.table ≠ .mcpServerLog
  logged : ∀ c ∈ x.srv.wal.drop start, ∀ l v, (⟨.mcpServerLog, l, some v⟩ : Image) ∈ c.images →
    names c.client v ∧ x.srv.db.row .mcpServerLog l = some v
  held : ∀ l v, x.srv.db.row .mcpServerLog l = some v →
    ∃ c ∈ x.srv.wal.drop start, (⟨.mcpServerLog, l, some v⟩ : Image) ∈ c.images

theorem untouched_logs (db : Db) (ws : List Image) (h : ∀ w ∈ ws, w.table ≠ .mcpServerLog)
    (l : UUID) : (db.replay ws).row .mcpServerLog l = db.row .mcpServerLog l := by
  apply Store.replay_untouched
  intro w hw htouch
  exact h w hw (congrArg Sigma.fst htouch)

/-- A project whose deletion succeeds has no logs. -/
theorem deletion_logs (db : Db) (hc : Pointers db) (p : UUID) (ws : List Image)
    (h : deleteRow foreignKeys tables .project p db = .ok ws) (l : UUID) :
    (db.replay ws).row .mcpServerLog l = db.row .mcpServerLog l := by
  refine (Deletion.deleteRow_deletes db p hc ws h .mcpServerLog l).2 ?_
  rintro ⟨v, hv, hp⟩
  exact Deletion.deleteRow_error db p ⟨l, v, hv, hp⟩ ws h

/-- Images that keep the logs and add only such that the client stores. -/
structure KeepsLogs (x : Conf σ) (i : σ) (ws : List Image) : Prop where
  kept : ∀ l v, x.srv.db.row .mcpServerLog l = some v →
    (x.srv.db.replay ws).row .mcpServerLog l = some v
  new : ∀ l v, (⟨.mcpServerLog, l, some v⟩ : Image) ∈ ws →
    names i v ∧ (x.srv.db.replay ws).row .mcpServerLog l = some v

theorem keepsLogs_untouched (x : Conf σ) (i : σ) (ws : List Image)
    (h : ∀ w ∈ ws, w.table ≠ .mcpServerLog) : KeepsLogs names x i ws where
  kept l _ hv := (untouched_logs _ ws h l).trans hv
  new _ _ hm := absurd rfl (h _ hm)

theorem keepsLogs_effect (x : Conf σ) (hx : Labelled labelling x) (i : σ) (ws : List Image)
    (t : Tick) (hfresh : t.fresh = x.srv.next)
    (he : LogEffect (names i) .pool t x.srv.db ws) (h : Stored names start x) :
    KeepsLogs names x i ws := by
  cases he with
  | untouched hw => exact keepsLogs_untouched names x i ws hw
  | stored v _ hname he =>
    subst he
    constructor
    · intro l v' hv'
      have hborn : l < x.srv.next := (hx.known .mcpServerLog l v' (Or.inl hv')).1
      have hne : l ≠ t.fresh := by
        rw [hfresh]
        exact hborn.ne
      exact (Store.set_key _ _ _ _ _ hne).trans hv'
    · intro l v' hm
      cases List.mem_singleton.mp hm
      exact ⟨hname, Store.set_same _ _ _ _⟩
  | deletion p _ hdel =>
    have hpointers := (labelled_consistent x hx h.sound).toPointers
    constructor
    · intro l v hv
      rwa [deletion_logs _ hpointers p ws hdel]
    · intro l v hm
      exact absurd hm (deletion_images _ p ws hdel l v)

/-- Whatever an action commits keeps the logs. -/
theorem commit_keepsLogs (x : Conf σ) (hx : Labelled labelling x) (i : σ) {β : Type}
    (a : Action Key Row Stmt DbError KubeCall Output β) (seen : List Db)
    (hfits : a.Fits (logRule (names i)) (fun _ _ => True) seen) (h : Stored names start x)
    (ws : List Image) (hws : ws = (x.ses i).pending ∨ ws = a.writes x.srv (x.ses i)) :
    KeepsLogs names x i ws := by
  rcases hws with rfl | rfl
  · exact keepsLogs_untouched names x i _ (h.pending i)
  · cases a with
    | stmt name hd f =>
      rw [Action.writes]
      split
      · next b ws hf =>
        have he := hfits _ _ b ws hf
        cases hd with
        | pool => exact keepsLogs_effect names start x hx i ws _ rfl he h
        | tx d =>
          cases he with
          | untouched hw => exact keepsLogs_untouched names x i ws hw
          | stored _ hpool => cases hpool
          | deletion _ hpool => cases hpool
      · exact keepsLogs_untouched names x i [] (by simp)
    | begin | commit | rollback | call | emit => exact keepsLogs_untouched names x i [] (by simp)

variable [DecidableEq σ]

/-- Open transactions do not write logs. -/
theorem step_pending (x : Conf σ) (i : σ) (fail : Bool) {β : Type}
    (a : Action Key Row Stmt DbError KubeCall Output β) (seen : List Db)
    (hfits : a.Fits (logRule (names i)) (fun _ _ => True) seen) (h : Stored names start x) (j : σ)
    (w : Image) (hw : w ∈ ((x.exec backend i fail a).2.ses j).pending) :
    w.table ≠ .mcpServerLog := by
  by_cases hj : j = i
  · subst hj
    simp only [Config.exec, Function.update_self] at hw
    have hpending := exec_pending backend j fail a x.srv (x.ses j) w hw
    cases a with
    | stmt name hd f =>
      cases hd with
      | pool => exact h.pending j w (by rwa [exec_pool_session] at hw)
      | tx d =>
        rcases hpending with hp | hp
        · exact h.pending j w hp
        · rw [Action.writes] at hp
          split at hp
          · next b ws hf =>
            cases hfits _ _ b ws hf with
            | untouched hw => exact hw w hp
            | stored _ hpool => cases hpool
            | deletion _ hpool => cases hpool
          · cases hp
    | begin | commit | rollback | call | emit =>
      exact h.pending j w (hpending.resolve_right (by simp [Action.writes]))
  · simp only [Config.exec, Function.update_of_ne hj] at hw
    exact h.pending j w hw

theorem step_stored (x : Conf σ) (hx : Labelled labelling x) (i : σ) (fail : Bool) {β : Type}
    (a : Action Key Row Stmt DbError KubeCall Output β) (seen : List Db)
    (hadm : postgres x i fail β a)
    (hfits : a.Fits (logRule (names i)) (fun _ _ => True) seen) (h : Stored names start x) :
    Stored names start (x.exec backend i fail a).2 := by
  have hpending := step_pending names start x i fail a seen hfits h
  have hcommits : Commits i a x.srv (x.ses i) (x.exec backend i fail a).2.srv :=
    exec_commits backend i fail a x.srv (x.ses i)
  cases hcommits with
  | nothing hdb hwal =>
    refine ⟨hadm.2, hwal ▸ h.begun, hpending, fun c hc l v hm => ?_, fun l v hv => ?_⟩
    · rw [hwal] at hc
      rw [hdb]
      exact h.logged c hc l v hm
    · rw [hdb] at hv
      rw [hwal]
      exact h.held l v hv
  | images since ws hws hdb hwal =>
    have hkeeps := commit_keepsLogs names start x hx i a seen hfits h ws hws
    refine ⟨hadm.2, ?_, hpending, fun c hc l v hm => ?_, fun l v hv => ?_⟩
    · rw [hwal, List.length_append]
      exact Nat.le_add_right_of_le h.begun
    · rw [hwal, List.drop_append_of_le_length h.begun] at hc
      rw [hdb]
      rcases List.mem_append.mp hc with hc | hc
      · obtain ⟨hname, hv⟩ := h.logged c hc l v hm
        exact ⟨hname, hkeeps.kept l v hv⟩
      · cases List.mem_singleton.mp hc
        exact hkeeps.new l v hm
    · rw [hdb] at hv
      rw [hwal, List.drop_append_of_le_length h.begun]
      rcases Store.replay_row _ _ _ _ _ hv with hold | hnew
      · obtain ⟨c, hc, hm⟩ := h.held l v hold
        exact ⟨c, List.mem_append_left _ hc, hm⟩
      · exact ⟨_, List.mem_append_right _ (List.mem_singleton_self _), hnew⟩

end Stored

/-! ## Runs -/

/-- The entry that the configuration of a gateway has for a project. -/
def EntryOf (env : Env) (gateway : MCPGateway) (p : UUID) (e : Proxy) : Prop :=
  ∃ cfg s, getGatewayConfig env gateway = some cfg ∧ e ∈ cfg.proxy ∧ s ∈ gateway.spec.projects ∧
    s.projectID = uuidString p ∧ proxyEntry env s = some e

theorem entry_webhook (env : Env) (s : ProjectSpec) (e : Proxy) (h : proxyEntry env s = some e) :
    e.webhook = some ⟨"POST",
      ⟨env.hostScheme, env.host, "/webhook/proxy/"++s.deploymentRevisionID, ""⟩⟩ := by
  obtain ⟨_, _, _, _, _, proxyURL⟩ := s
  cases proxyURL with
  | none =>
    cases h
    rfl
  | some u =>
    cases hu : env.parse u with
    | none => simp [proxyEntry, hu] at h
    | some url =>
      simp only [proxyEntry, hu] at h
      cases h
      rfl

section Runs
variable {σ : Type} (rt : Analytics.Runtime) (env : Env) (parseUUID : String → Option UUID)

/-- The programs of the API: requests of users, and posts to the webhook. -/
def Client (p : Api Unit) : Prop :=
  (∃ email route, p = serve rt env email route) ∨
    ∃ path body, p = webhookRouter env parseUUID path body

/-- The client has stored the log since the start. -/
def Reported (w₀ w : ApiWorld σ) (i : σ) (l : UUID) (v : MCPServerLogRow) : Prop :=
  ∃ c ∈ w.cfg.srv.wal.drop w₀.cfg.srv.wal.length, c.client = i ∧
    (⟨.mcpServerLog, l, some v⟩ : Image) ∈ c.images

theorem client_built {K : KubeCall → Prop} (p : Api Unit) (h : Client rt env parseUUID p) :
    Built env (fun _ => True) K p := by
  rcases h with ⟨email, route, rfl⟩ | ⟨path, body, rfl⟩
  · exact ApiRuns.serve_built rt env _ trivial email route (fun _ _ => trivial)
  · rw [webhookRouter]
    split
    · exact ApiRuns.built_respond env _ _ _
    · exact ApiRuns.gatewayWebhook_built env _ trivial _ body

theorem client_justified (p : Api Unit) (h : Client rt env parseUUID p) : Justified env p :=
  justified_built env _ p (client_built rt env parseUUID p h)

/-- Only the webhook stores logs, those of its payload. -/
theorem client_logging (names : MCPServerLogRow → Prop) (p : Api Unit)
    (h : Client rt env parseUUID p)
    (hnames : ∀ path payload d user projectID, p = webhookRouter env parseUUID path (some payload) →
      names { Logs.storedLog (mcpLogEntry payload d user) with projectID := projectID }) :
    Logging names p := by
  rcases h with ⟨email, route, rfl⟩ | ⟨path, body, rfl⟩
  · exact serve_logging env names rt email route
  · cases hparam : deploymentRevisionParam path with
    | none =>
      rw [webhookRouter, hparam]
      exact follows_respond _ _ _ _
    | some s =>
      have hlogging : Logging names (gatewayWebhook env
          (match parseUUID s with | some id => .value id | none => .invalid) body) := by
        refine gatewayWebhook_logging env names _ body fun d payload user projectID _ hbody => ?_
        exact hnames path payload d user projectID (hbody ▸ rfl)
      rw [webhookRouter, hparam]
      exact hlogging

variable [DecidableEq σ] (w₀ w₁ w : ApiWorld σ)

theorem client_informed (rule : σ → StatementRule Key Row Stmt DbError)
    (allowed : List Db → KubeCall → Prop) (h₀ : Initial w₀)
    (hp : ∀ i, Client rt env parseUUID (w₀.prog i))
    (hf : ∀ i, Follows (rule i) allowed (w₀.prog i)) :
    AllInformed labelling backend postgres rule allowed (fun _ y => Labelled labelling y ∧ True)
      w₀ where
  safe i := built_keeping i postgres env _ (w₀.prog i) (client_built rt env parseUUID _ (hp i))
    w₀.cfg (initial_labelled w₀ h₀)
  labelled := initial_labelled w₀ h₀
  informed i := ⟨[], by simp, hf i []⟩

omit [DecidableEq σ] in
theorem stored_initial (h₀ : Initial w₀) (names : σ → MCPServerLogRow → Prop) :
    Stored names w₀.cfg.srv.wal.length w₀.cfg where
  sound := h₀.db ▸ sound_empty schema
  begun := Nat.le_refl _
  pending j w hw := by simp [Session.pending, h₀.idle j] at hw
  logged c hc := by simp at hc
  held l v hv := by
    rw [h₀.db] at hv
    cases hv

/-- The entry of a project names a revision that was and remains its own. -/
theorem entry_known (h₀ : Initial w₀) (hext : ∀ name, w₀.cfg.srv.ext name = none)
    (hp : ∀ i, Client rt env parseUUID (w₀.prog i))
    (hparse : ∀ id, parseUUID (uuidString id) = some id)
    (h₁ : Run backend postgres w₀ w₁) (h : Run backend postgres w₁ w) (name : String)
    (spec : MCPGatewaySpec) (hspec : w₁.cfg.srv.ext name = some spec) (p : UUID) (e : Proxy)
    (he : EntryOf env ⟨name, spec⟩ p e) : Labelled labelling w.cfg ∧ ∃ d,
      e.webhook = some ⟨"POST",
        ⟨env.hostScheme, env.host, "/webhook/proxy/"++uuidString d, ""⟩⟩ ∧
      Known labelling w.cfg .deploymentRevision d p := by
  have hinformed := client_informed rt env parseUUID w₀ (fun _ _ _ _ _ => True)
    (justified env) h₀ hp (fun i => client_justified rt env parseUUID _ (hp i))
  have hwired : Wired w₀.cfg := by
    intro name spec hspec
    rw [hext name] at hspec
    cases hspec
  obtain ⟨hinformed₁, -, hwired₁⟩ := run_informed labelling backend postgres _ _ _ Wired
    (fun x i fail β a seen _ hfits hseen _ hkeep hx => step_wired env x i fail a seen hfits hseen
      hkeep hx) w₀ w₁ h₁ hinformed hwired
  obtain ⟨hinformed₂, hkeep, -⟩ := run_informed labelling backend postgres _ _ _ (fun _ => True)
    (fun _ _ _ _ _ _ _ _ _ _ _ _ => trivial) w₁ w h hinformed₁ trivial
  obtain ⟨cfg, s, -, -, hs, hproject, hentry⟩ := he
  obtain ⟨p', d, hp', hd, hk⟩ := hwired₁ name spec hspec s hs
  have hsame : p' = p := by
    have hid := hparse p
    rw [← hproject, hp', hparse p'] at hid
    exact Option.some.inj hid
  subst hsame
  refine ⟨hinformed₂.labelled, d, ?_, hkeep.2 _ _ _ hk⟩
  rw [← hd]
  exact entry_webhook env s e hentry

/-- What holds of the logs since the start if every client stores only such that are its own. -/
theorem run_stored (names : σ → MCPServerLogRow → Prop) (h₀ : Initial w₀)
    (hp : ∀ i, Client rt env parseUUID (w₀.prog i))
    (hlogging : ∀ j, Logging (names j) (w₀.prog j)) (h : Run backend postgres w₀ w) :
    Stored names w₀.cfg.srv.wal.length w.cfg := by
  obtain ⟨-, -, hstored⟩ := run_informed labelling backend postgres _ _ _ _
    (fun x j fail β a seen hadm hfits _ hx _ hs => step_stored _ _ x hx j fail a seen hadm hfits hs)
    w₀ w h (client_informed rt env parseUUID w₀ _ (fun _ _ => True) h₀ hp hlogging)
    (stored_initial w₀ h₀ names)
  exact hstored

/-- The logs of a client that posts to the webhook are those of its payload, and they stay. -/
theorem reported_stays (h₀ : Initial w₀) (hp : ∀ i, Client rt env parseUUID (w₀.prog i))
    (h : Run backend postgres w₀ w) (i : σ) (path : String) (payload : WebhookPayload)
    (hi : w₀.prog i = webhookRouter env parseUUID path (some payload))
    (l : UUID) (v : MCPServerLogRow) (hl : Reported w₀ w i l v) :
    Sound schema w.cfg.srv.db ∧ w.cfg.srv.db.row .mcpServerLog l = some v ∧
      ∃ d user, ((deploymentRevisionParam path).bind parseUUID) = some d ∧
        v.toMCPServerLogRow5 = Logs.storedLog (mcpLogEntry payload d user) := by
  have hlogging : ∀ j, Logging (fun v => j = i → ∃ d user,
      ((deploymentRevisionParam path).bind parseUUID) = some d ∧
        v.toMCPServerLogRow5 = Logs.storedLog (mcpLogEntry payload d user)) (w₀.prog j) := by
    intro j
    by_cases hj : j = i
    · subst hj
      rw [hi, webhookRouter]
      cases hparam : deploymentRevisionParam path with
      | none => exact follows_respond _ _ _ _
      | some s =>
        refine gatewayWebhook_logging env _ _ _ fun d payload' user _ hd hbody _ => ?_
        cases hbody
        refine ⟨d, user, ?_, rfl⟩
        cases hparse : parseUUID s with
        | none =>
          rw [hparse] at hd
          cases hd
        | some id =>
          rw [hparse] at hd
          cases hd
          exact hparse
    · exact client_logging rt env parseUUID _ _ (hp j) fun _ _ _ _ _ _ hji => absurd hji hj
  have hstored := run_stored rt env parseUUID w₀ w _ h₀ hp hlogging h
  obtain ⟨c, hc, hclient, hm⟩ := hl
  obtain ⟨hname, hrow⟩ := hstored.logged c hc l v hm
  exact ⟨hstored.sound, hrow, hname hclient⟩

omit [DecidableEq σ] in
/-- Every payload that was stored for the project can be read back. -/
def PayloadsRead (p : UUID) : Prop :=
  ∀ i path payload, w₀.prog i = webhookRouter env parseUUID path (some payload) →
    (∃ l v, Reported w₀ w i l v ∧ v.projectID = p) → Webhook.ReadBack env payload

/-- All logs are those of payloads. -/
theorem logsReadable_iff (h₀ : Initial w₀) (hp : ∀ i, Client rt env parseUUID (w₀.prog i))
    (h : Run backend postgres w₀ w) (p : UUID) :
    LogsReadable env w.cfg.srv.db p ↔ PayloadsRead env parseUUID w₀ w p := by
  have hread : ∀ (v : MCPServerLogRow) payload d user,
      v.toMCPServerLogRow5 = Logs.storedLog (mcpLogEntry payload d user) →
        (Logs.Readable env v.toMCPServerLogRow5 ↔ Webhook.ReadBack env payload) := by
    intro v payload d user hv
    rw [hv]
    exact Iff.rfl
  constructor
  · rintro hall i path payload hi ⟨l, v, hl, hv⟩
    obtain ⟨-, hrow, d, user, -, hfields⟩ := reported_stays rt env parseUUID w₀ w h₀ hp h i path
      payload hi l v hl
    exact (hread v payload d user hfields).mp (hall l v hrow hv)
  · intro hall l v hrow hv
    have hstored := run_stored rt env parseUUID w₀ w (fun j v => ∃ path payload d user,
      w₀.prog j = webhookRouter env parseUUID path (some payload) ∧
        v.toMCPServerLogRow5 = Logs.storedLog (mcpLogEntry payload d user)) h₀ hp
      (fun j => client_logging rt env parseUUID _ _ (hp j)
        fun path payload d user _ hj => ⟨path, payload, d, user, hj, rfl⟩) h
    obtain ⟨c, hc, hm⟩ := hstored.held l v hrow
    obtain ⟨⟨path, payload, d, user, hj, hfields⟩, -⟩ := hstored.logged c hc l v hm
    exact (hread v payload d user hfields).mpr
      (hall c.client path payload hj ⟨l, v, ⟨c, hc, rfl, hm⟩, hv⟩)

/-- A payload that was posted to the webhook of an entry and stored belongs to the
project and the revision of the entry, and no list of another project has it.
From then on it is on some page of this project, whose deletion fails as long as it
has logs, exactly if it can be read back, and on one of the pages of every size
exactly if all payloads stored for the project can. The table has no more rows than the numbers of pages can address. -/
theorem reports_attributed (h₀ : Initial w₀) (hext : ∀ name, w₀.cfg.srv.ext name = none)
    (hp : ∀ i, Client rt env parseUUID (w₀.prog i))
    (hparse : ∀ id, parseUUID (uuidString id) = some id)
    (h₁ : Run backend postgres w₀ w₁) (h : Run backend postgres w₁ w) (name : String)
    (spec : MCPGatewaySpec) (hspec : w₁.cfg.srv.ext name = some spec) (p : UUID) (e : Proxy)
    (he : EntryOf env ⟨name, spec⟩ p e) (webhook : GatewayConfig.Webhook)
    (hwebhook : e.webhook = some webhook) (i : σ) (payload : WebhookPayload)
    (hi : w₀.prog i = webhookRouter env parseUUID webhook.url.path (some payload))
    (l : UUID) (v : MCPServerLogRow) (hl : Reported w₀ w i l v)
    (hroom : (w.cfg.srv.db.scan .mcpServerLog).length ≤ 2^62) :
    v.projectID = p ∧
    (∃ d user, webhook.url.path = "/webhook/proxy/"++uuidString d ∧ v.deploymentRevisionID = d ∧
      v.toMCPServerLogRow5 = Logs.storedLog (mcpLogEntry payload d user)) ∧
    (∀ q, q ≠ p → Unlisted env w.cfg.srv.db q l) ∧
    (OnPage env w.cfg.srv.db p l v ↔ Webhook.ReadBack env payload) ∧
    (Listed env w.cfg.srv.db p l v ↔ PayloadsRead env parseUUID w₀ w p) := by
  obtain ⟨hlabelled, d, hentry, hknown⟩ := entry_known rt env parseUUID w₀ w₁ w h₀ hext hp hparse h₁
    h name spec hspec p e he
  cases hwebhook.symm.trans hentry
  obtain ⟨hsound, hrow, d', user, hd', hv⟩ := reported_stays rt env parseUUID w₀ w h₀ hp
    (h₁.trans h) i _ payload hi l v hl
  obtain ⟨hne, hslash⟩ := uuidString_plain d
  rw [param_of_path _ hne hslash, Option.bind_some, hparse d] at hd'
  cases hd'
  have hd : v.deploymentRevisionID = d := congrArg MCPServerLogRow5.deploymentRevisionID hv
  have hproject : v.projectID = p := by
    obtain ⟨r, hr, hrp⟩ := (labelled_consistent w.cfg hlabelled hsound).logs l v hrow
    rw [hd] at hr
    exact hrp.symm.trans (hknown.2.2 r (Or.inl hr))
  have hlisted : Listed env w.cfg.srv.db p l v ↔ LogsReadable env w.cfg.srv.db p :=
    ⟨readable_of_listed env _ p hroom l v, listed_of_readable env _ p hroom l v hrow hproject⟩
  have hown : Logs.Readable env v.toMCPServerLogRow5 ↔ Webhook.ReadBack env payload := by
    rw [hv]
    exact Iff.rfl
  have honpage : OnPage env w.cfg.srv.db p l v ↔ Logs.Readable env v.toMCPServerLogRow5 := by
    refine ⟨fun h => ?_, onPage_of_readable env _ p hroom l v hrow hproject⟩
    obtain ⟨pagination, sorting, t, logs, hlogs, hmem⟩ := h
    by_contra hbad
    exact unlisted_of_row env _ p l v hrow (Or.inr hbad) _ _ _ _ _ _ _ hlogs _ hmem rfl
  refine ⟨hproject, ⟨d, user, rfl, hd, hv⟩,
    fun q hq => unlisted_of_row env _ q l v hrow (Or.inl ?_), honpage.trans hown,
    hlisted.trans (logsReadable_iff rt env parseUUID w₀ w h₀ hp (h₁.trans h) p)⟩
  rw [hproject]
  exact Ne.symm hq

end Runs

/-! ## One reported call -/

def demoParse (s : String) : Option UUID :=
  if s.toList ≠ [] ∧ s.toList.all Char.isDigit then some (Nat.ofDigitChars 10 s.toList 0) else none

theorem demoParse_uuidString (id : UUID) : demoParse (uuidString id) = some id := by
  have hdigits : (uuidString id).toList = Nat.toDigits 10 id := Nat.toList_repr
  have hall : (Nat.toDigits 10 id).all Char.isDigit = true := by
    rw [List.all_eq_true]
    exact fun c hc => Nat.isDigit_of_mem_toDigits (by decide) (by decide) hc
  rw [demoParse, hdigits, if_pos ⟨Nat.toDigits_ne_nil, hall⟩,
    Nat.ofDigitChars_toDigits (by decide) (by decide)]

def demoProject : ProjectSpec :=
  ⟨uuidString 7, "docs", uuidString 9, true, false, some "https://mcp.acme.dev/api"⟩

def demoGateway : MCPGatewaySpec := ⟨uuidString 2, "acme", none, true, [demoProject]⟩

def unreadPayload : WebhookPayload :=
  { unrequestedPayload with
    mcpRequest := some ⟨"tools/call", none, some (.num 18446744073709551615)⟩ }

def demoProg (payload : WebhookPayload) (i : Fin 3) : Api Unit :=
  if i = 0 then ApiRuns.demoServe ApiRuns.demoFounding
  else if i = 1 then ApiRuns.demoServe ApiRuns.demoOpening
  else webhookRouter Env.demo demoParse ("/webhook/proxy/"++uuidString 9) (some payload)

def demoPair (payload : WebhookPayload) : Option (ApiWorld (Fin 3) × ApiWorld (Fin 3)) := do
  let w₁ ← played (ApiRuns.demoCreation 0 1) (start (demoProg payload))
  let w ← played (List.replicate 2 (2, false)) w₁
  return (w₁, w)

def isLog : Image → Bool
  | ⟨.mcpServerLog, _, some _⟩ => true
  | _ => false

theorem isLog_image (w : Image) (h : isLog w = true) :
    ∃ l v, w = (⟨.mcpServerLog, l, some v⟩ : Image) := by
  obtain ⟨t, k, v⟩ := w
  cases t <;> cases v <;> first | exact ⟨_, _, rfl⟩ | cases h

theorem demo_client (payload : WebhookPayload) (i : Fin 3) :
    Client Analytics.Runtime.stable Env.demo demoParse ((start (demoProg payload)).prog i) := by
  by_cases h0 : i = 0
  · exact Or.inl ⟨_, _, if_pos h0⟩
  · by_cases h1 : i = 1
    · exact Or.inl ⟨_, _, (if_neg h0).trans (if_pos h1)⟩
    · exact Or.inr ⟨_, _, (if_neg h0).trans (if_neg h1)⟩

def demoReported (ws : ApiWorld (Fin 3) × ApiWorld (Fin 3)) : Bool :=
  decide (ws.1.cfg.srv.ext "acme" = some demoGateway) &&
    decide ((ws.2.cfg.srv.db.scan .mcpServerLog).length = 1) &&
    (ws.2.cfg.srv.db.scan .mcpServerLog).all (fun l => l.2.projectID = 7) &&
    ws.2.cfg.srv.wal.any (fun c => decide (c.client = 2) && c.images.any isLog)

theorem demo_reported (payload : WebhookPayload) (h : (demoPair payload).any demoReported = true) :
    ∃ (w₁ w : ApiWorld (Fin 3)) (l : UUID) (v : MCPServerLogRow),
      Run backend postgres (start (demoProg payload)) w₁ ∧ Run backend postgres w₁ w ∧
      w₁.cfg.srv.ext "acme" = some demoGateway ∧ Reported (start (demoProg payload)) w 2 l v ∧
      (w.cfg.srv.db.scan .mcpServerLog).length = 1 ∧
      ∀ l' ∈ w.cfg.srv.db.scan .mcpServerLog, l'.2.projectID = 7 := by
  obtain ⟨⟨w₁, w⟩, hpair, hall⟩ := (Option.any_eq_true _ _).mp h
  simp only [demoReported, Bool.and_eq_true, decide_eq_true_eq, List.any_eq_true,
    List.all_eq_true] at hall
  obtain ⟨⟨⟨hspec, hlength⟩, hproject⟩, c, hc, hclient, image, himage, hlog⟩ := hall
  obtain ⟨l, v, rfl⟩ := isLog_image image hlog
  simp only [demoPair, Option.bind_eq_bind, Option.bind_eq_some_iff] at hpair
  obtain ⟨w₁', h₁, w', h₂, heq⟩ := hpair
  cases heq
  exact ⟨w₁, w, l, v, played_run _ _ _ h₁, played_run _ _ _ h₂, hspec,
    ⟨c, hc, hclient, himage⟩, hlength, hproject⟩

theorem demo_entry : ∃ e, EntryOf Env.demo ⟨"acme", demoGateway⟩ 7 e ∧
    proxyEntry Env.demo demoProject = some e := by
  have hsome : (proxyEntry Env.demo demoProject).isSome := by decide
  obtain ⟨e, he⟩ := Option.isSome_iff_exists.mp hsome
  have hcfg := getGatewayConfig_parses Env.demo ⟨"acme", demoGateway⟩ (by
    intro s hs
    cases List.mem_singleton.mp hs
    exact ⟨e, he⟩)
  have hs : demoProject ∈ demoGateway.projects := List.mem_singleton.mpr rfl
  exact ⟨e, ⟨_, demoProject, hcfg, List.mem_filterMap.mpr ⟨_, hs, he⟩, hs, rfl, he⟩, he⟩

/-- The third client reports a call at the entry of the project 7. -/
theorem reports_attributed_demo : ∃ (w : ApiWorld (Fin 3)) (l : UUID) (v : MCPServerLogRow),
    Run backend postgres (start (demoProg unrequestedPayload)) w ∧
    Reported (start (demoProg unrequestedPayload)) w 2 l v ∧ v.projectID = 7 ∧
    (∃ d user, "/webhook/proxy/"++uuidString 9 = "/webhook/proxy/"++uuidString d ∧
      v.deploymentRevisionID = d ∧
      v.toMCPServerLogRow5 = Logs.storedLog (mcpLogEntry unrequestedPayload d user)) ∧
    (∀ q, q ≠ 7 → Unlisted Env.demo w.cfg.srv.db q l) ∧
    (OnPage Env.demo w.cfg.srv.db 7 l v ↔ Webhook.ReadBack Env.demo unrequestedPayload) ∧
    (Listed Env.demo w.cfg.srv.db 7 l v ↔
      PayloadsRead Env.demo demoParse (start (demoProg unrequestedPayload)) w 7) := by
  obtain ⟨w₁, w, l, v, h₁, h₂, hspec, hreported, hlength, -⟩ :=
    demo_reported unrequestedPayload (by decide)
  obtain ⟨e, he, hentry⟩ := demo_entry
  refine ⟨w, l, v, h₁.trans h₂, hreported, ?_⟩
  exact reports_attributed Analytics.Runtime.stable Env.demo demoParse
    (start (demoProg unrequestedPayload)) w₁ w (start_initial _) (fun _ => rfl) (demo_client _)
    demoParse_uuidString h₁ h₂ "acme" demoGateway hspec 7 e he _
    (entry_webhook Env.demo demoProject e hentry) 2
    unrequestedPayload rfl l v hreported (hlength ▸ by decide)

/-- The log of a call that cannot be read back is on no page of its project. -/
theorem unread_report_unlisted : ∃ (w₁ w : ApiWorld (Fin 3)) (e : Proxy) (l : UUID)
    (v : MCPServerLogRow),
    (∀ i, Client Analytics.Runtime.stable Env.demo demoParse
      ((start (demoProg unreadPayload)).prog i)) ∧
    (start (demoProg unreadPayload)).prog 2 =
      webhookRouter Env.demo demoParse ("/webhook/proxy/"++uuidString 9) (some unreadPayload) ∧
    Run backend postgres (start (demoProg unreadPayload)) w₁ ∧ Run backend postgres w₁ w ∧
    w₁.cfg.srv.ext "acme" = some demoGateway ∧ EntryOf Env.demo ⟨"acme", demoGateway⟩ 7 e ∧
    e.webhook = some ⟨"POST", ⟨Env.demo.hostScheme, Env.demo.host,
      "/webhook/proxy/"++uuidString 9, ""⟩⟩ ∧
    Reported (start (demoProg unreadPayload)) w 2 l v ∧
    w.cfg.srv.db.row .mcpServerLog l = some v ∧ v.projectID = 7 ∧
    ¬ Listed Env.demo w.cfg.srv.db 7 l v ∧ Unlisted Env.demo w.cfg.srv.db 7 l := by
  obtain ⟨w₁, w, l, v, h₁, h₂, hspec, hreported, -, hproject⟩ :=
    demo_reported unreadPayload (by decide)
  obtain ⟨e, he, hentry⟩ := demo_entry
  obtain ⟨-, hrow, d, user, -, hv⟩ := reported_stays Analytics.Runtime.stable Env.demo demoParse
    _ w (start_initial _) (demo_client _) (h₁.trans h₂) 2 ("/webhook/proxy/"++uuidString 9)
    unreadPayload rfl l v hreported
  have hbad : ¬ Logs.Readable Env.demo v.toMCPServerLogRow5 := by
    have hpayload : ¬ Webhook.ReadBack Env.demo unreadPayload :=
      fun h => absurd h.1 (by decide)
    rw [hv]
    exact hpayload
  have hunlisted := unlisted_of_row Env.demo w.cfg.srv.db 7 l v hrow (Or.inr hbad)
  refine ⟨w₁, w, e, l, v, demo_client _, rfl, h₁, h₂, hspec, he,
    entry_webhook Env.demo demoProject e hentry, hreported, hrow,
    hproject (l, v) ((Store.mem_scan _ _ _ _).mpr hrow), fun hlisted => ?_, hunlisted⟩
  obtain ⟨number, logs, hlogs, hmem⟩ := hlisted 10 ⟨"started_at", .asc⟩ ⟨0, 0, 0⟩ (by decide)
  exact hunlisted _ _ _ _ _ _ _ hlogs _ hmem rfl

end Jetski.Attribution
