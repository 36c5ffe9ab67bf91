import Mathlib.Data.String.Basic
import Jetski.Paging
import Jetski.PromptReaders

/-!
# The pages of a list

Each page is a query of its own, and the database is free to arrange rows with
equal sort keys in another way for each. Together the pages list every row once
exactly if no group of equal sort keys reaches over the end of a page.
-/

set_option autoImplicit false

namespace Jetski.Pages

open Relational Schema Jetski.Types Queries Logs Paging

/-! ## Sort keys -/

/-- The comparison is an order with ties. -/
structure Ranks {α : Type} (le : α → α → Bool) : Prop where
  total : ∀ a b, le a b ∨ le b a
  trans : ∀ a b c, le a b → le b c → le a c

theorem ranks_of_linear {α β : Type} [LinearOrder β] (key : α → β) :
    Ranks (fun a b => decide (key a ≤ key b)) where
  total a b := by simpa using le_total (key a) (key b)
  trans a b c := by simpa using le_trans

theorem ranks_comap {α β : Type} (le : β → β → Bool) (h : Ranks le) (key : α → β) :
    Ranks (fun a b => le (key a) (key b)) where
  total a b := h.total (key a) (key b)
  trans a b c := h.trans (key a) (key b) (key c)

theorem ranks_nullsLast {α : Type} (le : α → α → Bool) (h : Ranks le) : Ranks (nullsLast le) where
  total a b := by
    cases a with
    | none => exact Or.inr (by cases b <;> rfl)
    | some a =>
      cases b with
      | none => exact Or.inl rfl
      | some b => exact h.total a b
  trans a b c hab hbc := by
    cases c with
    | none => cases a <;> rfl
    | some c =>
      cases b with
      | none => cases hbc
      | some b =>
        cases a with
        | none => cases hab
        | some a => exact h.trans a b c hab hbc

theorem ranks_ordered {α : Type} (order : SortOrder) (le : α → α → Bool) (h : Ranks le) :
    Ranks (ordered order le) := by
  cases order with
  | asc => exact h
  | desc => exact ⟨fun a b => h.total b a, fun a b c hab hbc => h.trans c b a hbc hab⟩

theorem ranks_logLe (sortBy : String) : Ranks (logLe sortBy) := by
  by_cases hduration : sortBy = "duration"
  · have hle : logLe sortBy = fun l l' => decide (l.duration.toInt ≤ l'.duration.toInt) := by
      funext l l'
      simp [logLe, hduration, Int64.le_iff_toInt_le]
    rw [hle]
    exact ranks_of_linear _
  · by_cases hstatus : sortBy = "http_status_code"
    · have hle : logLe sortBy = fun l l' =>
          nullsLast (fun a b => decide (a ≤ b)) l.httpStatusCode l'.httpStatusCode := by
        funext l l'
        simp [logLe, hstatus]
      rw [hle]
      exact ranks_comap _ (ranks_nullsLast _ (ranks_of_linear (fun a => a))) _
    · have hle : logLe sortBy = fun l l' => decide (l.startedAt ≤ l'.startedAt) := by
        funext l l'
        simp [logLe, hduration, hstatus]
      rw [hle]
      exact ranks_of_linear _

theorem ranks_promptLe (env : Env) (h : Ranks env.collate) (sortBy : String) :
    Ranks (promptLe env sortBy) := by
  by_cases htool : sortBy = "tool_name"
  · have hle : promptLe env sortBy = fun r r' => nullsLast env.collate r.toolName r'.toolName := by
      funext r r'
      simp [promptLe, htool]
    rw [hle]
    exact ranks_comap _ (ranks_nullsLast _ h) _
  · by_cases hprompt : sortBy = "prompt"
    · have hle : promptLe env sortBy = fun r r' => nullsLast env.collate r.prompt r'.prompt := by
        funext r r'
        simp [promptLe, hprompt]
      rw [hle]
      exact ranks_comap _ (ranks_nullsLast _ h) _
    · have hle : promptLe env sortBy = fun r r' => decide (r.startedAt ≤ r'.startedAt) := by
        funext r r'
        simp [promptLe, htool, hprompt]
      rw [hle]
      exact ranks_of_linear _

/-! ## Limit and offset -/

theorem offset_toInt (count : Int64) (hcount : 0 < count) (p : ℕ) :
    (count*Int64.ofNat p).toInt = ((p*count.toNatClampNeg : ℕ) : ℤ).bmod (2^64) := by
  have hpos := Int64.lt_iff_toInt_lt.mp hcount
  have hc : ((count.toNatClampNeg : ℕ) : ℤ) = count.toInt := Int.toNat_of_nonneg (le_of_lt hpos)
  rw [Int64.toInt_mul, Int64.toInt_ofNat', Int.mul_bmod_bmod, Nat.cast_mul, hc, mul_comm]
  rfl

theorem page_at {α : Type} (count : Int64) (hcount : 0 < count) (p : ℕ)
    (hp : p*count.toNatClampNeg < 2^63) (rows : List α) :
    page count (count*Int64.ofNat p) rows = .ok (pageOf count.toNatClampNeg p rows) := by
  have hoffset := offset_toInt count hcount p
  rw [Int.bmod_eq_of_le (by omega) (by omega)] at hoffset
  have hnonneg : ¬ count*Int64.ofNat p < 0 := by
    rw [Int64.lt_iff_toInt_lt, hoffset]
    have hzero : (0 : Int64).toInt = 0 := by decide
    omega
  have hdrop : (count*Int64.ofNat p).toNatClampNeg = p*count.toNatClampNeg := by
    rw [Int64.toNatClampNeg, hoffset, Int.toNat_natCast]
  rw [page, if_neg hnonneg, hdrop, pageOf]

theorem page_overflow {α : Type} (count : Int64) (hcount : 0 < count) (p : ℕ)
    (hp : 2^63 ≤ p*count.toNatClampNeg) (hp' : p*count.toNatClampNeg < 2^64) (rows : List α) :
    page count (count*Int64.ofNat p) rows = .error .invalid := by
  have hoffset := offset_toInt count hcount p
  rw [Int.bmod_def] at hoffset
  have hneg : count*Int64.ofNat p < 0 := by
    rw [Int64.lt_iff_toInt_lt, hoffset]
    have hzero : (0 : Int64).toInt = 0 := by decide
    omega
  rw [page, if_pos hneg]

/-- If an offset overflows, then the first one that does so is negative. -/
theorem first_overflow (c n : ℕ) (hc : c < 2^63) (h : 2^63 ≤ n*c) :
    ∃ p ≤ n, 2^63 ≤ p*c ∧ p*c < 2^64 := by
  induction n with
  | zero => omega
  | succ n ih =>
    by_cases hn : 2^63 ≤ n*c
    · obtain ⟨p, hp, hfirst⟩ := ih hn
      exact ⟨p, by omega, hfirst⟩
    · refine ⟨n+1, le_refl _, h, ?_⟩
      rw [Nat.succ_mul]
      omega

/-! ## Arrangements -/

/-- The order in which one query visits rows with equal sort keys. -/
structure Arrangement where
  order : List (UUID × MCPServerLogRow) → List (UUID × MCPServerLogRow)
  perm : ∀ rows, (order rows).Perm rows

def Arrangement.env (a : Arrangement) (env : Env) : Env :=
  { env with arrange := a.order, arrange_perm := a.perm }

/-- The first pages of a list together show every row once and in order. -/
def Lists {β : Type} (pages : ℕ → Except DbError (List β × List Image)) (n : ℕ) (rows : List β)
    (le : β → β → Bool) : Prop :=
  ∃ lists : ℕ → List β, (∀ p < n, pages p = .ok (lists p, [])) ∧
    ((List.range n).flatMap lists).Perm rows ∧
    ((List.range n).flatMap lists).Pairwise (fun b b' => le b b')

section Query
variable {β : Type} (rows : List (UUID × MCPServerLogRow)) (keep : UUID × MCPServerLogRow → Bool)
  (le : UUID × MCPServerLogRow → UUID × MCPServerLogRow → Bool) (f : UUID × MCPServerLogRow → β)
  (leOut : β → β → Bool) (c n : ℕ)
  (query : Arrangement → ℕ → Except DbError (List β × List Image))

theorem order_realized (l : List (UUID × MCPServerLogRow)) (hl : l.Perm (rows.filter keep)) :
    ∃ a : Arrangement, (a.order rows).filter keep = l := by
  classical
  have hkeep : l.filter keep = l := by
    rw [List.filter_eq_self]
    exact fun x hx => (List.mem_filter.mp (hl.mem_iff.mp hx)).2
  have hrest : (rows.filter (fun x => !keep x)).filter keep = [] := by
    rw [List.filter_eq_nil_iff]
    intro x hx
    simpa using (List.mem_filter.mp hx).2
  refine ⟨⟨fun rows' => if rows' = rows then l++rows.filter (fun x => !keep x) else rows', ?_⟩, ?_⟩
  · intro rows'
    by_cases h : rows' = rows
    · subst h
      rw [if_pos rfl]
      exact (hl.append_right _).trans (List.filter_append_perm keep rows')
    · rw [if_neg h]
  · simp only [if_true, List.filter_append, hkeep, hrest, List.append_nil]

variable (hquery : ∀ a p, p < n → query a p =
  .ok ((pageOf c p (((a.order rows).filter keep).insertionSort (fun l l' => le l l'))).map f, []))
include hquery

theorem unsplit_lists (hrows : rows.Nodup) (hranks : Ranks le) (hc : 0 < c)
    (hlength : (rows.filter keep).length ≤ n*c)
    (hle : ∀ l ∈ rows.filter keep, ∀ l' ∈ rows.filter keep, leOut (f l) (f l') = le l l')
    (h : Unsplit (fun l l' => le l l') c (rows.filter keep)) (a : ℕ → Arrangement) :
    Lists (fun p => query (a p) p) n ((rows.filter keep).map f) leOut := by
  have : Std.Total (fun l l' => (le l l' : Prop)) := ⟨hranks.total⟩
  have : IsTrans _ (fun l l' => (le l l' : Prop)) := ⟨hranks.trans⟩
  have : Std.Refl (fun l l' => (le l l' : Prop)) := ⟨fun l => (hranks.total l l).elim id id⟩
  obtain ⟨hperm, hsorted⟩ := unsplit_complete (fun l l' => (le l l' : Prop)) c hc n
    (rows.filter keep) (hrows.filter _) hlength h
    (fun p => (((a p).order rows).filter keep).insertionSort (fun l l' => le l l'))
    (fun p => (List.perm_insertionSort _ _).trans (((a p).perm rows).filter keep))
    (fun p => List.pairwise_insertionSort _ _)
  refine ⟨_, fun p hp => hquery (a p) p hp, ?_, ?_⟩
  · rw [← List.map_flatMap]
    exact hperm.map f
  · rw [← List.map_flatMap, List.pairwise_map]
    refine hsorted.imp_of_mem fun {l l'} hl hl' hll => ?_
    rw [hle l (hperm.mem_iff.mp hl) l' (hperm.mem_iff.mp hl')]
    exact hll

theorem lists_unsplit (hranks : Ranks le) (hc : 0 < c) (hlength : (rows.filter keep).length ≤ n*c)
    (hf : ((rows.filter keep).map f).Nodup)
    (h : ∀ a : ℕ → Arrangement,
      Lists (fun p => query (a p) p) n ((rows.filter keep).map f) leOut) :
    Unsplit (fun l l' => le l l') c (rows.filter keep) := by
  have : Std.Total (fun l l' => (le l l' : Prop)) := ⟨hranks.total⟩
  have : IsTrans _ (fun l l' => (le l l' : Prop)) := ⟨hranks.trans⟩
  have : Std.Refl (fun l l' => (le l l' : Prop)) := ⟨fun l => (hranks.total l l).elim id id⟩
  by_contra hsplit
  obtain ⟨arranged, hperm, hsorted, hrepeats⟩ := split_repeats (fun l l' => (le l l' : Prop)) c hc n
    (rows.filter keep) hlength hsplit
  choose a ha using fun p => order_realized rows keep (arranged p) (hperm p)
  obtain ⟨lists, hlists, hall, -⟩ := h a
  have hpages : ∀ p ∈ List.range n, lists p = (pageOf c p (arranged p)).map f := by
    intro p hp
    have hp := List.mem_range.mp hp
    have hpage : query (a p) p = .ok (lists p, []) := hlists p hp
    rw [hquery (a p) p hp, ha p, (hsorted p).insertionSort_eq, Except.ok.injEq,
      Prod.mk.injEq] at hpage
    exact hpage.1.symm
  have hflat : (List.range n).flatMap lists =
      ((List.range n).flatMap (fun p => pageOf c p (arranged p))).map f := by
    rw [List.map_flatMap]
    exact List.flatMap_congr hpages
  rw [hflat] at hall
  exact hrepeats (hall.nodup_iff.mpr hf).of_map

end Query

/-! ## Logs -/

section Project
variable (env : Env) (db : Db) (projectID : UUID) (session : Option String) (sorting : Sorting)
  (count : Int64) (t : Tick)

def matching (id : Option UUID) : List (UUID × MCPServerLogRow) :=
  (db.scan .mcpServerLog).filter (fun l => l.2.projectID = projectID ∧
    (∀ i ∈ id, l.1 = i) ∧ (∀ s ∈ session, l.2.mcpSessionID = some s))

theorem matching_nodup (id : Option UUID) : (matching db projectID session id).Nodup :=
  (db.scan_nodup .mcpServerLog).filter _

theorem matching_ext (id : Option UUID) (l : UUID × MCPServerLogRow)
    (hl : l ∈ matching db projectID session id) (l' : UUID × MCPServerLogRow)
    (hl' : l' ∈ matching db projectID session id) (hid : l.1 = l'.1) : l = l' := by
  have hrow := (db.mem_scan .mcpServerLog l.1 l.2).mp (List.mem_of_mem_filter hl)
  have hrow' := (db.mem_scan .mcpServerLog l'.1 l'.2).mp (List.mem_of_mem_filter hl')
  rw [← hid, hrow] at hrow'
  exact Prod.ext hid (Option.some.inj hrow')

/-- The pages until one is not full. -/
def pageCount {α : Type} (rows : List α) : ℕ := rows.length/count.toNatClampNeg+1

theorem pageCount_enough {α : Type} (hcount : 0 < count) (rows : List α) :
    rows.length ≤ pageCount count rows*count.toNatClampNeg := by
  have hpos : 0 < count.toNatClampNeg := (Int64.toNatClampNeg_pos_iff count).mpr hcount
  have hdiv := Nat.lt_div_mul_add hpos (a := rows.length)
  rw [pageCount, Nat.succ_mul]
  omega

def logOrder (l l' : UUID × MCPServerLogRow) : Bool :=
  ordered sorting.sortOrder (logLe sorting.sortBy) l.2 l'.2

def listedOrder (l l' : MCPServerLog) : Bool :=
  ordered sorting.sortOrder (logLe sorting.sortBy) l.toMCPServerLogRow l'.toMCPServerLogRow

/-- Whatever arrangements the queries for the pages choose, the pages list every log. -/
def LogsComplete (id : Option UUID) : Prop := ∀ a : ℕ → Arrangement,
  Lists (fun p => getLogsForProject ((a p).env env) projectID ⟨count, Int64.ofNat p⟩
    sorting id session t db) (pageCount count (matching db projectID session id))
    ((matching db projectID session id).map (logOf env)) (listedOrder sorting)

def OffsetsFit {α : Type} (rows : List α) : Prop :=
  rows.length/count.toNatClampNeg*count.toNatClampNeg < 2^63

theorem offsetsFit_page {α : Type} (rows : List α) (h : OffsetsFit count rows) (p : ℕ)
    (hp : p < pageCount count rows) : p*count.toNatClampNeg < 2^63 :=
  lt_of_le_of_lt (Nat.mul_le_mul_right _ (Nat.le_of_lt_succ hp)) h

def AllReadable (id : Option UUID) : Prop :=
  ∀ l ∈ matching db projectID session id, Readable env l.2.toMCPServerLogRow5

/-- Every row that is kept is on one of the pages. -/
theorem on_page (hcount : 0 < count) (rows : List (UUID × MCPServerLogRow))
    (keep : UUID × MCPServerLogRow → Bool)
    (le : UUID × MCPServerLogRow → UUID × MCPServerLogRow → Bool) (a : Arrangement)
    (l : UUID × MCPServerLogRow) (hl : l ∈ rows.filter keep) :
    ∃ p < pageCount count (rows.filter keep), l ∈ pageOf count.toNatClampNeg p
      (((a.order rows).filter keep).insertionSort (fun l l' => le l l')) := by
  have hperm : (((a.order rows).filter keep).insertionSort (fun l l' => le l l')).Perm
      (rows.filter keep) := (List.perm_insertionSort _ _).trans ((a.perm rows).filter keep)
  have hlength := pageCount_enough count hcount (rows.filter keep)
  rw [← hperm.length_eq] at hlength
  have hmem := hperm.mem_iff.mpr hl
  rw [← List.take_of_length_le hlength, ← flatMap_pageOf, List.mem_flatMap] at hmem
  obtain ⟨p, hp, hpage⟩ := hmem
  exact ⟨p, List.mem_range.mp hp, hpage⟩

/-- The rows of a page before they are decoded. -/
theorem getLogs_page (hcount : 0 < count) (hsession : storableText session) (id : Option UUID)
    (a : Arrangement) (p : ℕ) (hp : p*count.toNatClampNeg < 2^63) :
    getLogsForProject (a.env env) projectID ⟨count, Int64.ofNat p⟩ sorting id session t db =
      (collectRows (scanLog env) (pageOf count.toNatClampNeg p
        (((a.order (matching db projectID session id)).filter (fun _ => true)).insertionSort
          (fun l l' => logOrder sorting l l')))).map (fun ls => (ls, [])) := by
  simp only [getLogsForProject, select, if_pos hsession, page_at count hcount p hp,
    List.filter_true]
  rfl

theorem getLogs_readable (hcount : 0 < count) (hsession : storableText session) (id : Option UUID)
    (hread : AllReadable env db projectID session id) (a : Arrangement) (p : ℕ)
    (hp : p*count.toNatClampNeg < 2^63) :
    getLogsForProject (a.env env) projectID ⟨count, Int64.ofNat p⟩ sorting id session t db =
      .ok ((pageOf count.toNatClampNeg p (((a.order (matching db projectID session id)).filter
        (fun _ => true)).insertionSort (fun l l' => logOrder sorting l l'))).map (logOf env),
          []) := by
  rw [getLogs_page env db projectID session sorting count t hcount hsession id a p hp,
    collectLogs_ok]
  · rfl
  · intro l hl
    have hmem := List.mem_of_mem_drop (List.mem_of_mem_take hl)
    rw [List.mem_insertionSort, List.filter_true, (a.perm _).mem_iff] at hmem
    exact hread l hmem

/-- A row that cannot be decoded fails its page. -/
theorem pages_readable_rows (hcount : 0 < count) (hsession : storableText session)
    (id : Option UUID) (hfit : OffsetsFit count (matching db projectID session id))
    (a : Arrangement) (lists : ℕ → List MCPServerLog)
    (h : ∀ p < pageCount count (matching db projectID session id),
      getLogsForProject (a.env env) projectID ⟨count, Int64.ofNat p⟩ sorting id session t db =
        .ok (lists p, [])) : AllReadable env db projectID session id := by
  intro l hl
  have hall := List.filter_true (matching db projectID session id)
  obtain ⟨p, hp, hpage⟩ := on_page count hcount (matching db projectID session id)
    (fun _ => true) (logOrder sorting) a l (hall.symm ▸ hl)
  rw [hall] at hp
  have hquery := h p hp
  rw [getLogs_page env db projectID session sorting count t hcount hsession id a p
    (offsetsFit_page count _ hfit p hp)] at hquery
  cases hrows : collectRows (scanLog env) (pageOf count.toNatClampNeg p
      (((a.order (matching db projectID session id)).filter (fun _ => true)).insertionSort
        (fun l l' => logOrder sorting l l'))) with
  | error e =>
    rw [hrows] at hquery
    cases hquery
  | ok logs => exact ((collectLogs_iff env _ _).mp hrows).1 l hpage

theorem logs_complete (hcount : 0 < count) (id : Option UUID) (hsession : storableText session)
    (hread : AllReadable env db projectID session id)
    (hfit : OffsetsFit count (matching db projectID session id))
    (h : Unsplit (fun l l' => logOrder sorting l l') count.toNatClampNeg
      (matching db projectID session id)) :
    LogsComplete env db projectID session sorting count t id := by
  have hranks : Ranks (logOrder sorting) :=
    ranks_comap _ (ranks_ordered _ _ (ranks_logLe sorting.sortBy)) Prod.snd
  have hall := List.filter_true (matching db projectID session id)
  have hlists := unsplit_lists (matching db projectID session id) (fun _ => true)
    (logOrder sorting) (logOf env) (listedOrder sorting) count.toNatClampNeg _ _
    (fun a p hp => getLogs_readable env db projectID session sorting count t hcount hsession id
      hread a p (offsetsFit_page count _ hfit p hp))
    (matching_nodup db projectID session id) hranks
    ((Int64.toNatClampNeg_pos_iff count).mpr hcount)
    (by rw [hall]; exact pageCount_enough count hcount _) (fun _ _ _ _ => rfl) (by rwa [hall])
  rwa [hall] at hlists

/-- A page can only be read if the session can be stored and no offset overflows. -/
theorem pages_readable {α β : Type} (rows : List α)
    (query : Arrangement → ℕ → Except DbError (List β × List Image))
    (hsession : storableText session = false → ∀ a p, query a p = .error .invalid)
    (hoverflow : storableText session → ∀ a p, 2^63 ≤ p*count.toNatClampNeg →
      p*count.toNatClampNeg < 2^64 → query a p = .error .invalid)
    (a : ℕ → Arrangement) (lists : ℕ → List β)
    (h : ∀ p < pageCount count rows, query (a p) p = .ok (lists p, [])) :
    storableText session ∧ OffsetsFit count rows := by
  have hstorable : storableText session := by
    by_contra hs
    have hfirst := h 0 (Nat.succ_pos _)
    rw [hsession (by simpa using hs)] at hfirst
    cases hfirst
  refine ⟨hstorable, ?_⟩
  by_contra hover
  obtain ⟨p, hp, hlow, hhigh⟩ := first_overflow count.toNatClampNeg _
    (Int64.toNatClampNeg_lt count) (not_lt.mp hover)
  have hpage := h p (Nat.lt_succ_of_le hp)
  rw [hoverflow hstorable _ p hlow hhigh] at hpage
  cases hpage

theorem complete_logs (hcount : 0 < count) (id : Option UUID)
    (h : LogsComplete env db projectID session sorting count t id) :
    storableText session ∧ AllReadable env db projectID session id ∧
      OffsetsFit count (matching db projectID session id) ∧
      Unsplit (fun l l' => logOrder sorting l l') count.toNatClampNeg
        (matching db projectID session id) := by
  have hranks : Ranks (logOrder sorting) :=
    ranks_comap _ (ranks_ordered _ _ (ranks_logLe sorting.sortBy)) Prod.snd
  have hall := List.filter_true (matching db projectID session id)
  obtain ⟨lists, hlists, -, -⟩ := h (fun _ => ⟨fun rows => rows, fun _ => .refl _⟩)
  obtain ⟨hsession, hfit⟩ := pages_readable session count (matching db projectID session id)
    (fun a p => getLogsForProject (a.env env) projectID
      ⟨count, Int64.ofNat p⟩ sorting id session t db)
    (fun hs a p => by simp [getLogsForProject, select, hs, Except.map])
    (fun hs a p hlow hhigh => by
      simp only [getLogsForProject, select, if_pos hs, page_overflow count hcount p hlow hhigh]
      rfl) _ lists hlists
  have hread := pages_readable_rows env db projectID session sorting count t hcount hsession id
    hfit _ lists hlists
  refine ⟨hsession, hread, hfit, ?_⟩
  rw [← hall]
  refine lists_unsplit _ (fun _ => true) (logOrder sorting) (logOf env) (listedOrder sorting)
    count.toNatClampNeg _ _
    (fun a p hp => getLogs_readable env db projectID session sorting count t hcount hsession id
      hread a p (offsetsFit_page count _ hfit p hp)) hranks
    ((Int64.toNatClampNeg_pos_iff count).mpr hcount) ?_ ?_ ?_
  · rw [hall]
    exact pageCount_enough count hcount _
  · rw [hall]
    exact (matching_nodup db projectID session id).map_on fun l hl l' hl' hlog =>
      matching_ext db projectID session id l hl l' hl' (congrArg MCPServerLog.id hlog)
  · rw [hall]
    exact h

/-! ## Prompts -/

def hasPrompt (l : UUID × MCPServerLogRow) : Bool :=
  (PromptReaders.promptText env l.2.mcpRequest).isSome

/-- The request has a text under the path of tool names. -/
def Named (l : UUID × MCPServerLogRow) : Prop := (pathText env ["name"] l.2.mcpRequest).isSome

def prompted : List (UUID × MCPServerLogRow) :=
  (matching db projectID session none).filter (hasPrompt env)

def dataOf (l : UUID × MCPServerLogRow) : MCPServerLogPromptData where
  id := l.1
  startedAt := l.2.startedAt
  method := (l.2.mcpRequest.map (fun r => r.method)).getD ""
  toolName := (pathText env ["name"] l.2.mcpRequest).getD ""
  prompt := (PromptReaders.promptText env l.2.mcpRequest).getD ""

def promptOrder (l l' : UUID × MCPServerLogRow) : Bool :=
  ordered sorting.sortOrder (promptLe env sorting.sortBy) (promptRow env l) (promptRow env l')

def dataLe (sortBy : String) (d d' : MCPServerLogPromptData) : Bool :=
  if sortBy = "tool_name" then env.collate d.toolName d'.toolName
  else if sortBy = "prompt" then env.collate d.prompt d'.prompt
  else d.startedAt ≤ d'.startedAt

def dataOrder (d d' : MCPServerLogPromptData) : Bool :=
  ordered sorting.sortOrder (dataLe env sorting.sortBy) d d'

/-- Whatever arrangements the queries for the pages choose, the pages list every prompt. -/
def PromptsComplete : Prop := ∀ a : ℕ → Arrangement,
  Lists (fun p => getPromptsForProject ((a p).env env) projectID ⟨count, Int64.ofNat p⟩ sorting
    session t db) (pageCount count (prompted env db projectID session))
    ((prompted env db projectID session).map (dataOf env)) (dataOrder env sorting)

theorem named_row (l : UUID × MCPServerLogRow) (hp : hasPrompt env l) (hn : Named env l) :
    ∃ method name prompt,
      promptRow env l = ⟨l.1, l.2.startedAt, some method, some name, some prompt⟩ ∧
      dataOf env l = ⟨l.1, l.2.startedAt, method, name, prompt⟩ := by
  obtain ⟨prompt, hprompt⟩ := Option.isSome_iff_exists.mp hp
  obtain ⟨name, hname⟩ := Option.isSome_iff_exists.mp hn
  cases hr : l.2.mcpRequest with
  | none =>
    rw [hr] at hname
    cases hname
  | some r =>
    refine ⟨r.method, name, prompt, ?_, ?_⟩
    · rw [promptRow, hname, hr]
      rw [hr] at hprompt
      rw [← hprompt]
      rfl
    · rw [dataOf, hname, hprompt, hr]
      rfl

theorem collect_named (ls : List (UUID × MCPServerLogRow))
    (h : ∀ l ∈ ls, hasPrompt env l ∧ Named env l) :
    collectRows promptData (ls.map (promptRow env)) = .ok (ls.map (dataOf env)) := by
  rw [collectRows_iff, List.forall₂_map_left_iff, List.forall₂_map_right_iff, List.forall₂_same]
  intro l hl
  obtain ⟨method, name, prompt, hrow, hdata⟩ := named_row env l (h l hl).1 (h l hl).2
  rw [hrow, hdata]
  rfl

theorem dataOrder_named (l l' : UUID × MCPServerLogRow) (hp : hasPrompt env l) (hn : Named env l)
    (hp' : hasPrompt env l') (hn' : Named env l') :
    dataOrder env sorting (dataOf env l) (dataOf env l') = promptOrder env sorting l l' := by
  obtain ⟨method, name, prompt, hrow, hdata⟩ := named_row env l hp hn
  obtain ⟨method', name', prompt', hrow', hdata'⟩ := named_row env l' hp' hn'
  rw [dataOrder, promptOrder, hrow, hrow', hdata, hdata']
  have hle : ∀ (i i' : UUID) (s s' : Time) (m m' n n' p p' : String),
      dataLe env sorting.sortBy ⟨i, s, m, n, p⟩ ⟨i', s', m', n', p'⟩ =
        promptLe env sorting.sortBy ⟨i, s, some m, some n, some p⟩
          ⟨i', s', some m', some n', some p'⟩ :=
    fun _ _ _ _ _ _ _ _ _ _ => rfl
  cases sorting.sortOrder with
  | asc => exact hle _ _ _ _ _ _ _ _ _ _
  | desc => exact hle _ _ _ _ _ _ _ _ _ _

/-- The rows of a page before they are scanned. -/
theorem getPrompts_page (hcount : 0 < count) (hsession : storableText session) (a : Arrangement)
    (p : ℕ) (hp : p*count.toNatClampNeg < 2^63) :
    getPromptsForProject (a.env env) projectID ⟨count, Int64.ofNat p⟩ sorting session t db =
      (collectRows promptData ((pageOf count.toNatClampNeg p
        (((a.order (matching db projectID session none)).filter (hasPrompt env)).insertionSort
          (fun l l' => promptOrder env sorting l l'))).map (promptRow env))).map
            (fun ps => (ps, [])) := by
  have hsort := List.map_insertionSort (fun l l' => (promptOrder env sorting l l' : Prop))
    (fun r r' => (ordered sorting.sortOrder (promptLe env sorting.sortBy) r r' : Prop))
    (promptRow env) ((a.order (matching db projectID session none)).filter (hasPrompt env))
    (fun _ _ _ _ => Iff.rfl)
  have hfilter : ((a.order (matching db projectID session none)).map (promptRow env)).filter
      (fun r => r.prompt.isSome) =
      ((a.order (matching db projectID session none)).filter (hasPrompt env)).map
        (promptRow env) := by
    rw [List.filter_map]
    rfl
  rw [← pageOf_map, hsort, ← hfilter]
  simp only [getPromptsForProject, select, if_pos hsession, page_at count hcount p hp]
  rfl

theorem mem_arranged (a : Arrangement) (l : UUID × MCPServerLogRow) :
    l ∈ ((a.order (matching db projectID session none)).filter (hasPrompt env)).insertionSort
      (fun l l' => promptOrder env sorting l l') ↔ l ∈ prompted env db projectID session := by
  rw [List.mem_insertionSort, prompted, List.mem_filter, List.mem_filter, (a.perm _).mem_iff]

theorem getPrompts_named (hcount : 0 < count) (hsession : storableText session)
    (hnamed : ∀ l ∈ prompted env db projectID session, Named env l) (a : Arrangement) (p : ℕ)
    (hp : p*count.toNatClampNeg < 2^63) :
    getPromptsForProject (a.env env) projectID ⟨count, Int64.ofNat p⟩ sorting session t db =
      .ok ((pageOf count.toNatClampNeg p
        (((a.order (matching db projectID session none)).filter (hasPrompt env)).insertionSort
          (fun l l' => promptOrder env sorting l l'))).map (dataOf env), []) := by
  rw [getPrompts_page env db projectID session sorting count t hcount hsession a p hp,
    collect_named]
  · rfl
  · intro l hl
    have hmem := (mem_arranged env db projectID session sorting a l).mp
      (List.mem_of_mem_drop (List.mem_of_mem_take hl))
    exact ⟨(List.mem_filter.mp hmem).2, hnamed l hmem⟩

theorem prompts_complete (hcollate : Ranks env.collate) (hcount : 0 < count)
    (hsession : storableText session)
    (hfit : OffsetsFit count (prompted env db projectID session))
    (hnamed : ∀ l ∈ prompted env db projectID session, Named env l)
    (h : Unsplit (fun l l' => promptOrder env sorting l l') count.toNatClampNeg
      (prompted env db projectID session)) :
    PromptsComplete env db projectID session sorting count t := by
  have hranks : Ranks (promptOrder env sorting) :=
    ranks_comap _ (ranks_ordered _ _ (ranks_promptLe env hcollate sorting.sortBy)) (promptRow env)
  refine unsplit_lists (matching db projectID session none) (hasPrompt env)
    (promptOrder env sorting) (dataOf env) (dataOrder env sorting) count.toNatClampNeg _ _
    (fun a p hp => getPrompts_named env db projectID session sorting count t hcount hsession hnamed
      a p (offsetsFit_page count _ hfit p hp))
    (matching_nodup db projectID session none) hranks
    ((Int64.toNatClampNeg_pos_iff count).mpr hcount) (pageCount_enough count hcount _) ?_ h
  intro l hl l' hl'
  exact dataOrder_named env sorting l l' (List.mem_filter.mp hl).2 (hnamed l hl)
    (List.mem_filter.mp hl').2 (hnamed l' hl')

/-- A row that cannot be scanned fails its page. -/
theorem pages_named (hcount : 0 < count) (hsession : storableText session)
    (hfit : OffsetsFit count (prompted env db projectID session)) (a : Arrangement)
    (lists : ℕ → List MCPServerLogPromptData)
    (h : ∀ p < pageCount count (prompted env db projectID session),
      getPromptsForProject (a.env env) projectID ⟨count, Int64.ofNat p⟩ sorting session t db =
        .ok (lists p, []))
    (l : UUID × MCPServerLogRow) (hl : l ∈ prompted env db projectID session) :
    Named env l := by
  obtain ⟨p, hp, hpage⟩ := on_page count hcount (matching db projectID session none)
    (hasPrompt env) (promptOrder env sorting) a l hl
  have hquery := h p hp
  rw [getPrompts_page env db projectID session sorting count t hcount hsession a p
    (offsetsFit_page count _ hfit p hp)] at hquery
  cases hrows : collectRows promptData ((pageOf count.toNatClampNeg p
      (((a.order (matching db projectID session none)).filter (hasPrompt env)).insertionSort
        (fun l l' => promptOrder env sorting l l'))).map (promptRow env)) with
  | error e =>
    rw [hrows] at hquery
    cases hquery
  | ok ps =>
    obtain ⟨d, -, hd⟩ := collectRows_mem _ _ _ hrows _ (List.mem_map.mpr ⟨l, hpage, rfl⟩)
    exact Option.isSome_iff_exists.mpr ⟨_, (PromptReaders.promptData_ok env l d hd).2.1⟩

theorem complete_prompts (hcollate : Ranks env.collate) (hcount : 0 < count)
    (h : PromptsComplete env db projectID session sorting count t) :
    storableText session ∧ OffsetsFit count (prompted env db projectID session) ∧
      (∀ l ∈ prompted env db projectID session, Named env l) ∧
      Unsplit (fun l l' => promptOrder env sorting l l') count.toNatClampNeg
        (prompted env db projectID session) := by
  have hranks : Ranks (promptOrder env sorting) :=
    ranks_comap _ (ranks_ordered _ _ (ranks_promptLe env hcollate sorting.sortBy)) (promptRow env)
  obtain ⟨lists, hlists, -, -⟩ := h (fun _ => ⟨fun rows => rows, fun _ => .refl _⟩)
  obtain ⟨hsession, hfit⟩ := pages_readable session count (prompted env db projectID session)
    (fun a p => getPromptsForProject (a.env env) projectID
      ⟨count, Int64.ofNat p⟩ sorting session t db)
    (fun hs a p => by simp [getPromptsForProject, select, hs, Except.map])
    (fun hs a p hlow hhigh => by
      simp only [getPromptsForProject, select, if_pos hs, page_overflow count hcount p hlow hhigh]
      rfl) _ lists hlists
  have hnamed := pages_named env db projectID session sorting count t hcount hsession hfit _ lists
    hlists
  refine ⟨hsession, hfit, hnamed, ?_⟩
  refine lists_unsplit _ (hasPrompt env) (promptOrder env sorting) (dataOf env)
    (dataOrder env sorting) count.toNatClampNeg _ _
    (fun a p hp => getPrompts_named env db projectID session sorting count t hcount hsession hnamed
      a p (offsetsFit_page count _ hfit p hp)) hranks
    ((Int64.toNatClampNeg_pos_iff count).mpr hcount) (pageCount_enough count hcount _) ?_ h
  refine ((matching_nodup db projectID session none).filter _).map_on fun l hl l' hl' hdata => ?_
  exact matching_ext db projectID session none l (List.mem_of_mem_filter hl) l'
    (List.mem_of_mem_filter hl') (congrArg MCPServerLogPromptData.id hdata)

end Project

/-! ## All pages -/

section Requests
variable (env : Env) (trimSpace : String → String) (sortBy sortOrder : String)

def logSorting : Sorting := parseSortingOrDefault env trimSpace sortBy sortOrder
  ⟨"started_at", .desc, ["started_at", "duration", "http_status_code"]⟩

def promptSorting : Sorting := parseSortingOrDefault env trimSpace sortBy sortOrder
  ⟨"started_at", .desc, ["started_at", "tool_name", "prompt"]⟩

/-- The pages are complete exactly if they can be read and tied rows are on one page. -/
theorem pages_complete_iff (hcollate : Ranks env.collate) (db : Db) (projectID : UUID)
    (id : Option UUID) (session : Option String) (count : Int64) (hcount : 0 < count) (t : Tick) :
    (LogsComplete env db projectID session (logSorting env trimSpace sortBy sortOrder) count t id ↔
      storableText session ∧ AllReadable env db projectID session id ∧
      OffsetsFit count (matching db projectID session id) ∧
      Unsplit (fun l l' => logOrder (logSorting env trimSpace sortBy sortOrder) l l')
        count.toNatClampNeg (matching db projectID session id)) ∧
    (PromptsComplete env db projectID session
      (promptSorting env trimSpace sortBy sortOrder) count t ↔
      storableText session ∧ OffsetsFit count (prompted env db projectID session) ∧
      (∀ l ∈ prompted env db projectID session, Named env l) ∧
      Unsplit (fun l l' => promptOrder env (promptSorting env trimSpace sortBy sortOrder) l l')
        count.toNatClampNeg (prompted env db projectID session)) := by
  constructor
  · constructor
    · exact complete_logs env db projectID session _ count t hcount id
    · rintro ⟨hsession, hread, hfit, h⟩
      exact logs_complete env db projectID session _ count t hcount id hsession hread hfit h
  · constructor
    · exact complete_prompts env db projectID session _ count t hcollate hcount
    · rintro ⟨hsession, hfit, hnamed, h⟩
      exact prompts_complete env db projectID session _ count t hcollate hcount hsession hfit
        hnamed h

end Requests

def twoCalls : Db :=
  (Store.empty.set .mcpServerLog 5 (some (PromptReaders.promptLog "tools/call"))).set
    .mcpServerLog 6 (some { PromptReaders.promptLog "tools/call" with startedAt := 1000000000 })

theorem demo_collate : Ranks Env.demo.collate := ranks_of_linear (fun s : String => s)

theorem pages_complete_demo :
    LogsComplete Env.demo twoCalls 7 none (logSorting Env.demo (fun s => s) "" "") 1
    ⟨0, 0, 0⟩ none ∧
      PromptsComplete Env.demo twoCalls 7 none (promptSorting Env.demo (fun s => s) "" "") 1
        ⟨0, 0, 0⟩ := by
  have hiff := pages_complete_iff Env.demo (fun s => s) "" "" demo_collate twoCalls 7 none none 1
    (by decide) ⟨0, 0, 0⟩
  constructor
  · refine hiff.1.mpr ⟨rfl, ?_, ?_, ?_⟩
    · rw [AllReadable]
      decide
    · rw [OffsetsFit]
      decide
    · rw [Unsplit]
      decide
  · refine hiff.2.mpr ⟨rfl, ?_, ?_, ?_⟩
    · rw [OffsetsFit]
      decide
    · simp only [Named]
      decide
    · rw [Unsplit]
      decide

theorem forward_perm (rows : List (UUID × MCPServerLogRow)) : rows.Perm rows := .refl rows

theorem backward_perm (rows : List (UUID × MCPServerLogRow)) : rows.reverse.Perm rows :=
  rows.reverse_perm

def otherOrder (p : ℕ) : Arrangement :=
  if p = 1 then ⟨fun rows => rows.reverse, backward_perm⟩ else ⟨fun rows => rows, forward_perm⟩

/-- The second page of the calls, sorted by status, has the first call again. -/
theorem call_listed_twice : ¬ LogsComplete Env.demo twoCalls 7 none
    (logSorting Env.demo (fun s => s) "http_status_code" "") 1 ⟨0, 0, 0⟩ none := by
  intro h
  obtain ⟨lists, hlists, hperm, -⟩ := h otherOrder
  have hfirst : lists 0 = [logOf Env.demo (5, PromptReaders.promptLog "tools/call")] := by
    exact (congrArg Prod.fst (Except.ok.inj (hlists 0 (by decide)))).symm
  have hsecond : lists 1 = [logOf Env.demo (5, PromptReaders.promptLog "tools/call")] := by
    exact (congrArg Prod.fst (Except.ok.inj (hlists 1 (by decide)))).symm
  have hcount : pageCount 1 (matching twoCalls 7 none none) = 3 := rfl
  have hids := (hperm.map (fun l => l.id)).nodup_iff.mpr (by decide)
  rw [hcount] at hids
  simp [List.range_succ, hfirst, hsecond] at hids

end Jetski.Pages
