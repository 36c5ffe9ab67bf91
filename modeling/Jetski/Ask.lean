import Jetski.Hosts
import Jetski.RowChecks
import Jetski.Settings

/-!
# The certificate question

The endpoint that is asked before a certificate is issued first reads the
domain as the host of an organization under the host format. Only a domain
that does not fit the format is looked up as a custom domain. Which hosts it
answers for is decided by the names and domains of all organizations.
-/

set_option autoImplicit false

namespace Jetski.Ask

open Relational Schema Jetski.Types Database Handlers Routes Validation Reachability RowChecks
open Hosts (gatewayHost)
open ApiRuns (demoServe demoFounding)

/-! ## The host format -/

/-- `strings.Split` at the dots. -/
def labels (s : String) : List (List Char) := s.toList.splitOn '.'

def placeholder (wp : List Char) : Bool := wp = ['%', 'v'] ∨ wp = ['%', 's']

/-- The loop over the labels of the format and of the domain, the last ones first. -/
def findLabel : List (List Char × List Char) → Option (List Char) → Option (List Char)
  | [], found => found
  | (wp, hp)::rest, found =>
    if placeholder wp then findLabel rest (some hp)
    else if wp ≠ hp then none
    else findLabel rest found

def getOrgName (want domain : String) : Option String :=
  let w := labels want
  let h := labels domain
  if w.length = 0 ∨ w.length ≠ h.length then none
  else (findLabel (w.zip h).reverse none).map String.ofList

def formatText (f : Format) : String := f.before++"%v"++f.after

/-- The verb of the format is a label of its own, and no other label is one. -/
structure LabelFormat (f : Format) : Prop where
  before : f.before = "" ∨ ∃ s, f.before = s++"."
  after : f.after = "" ∨ ∃ s, f.after = "."++s
  once : ∀ l ∈ labels f.before++labels f.after, placeholder l = false

theorem labels_append (s s' : String) : labels (s++"."++s') = labels s++labels s' := by
  simp only [labels, String.toList_append]
  have hdot : ".".toList = ['.'] := rfl
  rw [hdot, List.append_assoc, List.singleton_append, List.splitOn_append_cons_self]

theorem labels_injective (s s' : String) (h : labels s = labels s') : s = s' := by
  have hs := congrArg (['.'].intercalate ·) h
  simp only [labels, List.intercalate_splitOn] at hs
  exact String.toList_inj.mp hs

theorem label_dotless (cs : List Char) : ∀ l ∈ cs.splitOn '.', '.' ∉ l := by
  intro l hl hmem
  exact ((Separated.mem_parts '.' '.' cs).mp ⟨l, hl, hmem⟩).2 rfl

theorem labels_single (s : String) (h : '.' ∉ s.toList) : labels s = [s.toList] :=
  List.splitOn_eq_singleton h

section Format
variable {f : Format} (hf : LabelFormat f)
include hf

/-- A host has the labels of its name between those of the format. -/
theorem labels_sprintf : ∃ pre post, (∀ l ∈ pre++post, placeholder l = false) ∧
    ∀ s, labels (f.sprintf s) = pre++labels s++post := by
  have hbefore : ∃ pre, (∀ l ∈ pre, placeholder l = false) ∧
      ∀ s, labels (f.before++s) = pre++labels s := by
    rcases hf.before with hb | ⟨b, hb⟩
    · exact ⟨[], by simp, fun s => by rw [hb, String.empty_append, List.nil_append]⟩
    · refine ⟨labels b, fun l hl => hf.once l (List.mem_append_left _ ?_), fun s => ?_⟩
      · rw [hb, ← String.append_empty (s := b++"."), labels_append]
        exact List.mem_append_left _ hl
      · rw [hb, labels_append]
  have hafter : ∃ post, (∀ l ∈ post, placeholder l = false) ∧
      ∀ s, labels (s++f.after) = labels s++post := by
    rcases hf.after with ha | ⟨a, ha⟩
    · exact ⟨[], by simp, fun s => by rw [ha, String.append_empty, List.append_nil]⟩
    · refine ⟨labels a, fun l hl => hf.once l (List.mem_append_right _ ?_), fun s => ?_⟩
      · rw [ha, ← String.empty_append (s := "."++a), ← String.append_assoc, labels_append]
        exact List.mem_append_right _ hl
      · rw [ha, ← String.append_assoc, labels_append]
  obtain ⟨pre, hpre, hb⟩ := hbefore
  obtain ⟨post, hpost, ha⟩ := hafter
  refine ⟨pre, post, fun l hl => (List.mem_append.mp hl).elim (hpre l) (hpost l), fun s => ?_⟩
  rw [Format.sprintf, ha, hb]

omit hf in
theorem findLabel_literal (ps rest : List (List Char × List Char)) (found : Option (List Char))
    (h : ∀ p ∈ ps, placeholder p.1 = false) : findLabel (ps++rest) found =
      if ∀ p ∈ ps, p.1 = p.2 then findLabel rest found else none := by
  induction ps with
  | nil => simp
  | cons p ps ih =>
    obtain ⟨wp, hp⟩ := p
    have hw : placeholder wp = false := h (wp, hp) (by simp)
    have ih := ih (fun p hp => h p (List.mem_cons_of_mem _ hp))
    by_cases heq : wp = hp
    · subst heq
      rw [List.cons_append, findLabel, if_neg (by simp [hw]), if_neg (by simp), ih]
      simp only [List.forall_mem_cons, true_and]
    · simp [findLabel, hw, heq]

omit hf in
theorem zip_same (xs ys : List (List Char)) (h : xs.length = ys.length) :
    (∀ p ∈ (xs.zip ys).reverse, p.1 = p.2) ↔ xs = ys := by
  induction xs generalizing ys with
  | nil =>
    have hy : ys = [] := List.length_eq_zero_iff.mp h.symm
    simp [hy]
  | cons x xs ih =>
    cases ys with
    | nil => cases h
    | cons y ys =>
      have ih := ih ys (Nat.succ.inj h)
      simp only [List.mem_reverse] at ih ⊢
      rw [List.zip_cons_cons, List.forall_mem_cons, ih, List.cons.injEq]

omit hf in
/-- The loop finds the label at the place of the verb if all other labels agree. -/
theorem findLabel_split (pre post hpre hpost : List (List Char)) (v x : List Char)
    (hv : placeholder v = true) (hp : ∀ l ∈ pre++post, placeholder l = false)
    (hl : pre.length = hpre.length) (hl' : post.length = hpost.length) :
    findLabel ((pre++v::post).zip (hpre++x::hpost)).reverse none =
      if pre = hpre ∧ post = hpost then some x else none := by
  have hliteral : ∀ xs ys : List (List Char), (∀ l ∈ xs, placeholder l = false) →
      ∀ p ∈ (xs.zip ys).reverse, placeholder p.1 = false := by
    intro xs ys hxs p hp
    exact hxs _ (List.of_mem_zip (List.mem_reverse.mp hp)).1
  rw [List.zip_append hl, List.zip_cons_cons, List.reverse_append, List.reverse_cons,
    List.append_assoc, findLabel_literal _ _ _
      (hliteral post hpost (fun l h => hp l (List.mem_append_right _ h))),
    List.singleton_append, findLabel, if_pos hv,
    ← List.append_nil (pre.zip hpre).reverse, findLabel_literal _ _ _
      (hliteral pre hpre (fun l h => hp l (List.mem_append_left _ h)))]
  simp only [zip_same _ _ hl, zip_same _ _ hl', findLabel]
  by_cases hpost : post = hpost <;> by_cases hpre : pre = hpre <;> simp [hpost, hpre]

theorem getOrgName_sprintf (name : String) (hn : '.' ∉ name.toList) :
    getOrgName (formatText f) (f.sprintf name) = some name := by
  obtain ⟨pre, post, hlit, hlabels⟩ := labels_sprintf hf
  have hverb : labels "%v" = [['%', 'v']] := by decide
  have hwant : labels (formatText f) = pre++['%', 'v']::post := by
    rw [formatText, ← Format.sprintf, hlabels, hverb, List.append_assoc, List.singleton_append]
  have hhave : labels (f.sprintf name) = pre++name.toList::post := by
    rw [hlabels, labels_single name hn, List.append_assoc, List.singleton_append]
  simp only [getOrgName, hwant, hhave]
  rw [findLabel_split pre post pre post _ _ rfl hlit rfl rfl]
  simp

theorem getOrgName_some (domain name : String)
    (h : getOrgName (formatText f) domain = some name) : domain = f.sprintf name := by
  obtain ⟨pre, post, hlit, hlabels⟩ := labels_sprintf hf
  have hverb : labels "%v" = [['%', 'v']] := by decide
  have hwant : labels (formatText f) = pre++['%', 'v']::post := by
    rw [formatText, ← Format.sprintf, hlabels, hverb, List.append_assoc, List.singleton_append]
  simp only [getOrgName, hwant] at h
  split at h
  · cases h
  · next hlen =>
    have hlen : (pre++['%', 'v']::post).length = (labels domain).length :=
      not_not.mp (not_or.mp hlen).2
    -- the label at the place of the verb, with those around it
    have hlt : pre.length < (labels domain).length := by
      rw [← hlen, List.length_append, List.length_cons]
      omega
    have hsplit : labels domain = (labels domain).take pre.length++
        (labels domain)[pre.length]::(labels domain).drop (pre.length+1) := by
      rw [List.getElem_cons_drop, List.take_append_drop]
    have hdotless := label_dotless domain.toList _ (List.getElem_mem hlt)
    generalize (labels domain)[pre.length] = x at hsplit hdotless
    have hl : pre.length = ((labels domain).take pre.length).length := by
      rw [List.length_take, Nat.min_eq_left hlt.le]
    have hl' : post.length = ((labels domain).drop (pre.length+1)).length := by
      rw [List.length_drop, ← hlen, List.length_append, List.length_cons]
      omega
    generalize (labels domain).take pre.length = hpre at hsplit hl
    generalize (labels domain).drop (pre.length+1) = hpost at hsplit hl'
    rw [hsplit, findLabel_split pre post hpre hpost _ x rfl hlit hl hl'] at h
    split at h
    · next heq =>
      obtain ⟨rfl, rfl⟩ := heq
      cases h
      apply labels_injective
      have hx : labels (String.ofList x) = [x] := by
        rw [labels_single _ (by rwa [String.toList_ofList]), String.toList_ofList]
      rw [hsplit, hlabels, hx, List.append_assoc, List.singleton_append]
    · cases h

end Format

/-! ## The endpoint -/

def answerAsk (exists_ : Except DbError Bool) : Api Unit :=
  match exists_ with
  | .error _ => respond 500 .empty
  | .ok false => respond 404 .empty
  | .ok true => respond 200 .empty

def tlsAsk (env : Env) (domain : String) : Api Unit := do
  if domain = "" then respond 400 (.text "parameter domain is required")
  else
    match getOrgName (formatText env.gatewayHostFormat) domain with
    | some orgName => answerAsk (← existsOrganizationWithName .pool orgName)
    | none => answerAsk (← existsOrganizationWithCustomDomain .pool domain)

section Answers
variable {σ : Type} (env : Env) (i : σ) (srv : Srv σ)

/-- The question is answered with 200, so a certificate is issued. The database
does not fail. -/
def Issues (domain : String) : Prop :=
  ((tlsAsk env domain).run backend i (fun _ => false) srv {}).2.2.out = [.response 200 .empty]

theorem existing_iff {α : Type} (xs : List α) :
    existing (Queries.collectExactlyOneRow (xs.map (fun _ => true))) = .ok true ↔
      xs.length = 1 := by
  rcases xs with _ | ⟨x, _ | ⟨x', xs⟩⟩ <;> simp [Queries.collectExactlyOneRow, existing]

theorem answerAsk_run (srv : Srv σ) (r : Except DbError Bool) :
    ((answerAsk r).run backend i (fun _ => false) srv {}).2.2.out = [.response 200 .empty] ↔
      r = .ok true := by
  match r with
  | .error e => simp [answerAsk, respond, Action.lift, Prog.run, Action.exec]
  | .ok false => simp [answerAsk, respond, Action.lift, Prog.run, Action.exec]
  | .ok true => simp [answerAsk, respond, Action.lift, Prog.run, Action.exec]

theorem lookup_run (name : Stmt) (rows : Db → Except DbError Bool) :
    ((((query name .pool (Queries.select rows)).bind fun r => .ret (existing r)).bind
      answerAsk).run backend i (fun _ => false) srv {}).2.2.out = [.response 200 .empty] ↔
      existing (rows srv.db) = .ok true := by
  rw [Prog.run_bind, Prog.run_bind]
  have hview : ({} : Ses).visible srv .pool = srv.db := rfl
  simp only [query, Action.lift, Prog.run, Action.exec, Queries.select, hview]
  cases rows srv.db with
  | error e => exact answerAsk_run i _ _
  | ok b => exact answerAsk_run i _ _

/-- A domain that is read as the host of a name is answered for that name. -/
theorem issues_name (domain name : String) (hd : domain ≠ "")
    (hs : Queries.storable name = true)
    (hn : getOrgName (formatText env.gatewayHostFormat) domain = some name) :
    Issues env i srv domain ↔ srv.db.One .organization (fun v => v.name = name) := by
  have hrun := lookup_run i srv .existsOrganizationWithName (fun db =>
    if Queries.storable name then Queries.collectExactlyOneRow <|
      ((db.scan .organization).filter (fun o => o.2.name = name)).map (fun _ => true)
    else .error .invalid)
  rw [if_pos hs, existing_iff, ← Store.one_iff_scan srv.db .organization (fun v => v.name = name)]
    at hrun
  rw [Issues, tlsAsk, if_neg hd, hn]
  exact hrun

/-- Any other domain is answered as a custom domain. -/
theorem issues_domain (domain : String) (hd : domain ≠ "")
    (hs : Queries.storable domain = true)
    (hn : getOrgName (formatText env.gatewayHostFormat) domain = none) :
    Issues env i srv domain ↔
      srv.db.One .organization (fun v => v.settings.customDomain = some domain) := by
  have hrun := lookup_run i srv .existsOrganizationWithCustomDomain (fun db =>
    if Queries.storable domain then Queries.collectExactlyOneRow <|
      ((db.scan .organization).filter (fun o => o.2.settings.customDomain = some domain)).map
        (fun _ => true)
    else .error .invalid)
  rw [if_pos hs, existing_iff, ← Store.one_iff_scan srv.db .organization
    (fun v => v.settings.customDomain = some domain)] at hrun
  rw [Issues, tlsAsk, if_neg hd, hn]
  exact hrun

end Answers

/-! ## Stored names and domains -/

/-- The checks of names and domains hold of a row. -/
structure Checked (v : OrganizationRow) : Prop where
  name : validateName v.name = .ok ()
  domain : ∀ domain, v.settings.customDomain = some domain → validateDomainName domain = .ok ()

theorem requestedDomain_checked (org : Organization) (request : OrganizationSettingsRequest)
    (horg : Checked org.toOrganizationRow) (new : Option String)
    (h : requestedDomain org request = .ok new) (domain : String) (hd : new = some domain) :
    validateDomainName domain = .ok () := by
  rw [requestedDomain] at h
  split at h
  · exact horg.domain domain ((Except.ok.inj h).trans hd)
  · split at h
    · cases (Except.ok.inj h).trans hd
    · next requested _ _ =>
      subst hd
      cases hv : validateDomainName requested with
      | error e =>
        rw [hv] at h
        cases h
      | ok u =>
        rw [hv] at h
        cases h
        exact hv

theorem organization_checks (env : Env) : Checks Checked (fun _ => True) env where
  new _ _ h := ⟨h, nofun⟩
  settings v org org' request hv horg h := by
    rw [requestedSettings] at h
    cases hr : requestedDomain org request with
    | error e =>
      rw [hr] at h
      cases h
    | ok new =>
      rw [hr] at h
      cases h
      exact ⟨hv.name, fun domain hd => requestedDomain_checked org request horg new hr domain hd⟩
  merge _ _ _ _ _ _ _ := trivial

theorem name_chars (name : String) (h : validateName name = .ok ()) :
    name ≠ "" ∧ '.' ∉ name.toList ∧ Queries.storable name = true := by
  have hmatches := (validateName_iff name).mp h
  have hchars := segment_chars '-' name.toList hmatches
  have hnot : ∀ c, c ≠ '-' → isLowerAlnum c = false → c ∉ name.toList := by
    intro c hsep halnum hc
    rcases hchars c hc with hc | hc
    · exact hsep hc
    · rw [halnum] at hc
      cases hc
  refine ⟨fun hempty => ?_, hnot '.' (by decide) (by decide),
    decide_eq_true (hnot '\x00' (by decide) (by decide))⟩
  rw [hempty] at hmatches
  exact absurd hmatches (by decide)

theorem domain_chars (domain : String) (h : validateDomainName domain = .ok ()) :
    domain ≠ "" ∧ Queries.storable domain = true := by
  have hmatches := (validateDomainName_iff domain).mp h
  constructor
  · intro hempty
    rw [hempty] at hmatches
    exact absurd hmatches.1 (by decide)
  · apply decide_eq_true
    intro hc
    rcases segment_chars '.' domain.toList hmatches.2 _ hc with hc | hc
    · exact absurd hc (by decide)
    · exact absurd hc (by decide)

/-! ## Which organizations are answered for -/

/-- The organization has no custom domain, or its domain is the host of some
name, or it does not fit the host format and no other organization has it. -/
def Askable (env : Env) (db : Db) (o : UUID) (v : OrganizationRow) : Prop :=
  ∀ domain, v.settings.customDomain = some domain →
    (∃ o' v', db.row .organization o' = some v' ∧
      domain = env.gatewayHostFormat.sprintf v'.name) ∨
    getOrgName (formatText env.gatewayHostFormat) domain = none ∧
      ∀ o' v', db.row .organization o' = some v' → v'.settings.customDomain = some domain → o' = o

section Hosts
variable {σ : Type} (env : Env) (i : σ) (srv : Srv σ)

theorem sprintf_storable (f : Format) (name : String)
    (h : Queries.storable (f.sprintf name) = true) : Queries.storable name = true := by
  rw [Queries.storable, decide_eq_true_eq] at h ⊢
  intro hc
  apply h
  rw [Format.sprintf, String.toList_append, String.toList_append]
  exact List.mem_append_left _ (List.mem_append_right _ hc)

/-- A domain that fits the host format is answered for the names of organizations. -/
theorem issues_like_name (hf : LabelFormat env.gatewayHostFormat) (hs : Sound schema srv.db)
    (domain name : String) (hd : domain ≠ "") (hname : Queries.storable name = true)
    (hget : getOrgName (formatText env.gatewayHostFormat) domain = some name) :
    Issues env i srv domain ↔ ∃ o v, srv.db.row .organization o = some v ∧
      domain = env.gatewayHostFormat.sprintf v.name := by
  have hsprintf := getOrgName_some hf domain name hget
  have hsame : ∀ v : OrganizationRow, v.name = name ↔
      domain = env.gatewayHostFormat.sprintf v.name := by
    intro v
    constructor
    · intro h
      rw [hsprintf, h]
    · intro h
      exact sprintf_injective env.gatewayHostFormat _ _ (h.symm.trans hsprintf)
  rw [issues_name env i srv domain name hd hname hget]
  constructor
  · rintro ⟨o, v, hv, hn, -⟩
    exact ⟨o, v, hv, (hsame v).mp hn⟩
  · rintro ⟨o, v, hv, hn⟩
    have hn := (hsame v).mpr hn
    refine ⟨o, v, hv, hn, fun o' v' hv' hn' => ?_⟩
    exact hs.once ⟨"organization_name_key", .organization, fun _ v => (0, v.name)⟩
      (by simp [schema, uniques]) o' o v' v hv' hv (congrArg (Prod.mk 0) (hn'.trans hn.symm))

theorem issues_sprintf (hf : LabelFormat env.gatewayHostFormat) (hs : Sound schema srv.db)
    (o : UUID) (v : OrganizationRow) (hv : srv.db.row .organization o = some v)
    (hname : validateName v.name = .ok ()) :
    Issues env i srv (env.gatewayHostFormat.sprintf v.name) := by
  obtain ⟨hempty, hdotless, hstorable⟩ := name_chars v.name hname
  have hne : env.gatewayHostFormat.sprintf v.name ≠ "" := by
    intro h
    rw [Format.sprintf, String.append_eq_empty_iff, String.append_eq_empty_iff] at h
    exact hempty h.1.2
  exact (issues_like_name env i srv hf hs _ v.name hne hstorable
    (getOrgName_sprintf hf v.name hdotless)).mpr ⟨o, v, hv, rfl⟩

/-- Among checked rows the endpoint answers for the host of an organization
exactly in the cases above. -/
theorem issues_host (hf : LabelFormat env.gatewayHostFormat) (hs : Sound schema srv.db)
    (hrows : ∀ o v, srv.db.row .organization o = some v → Checked v) (o : UUID)
    (v : OrganizationRow) (hv : srv.db.row .organization o = some v) :
    Issues env i srv (gatewayHost env v) ↔ Askable env srv.db o v := by
  have hchecked := hrows o v hv
  cases hd : v.settings.customDomain with
  | none =>
    rw [Hosts.gatewayHost_named env v hd]
    refine iff_of_true (issues_sprintf env i srv hf hs o v hv hchecked.name)
      fun domain hdomain => ?_
    cases hd.symm.trans hdomain
  | some domain =>
    obtain ⟨hne, hstorable⟩ := domain_chars domain (hchecked.domain domain hd)
    rw [Hosts.gatewayHost_domain env v domain hd]
    cases hget : getOrgName (formatText env.gatewayHostFormat) domain with
    | some name =>
      have hname := sprintf_storable env.gatewayHostFormat name
        (getOrgName_some hf domain name hget ▸ hstorable)
      rw [issues_like_name env i srv hf hs domain name hne hname hget]
      constructor
      · rintro hnamed domain' hd'
        cases hd.symm.trans hd'
        exact Or.inl hnamed
      · intro h
        rcases h domain hd with hnamed | ⟨hnone, -⟩
        · exact hnamed
        · rw [hget] at hnone
          cases hnone
    | none =>
      rw [issues_domain env i srv domain hne hstorable hget]
      constructor
      · rintro ⟨o', v', hv', hd', hone⟩ domain' hdomain
        cases hd.symm.trans hdomain
        right
        refine ⟨hget, fun o'' v'' hv'' hd'' => ?_⟩
        rw [hone o'' v'' hv'' hd'', hone o v hv hd]
      · intro h
        rcases h domain hd with ⟨o', v', hv', hn⟩ | ⟨-, hone⟩
        · obtain ⟨-, hdotless, -⟩ := name_chars v'.name (hrows o' v' hv').name
          rw [hn, getOrgName_sprintf hf v'.name hdotless] at hget
          cases hget
        · exact ⟨o, v, hv, hd, hone⟩

/-- In every state that requests reach, the endpoint answers 200 for the host of
an organization exactly if the organization is askable. -/
theorem requests_ask_iff [DecidableEq σ] (rt : Analytics.Runtime)
    (hf : LabelFormat env.gatewayHostFormat) (w₀ w : ApiWorld σ) (h₀ : Initial w₀)
    (hp : ∀ j, (∃ email route, w₀.prog j = serve rt env email route) ∨
      ∃ id body, w₀.prog j = gatewayWebhook env id body)
    (h : Run backend postgres w₀ w) (o : UUID) (v : OrganizationRow)
    (hv : w.cfg.srv.db.row .organization o = some v) :
    Issues env i w.cfg.srv (gatewayHost env v) ↔ Askable env w.cfg.srv.db o v := by
  have hrows := run_checked Checked (fun _ => True) env (organization_checks env) rt w₀ w h₀
    (fun j => (hp j).imp_left fun ⟨email, route, hj⟩ => ⟨email, route, first_unchecked route, hj⟩) h
  have hsound := run_sound w₀ w h (h₀.db ▸ sound_empty schema)
  exact issues_host env i w.cfg.srv hf hsound
    (fun o' v' hv' => hrows .organization o' v' (Or.inl hv')) o v hv

end Hosts

/-! ## Two organizations -/

theorem demoFormat_label : LabelFormat Env.demo.gatewayHostFormat where
  before := Or.inl rfl
  after := Or.inr ⟨"hyprmcp.cloud", rfl⟩
  once := by decide

def demoRoute : Fin 4 → Route
  | 0 => demoFounding
  | 1 => .postOrganization (some "bolt")
  | 2 => .putOrganization (.value 2) (some ⟨some "mcp.acme.com", none⟩)
  | 3 => .putOrganization (.value 5) (some ⟨some "mcp.acme.com", none⟩)

def demoStart : ApiWorld (Fin 4) := start fun i => demoServe (demoRoute i)

def demoSchedule : List (Fin 4 × Bool) :=
  List.replicate 4 (0, false)++List.replicate 4 (1, false)++List.replicate 6 (2, false)++
    List.replicate 6 (3, false)

def demoRun (steps : ℕ) : Option (ApiWorld (Fin 4)) :=
  played (demoSchedule.take steps) demoStart

/-- Only the first organization has the domain. -/
theorem requests_ask_demo : ∃ w, demoRun 14 = some w ∧
    ∃ v, w.cfg.srv.db.row .organization 2 = some v ∧
      (Issues Env.demo 0 w.cfg.srv (gatewayHost Env.demo v) ↔
        Askable Env.demo w.cfg.srv.db 2 v) := by
  have h : (demoRun 14).any (fun w => (w.cfg.srv.db.row .organization 2).isSome) = true := by
    decide
  obtain ⟨w, hw, hrow⟩ := (Option.any_eq_true _ _).mp h
  obtain ⟨v, hv⟩ := Option.isSome_iff_exists.mp hrow
  exact ⟨w, hw, v, hv, requests_ask_iff Env.demo 0 Analytics.Runtime.stable demoFormat_label _ w
    (start_initial _) (fun j => Or.inl ⟨some "ada@acme.com", demoRoute j, rfl⟩)
    (played_run _ demoStart w hw) 2 v hv⟩

/-- The domain of both is answered with 500. -/
theorem shared_domain_unanswered : ∃ w₀ w : ApiWorld (Fin 4), Initial w₀ ∧
    (∀ j, ∃ email route, w₀.prog j = serve Analytics.Runtime.stable Env.demo email route) ∧
    Run backend postgres w₀ w ∧ LabelFormat Env.demo.gatewayHostFormat ∧
    ∃ o v, w.cfg.srv.db.row .organization o = some v ∧
      ¬ Issues Env.demo 0 w.cfg.srv (gatewayHost Env.demo v) := by
  have h : (demoRun 20).any (fun w => (w.cfg.srv.db.row .organization 2).any (fun v =>
      ((tlsAsk Env.demo (gatewayHost Env.demo v)).run backend 0 (fun _ => false) w.cfg.srv
        {}).2.2.out.map Settings.Output.status = [some 500])) = true := by
    decide
  obtain ⟨w, hw, hrow⟩ := (Option.any_eq_true _ _).mp h
  obtain ⟨v, hv, hout⟩ := (Option.any_eq_true _ _).mp hrow
  refine ⟨_, w, start_initial _, fun j => ⟨some "ada@acme.com", demoRoute j, rfl⟩,
    played_run _ demoStart w hw, demoFormat_label, 2, v, hv, fun hissues => ?_⟩
  have hstatus := of_decide_eq_true hout
  rw [hissues] at hstatus
  cases hstatus

end Jetski.Ask
