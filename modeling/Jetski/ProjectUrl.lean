import Jetski.Ask
import Jetski.Gateway

/-!
# The URL shown for a project

The user interface builds the URL of a project from names alone, in three call
forms. The backend puts the custom domain of the organization in the place of
the default host.
-/

set_option autoImplicit false

namespace Jetski.ProjectUrl

open Schema Jetski.Types Gateway Validation

/-- The fields of an organization or of a summary that the script reads. -/
structure Value where
  id : String
  name : String
  settings : Option OrganizationSettings
  organization : Option Organization
  deriving DecidableEq

def organizationValue (org : Organization) : Value :=
  ⟨uuidString org.id, org.name, some org.settings, none⟩

def summaryValue (ps : ProjectSummary) : Value :=
  ⟨uuidString ps.id, ps.name, none, some ps.organization⟩

/-- Texts are truthy unless empty, and objects always. -/
def isOrganization (value : Value) : Bool :=
  value.id ≠ "" ∧ value.name ≠ "" ∧ value.settings.isSome

def projectUrl (orgName projectName : String) : String :=
  "https://"++orgName++".hyprmcp.cloud/"++projectName++"/mcp"

/-- Each parameter is an object or a text, the second may be missing. No value
stands for a thrown error. -/
def getProjectUrl (summaryOrOrganization : Value ⊕ String) (project : Option (Project ⊕ String)) :
    Option String :=
  match summaryOrOrganization, project with
  | .inr orgName, some (.inr projectName) => some (projectUrl orgName projectName)
  | .inl value, some (.inl project) =>
    if isOrganization value then
      some (projectUrl value.name (if project.name ≠ "" then project.name else "-"))
    else value.organization.map (fun org => projectUrl org.name value.name)
  | .inl value, none =>
    if isOrganization value then some (projectUrl value.name "-")
    else value.organization.map (fun org => projectUrl org.name value.name)
  | _, _ => none

def callForms (ps : ProjectSummary) : List (Option String) :=
  [getProjectUrl (.inl (summaryValue ps)) none,
    getProjectUrl (.inl (organizationValue ps.organization)) (some (.inl ps.toProject)),
    getProjectUrl (.inr ps.organization.name) (some (.inr ps.name))]

theorem organizationValue_isOrganization (org : Organization) (h : org.name ≠ "") :
    isOrganization (organizationValue org) = true := by
  have hid : uuidString org.id ≠ "" := by
    intro hempty
    have hpos : 0 < (uuidString org.id).length := Nat.length_repr_pos
    rw [hempty] at hpos
    exact absurd hpos (by decide)
  exact decide_eq_true ⟨hid, h, rfl⟩

theorem callForms_eq (ps : ProjectSummary) (horg : ps.organization.name ≠ "")
    (hname : ps.name ≠ "") :
    ∀ form ∈ callForms ps, form = some (projectUrl ps.organization.name ps.name) := by
  have hsummary : isOrganization (summaryValue ps) = false := by simp [isOrganization, summaryValue]
  have hvalue := organizationValue_isOrganization ps.organization horg
  intro form hform
  simp only [callForms, List.mem_cons, List.not_mem_nil, or_false] at hform
  rcases hform with rfl | rfl | rfl
  · simp only [getProjectUrl, hsummary]
    rfl
  · simp only [getProjectUrl, hvalue, if_pos hname]
    rfl
  · rfl

structure DefaultFormats (env : Env) : Prop where
  scheme : env.gatewayHostScheme = "https"
  host : env.gatewayHostFormat = ⟨"", ".hyprmcp.cloud"⟩
  path : env.gatewayPathFormat = ⟨"/", "/mcp"⟩

def urlAt (projectName host : String) : URL := ⟨"https", host, "/"++projectName++"/mcp", ""⟩

theorem urlAt_injective (projectName host host' : String)
    (h : (urlAt projectName host).string = (urlAt projectName host').string) : host = host' := by
  simp only [urlAt, URL.string] at h
  have hpath := (String.append_left_inj _).mp ((String.append_left_inj _).mp h)
  exact (String.append_right_inj _).mp hpath

theorem getMCPURL_host (env : Env) (hformats : DefaultFormats env) (ps : ProjectSummary) :
    ps.getMCPURL env = (urlAt ps.name (ps.organization.settings.customDomain.getD
      (ps.organization.name++".hyprmcp.cloud"))).string := by
  have hhost := String.empty_append (s := ps.organization.name)
  simp only [ProjectSummary.getMCPURL, hformats.scheme, hformats.host, hformats.path,
    Format.sprintf, hhost]
  cases ps.organization.settings.customDomain with
  | none => rfl
  | some domain => rfl

theorem projectUrl_host (orgName projectName : String) :
    projectUrl orgName projectName = (urlAt projectName (orgName++".hyprmcp.cloud")).string := by
  have hscheme : "https://" = "https"++"://" := by decide
  have hdomain : ".hyprmcp.cloud/" = ".hyprmcp.cloud"++"/" := by decide
  rw [projectUrl, hscheme, hdomain]
  simp only [urlAt, URL.string, String.append_assoc, String.append_empty]

/-- All call forms show the URL of the backend. -/
def CallFormsAgree (env : Env) (ps : ProjectSummary) : Prop :=
  ∀ form ∈ callForms ps, form = some (ps.getMCPURL env)

/-- The call forms show the URL of the backend exactly if the organization is served
at its default host. -/
theorem projectUrl_iff (env : Env) (hformats : DefaultFormats env) (ps : ProjectSummary)
    (horg : validateName ps.organization.name = .ok ()) (hname : validateName ps.name = .ok ()) :
    CallFormsAgree env ps ↔ ∀ domain, ps.organization.settings.customDomain = some domain →
      domain = ps.organization.name++".hyprmcp.cloud" := by
  have hforms := callForms_eq ps (Ask.name_chars _ horg).1 (Ask.name_chars _ hname).1
  have hagree : CallFormsAgree env ps ↔
      projectUrl ps.organization.name ps.name = ps.getMCPURL env := by
    constructor
    · intro h
      have hfirst := h _ (.head _)
      rw [hforms _ (.head _)] at hfirst
      exact Option.some.inj hfirst
    · intro h form hform
      rw [hforms form hform, h]
  rw [hagree, projectUrl_host, getMCPURL_host env hformats]
  constructor
  · intro h domain hdomain
    have hhost := urlAt_injective _ _ _ h
    rw [hdomain, Option.getD_some] at hhost
    exact hhost.symm
  · intro h
    cases hcustom : ps.organization.settings.customDomain with
    | none => rfl
    | some domain => rw [Option.getD_some, h domain hcustom]

def demoSummary (customDomain : Option String) : ProjectSummary where
  toProject := ⟨⟨0, 2, 1, "docs", none, none⟩, 3⟩
  organization := ⟨⟨0, "acme", ⟨customDomain, ⟨true⟩⟩⟩, 1⟩
  latestDeploymentRevision := none
  latestDeploymentRevisionEvent := none

theorem projectUrl_demo : CallFormsAgree Env.demo (demoSummary none) :=
  (projectUrl_iff Env.demo ⟨rfl, rfl, rfl⟩ (demoSummary none) (by decide) (by decide)).mpr nofun

/-- No call form knows of a custom domain. -/
theorem projectUrl_customDomain : validateName "acme" = .ok () ∧ validateName "docs" = .ok () ∧
    ¬ CallFormsAgree Env.demo (demoSummary (some "mcp.acme.com")) := by
  have hforms : ¬ ∀ form ∈ callForms (demoSummary (some "mcp.acme.com")),
      form = some ((demoSummary (some "mcp.acme.com")).getMCPURL Env.demo) := by
    decide
  exact ⟨by decide, by decide, hforms⟩

end Jetski.ProjectUrl
