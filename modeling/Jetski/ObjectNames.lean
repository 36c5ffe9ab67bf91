import Jetski.Ask
import Jetski.Children

/-!
# Names of the objects of a gateway

The name of an organization is a label of lower-case letters and digits with
single hyphens, and every object of its gateway is named after it. The cluster
admits the objects if the name starts with a letter and leaves room for the
ending of the Service. The validation of names asks for neither.
-/

set_option autoImplicit false

namespace Jetski.ObjectNames

open Schema Jetski.Types Gateway GatewayConfig Kubernetes Validation Children

theorem name_label (name : String) (h : validateName name = .ok ()) :
    isLabel name.toList = true := by
  have hsegments := (validateName_iff name).mp h
  have hne : name.toList ≠ [] := fun hnil =>
    (Ask.name_chars name h).1 (String.toList_inj.mp (hnil.trans String.toList_empty.symm))
  have hchars := segment_chars '-' name.toList hsegments
  obtain ⟨hhead, hlast, -⟩ := Separated.parts_ends '-' name.toList (segment_ne '-' _ hsegments)
  have hend : ∀ o : Option Char, (∀ c ∈ o, c ∈ name.toList) → o.isSome → o ≠ some '-' →
      o.any isLowerAlnum = true := by
    intro o hmem hsome hsep
    obtain ⟨c, rfl⟩ := Option.isSome_iff_exists.mp hsome
    rcases hchars c (hmem c rfl) with rfl | hc
    · exact absurd rfl hsep
    · exact hc
  have hhead' := hend name.toList.head? (fun c hc => List.mem_of_mem_head? hc)
    (List.isSome_head?.mpr hne) hhead
  have hlast' := hend name.toList.getLast? (fun c hc => List.mem_of_mem_getLast? hc)
    (List.getLast?_isSome.mpr hne) hlast
  have hall : name.toList.all (fun c => isLowerAlnum c ∨ c = '-') = true := by
    apply List.all_eq_true.mpr
    intro c hc
    exact decide_eq_true ((hchars c hc).symm)
  rw [isLabel, decide_eq_true_eq]
  exact ⟨hhead', hlast', hall⟩

theorem isLabel_append (cs ds : List Char) (h : isLabel cs = true)
    (hlast : ds.getLast?.any isLowerAlnum = true)
    (hall : ds.all (fun c => isLowerAlnum c ∨ c = '-') = true) : isLabel (cs++ds) = true := by
  rw [isLabel, decide_eq_true_eq] at h ⊢
  obtain ⟨hhead, -, hchars⟩ := h
  have hcs : cs ≠ [] := by
    rintro rfl
    cases hhead
  have hds : ds ≠ [] := by
    rintro rfl
    cases hlast
  refine ⟨?_, ?_, ?_⟩
  · rwa [List.head?_append_of_ne_nil cs hcs]
  · rwa [List.getLast?_append_of_ne_nil cs hds]
  · rw [List.all_append, hchars, hall]
    rfl

theorem label_subdomain (s : String) (h : isLabel s.toList = true) (hdot : '.' ∉ s.toList)
    (hlen : s.length ≤ 253) : isDNS1123Subdomain s = true := by
  rw [isDNS1123Subdomain, decide_eq_true_eq, List.splitOn_eq_singleton hdot]
  exact ⟨hlen, by simp [h]⟩

/-- A name that starts with a letter and leaves room for the ending of the Service. -/
def roomy (name : String) : Bool := name.toList.head?.any isLetter ∧ name.length ≤ 55

theorem service_name (name : String) (h : validateName name = .ok ()) :
    isDNS1035Label (name++"-gateway") = true ↔ roomy name = true := by
  have hlabel := name_label name h
  have hgateway := isLabel_append name.toList "-gateway".toList hlabel (by decide) (by decide)
  have hne : name.toList ≠ [] := by
    intro hnil
    rw [hnil] at hlabel
    cases hlabel
  have hlength : (name++"-gateway").length = name.length+8 :=
    String.length_append name "-gateway"
  rw [isDNS1035Label, roomy, decide_eq_true_eq, decide_eq_true_eq, String.toList_append,
    List.head?_append_of_ne_nil _ hne, hlength]
  constructor
  · rintro ⟨hlen, hletter, -⟩
    exact ⟨hletter, by omega⟩
  · rintro ⟨hletter, hlen⟩
    exact ⟨by omega, hletter, hgateway⟩

theorem ending_subdomain (name kind : String) (h : validateName name = .ok ())
    (hlen : name.length ≤ 55) : isDNS1123Subdomain (name++ending kind) = true := by
  have hlabel := name_label name h
  have hdot := (Ask.name_chars name h).2.1
  have hending : (ending kind).length ≤ 8 ∧ '.' ∉ (ending kind).toList ∧
      isLabel (name.toList++(ending kind).toList) = true := by
    unfold ending
    split
    · exact ⟨by decide, by decide, isLabel_append _ _ hlabel (by decide) (by decide)⟩
    · split
      · exact ⟨by decide, by decide, by rwa [String.toList_empty, List.append_nil]⟩
      · exact ⟨by decide, by decide, isLabel_append _ _ hlabel (by decide) (by decide)⟩
  apply label_subdomain
  · rw [String.toList_append]
    exact hending.2.2
  · rw [String.toList_append, List.mem_append, not_or]
    exact ⟨hdot, hending.2.1⟩
  · have hlength := String.length_append name (ending kind)
    omega

/-- Every object is admitted, and every label of a host made by the format fits. -/
structure Admissible (parent : Parent) (os : List Object) : Prop where
  names : ∀ o ∈ os, o.admissible = true
  hosts : parent.spec.customDomain = none → ∀ m spec, Object.ingress m spec ∈ os →
    ∀ rule ∈ spec.rules, ∀ l ∈ Ask.labels rule.host, l.length ≤ 63

theorem host_labels (name : String) (h : validateName name = .ok ()) :
    Ask.labels (name++".hyprmcp.cloud") =
      [name.toList, "hyprmcp".toList, "cloud".toList] := by
  have hsplit := Ask.labels_append name "hyprmcp.cloud"
  rw [String.append_assoc] at hsplit
  have hrest : Ask.labels "hyprmcp.cloud" = ["hyprmcp".toList, "cloud".toList] := by decide
  exact hsplit.trans (by rw [Ask.labels_single name (Ask.name_chars name h).2.1, hrest]; rfl)

theorem objects_admissible (env : GatewayEnv) (parent : Parent) (s : String)
    (hname : validateName parent.name = .ok ())
    (horg : parent.spec.organizationName = parent.name)
    (hformat : env.gatewayHostFormat = ⟨"", ".hyprmcp.cloud"⟩) :
    Admissible parent (objects env parent s) ↔ roomy parent.name = true := by
  constructor
  · intro h
    have hservice := h.names (service parent) (by simp [objects])
    exact (service_name parent.name hname).mp hservice
  · intro hroomy
    have hlen : parent.name.length ≤ 55 := by
      rw [roomy, decide_eq_true_eq] at hroomy
      exact hroomy.2
    constructor
    · intro o ho
      have hmeta := (objects_meta env parent s o ho).2
      rw [Object.admissible, hmeta]
      split
      · next hkind =>
        rw [hkind]
        exact (service_name parent.name hname).mpr hroomy
      · exact ending_subdomain parent.name o.typeMeta.kind hname hlen
    · intro hcustom m spec hmem rule hrule
      cases ingress_mem env parent s m spec hmem
      cases List.mem_singleton.mp hrule
      have hhost : getEffectiveGatewayHost env.toEnv parent.toMCPGateway =
          parent.name++".hyprmcp.cloud" := by
        rw [getEffectiveGatewayHost, hcustom, hformat, horg, Format.sprintf, String.empty_append]
      rw [hhost, host_labels parent.name hname]
      intro l hl
      simp only [List.mem_cons, List.not_mem_nil, or_false] at hl
      rcases hl with rfl | rfl | rfl
      · rw [String.length_toList]
        omega
      · decide
      · decide

/-- The gateway that is applied for an organization is made of admissible
objects exactly if its name is roomy. -/
theorem gateway_admissible (env : GatewayEnv) (org : Organization) (pss : List ProjectSummary)
    (spec : MCPGatewaySpec) (os : List Object) (hname : validateName org.name = .ok ())
    (hformat : env.gatewayHostFormat = ⟨"", ".hyprmcp.cloud"⟩)
    (hspec : served (gatewaySpec org pss) = some spec)
    (h : getDesiredChildren env ⟨⟨org.name, spec⟩, env.gatewayNamespace⟩ = some os) :
    Admissible ⟨⟨org.name, spec⟩, env.gatewayNamespace⟩ os ↔ roomy org.name = true := by
  obtain ⟨_, s, -, -, rfl⟩ := getDesiredChildren_some env _ os h
  cases hspec.symm.trans (served_gatewaySpec org pss)
  exact objects_admissible env ⟨⟨org.name, deployedSpec org pss⟩, env.gatewayNamespace⟩ s hname rfl
    hformat

def demoOrganization (name : String) : Organization := ⟨⟨0, name, ⟨none, ⟨true⟩⟩⟩, 1⟩

theorem gateway_admissible_demo : ∃ parent os, Admissible parent os := by
  have h := gateway_admissible demoEnv (demoOrganization "acme") [] _ _ (by decide) rfl
    (served_gatewaySpec _ _) rfl
  exact ⟨_, _, h.mpr (by decide)⟩

def longName : String := String.ofList (List.replicate 56 'a')

/-- A leading digit and a long name are both valid, and neither Service is admitted. -/
theorem gateway_inadmissible :
    (validateName "1acme" = .ok () ∧ ∃ os, getDesiredChildren demoEnv
      ⟨⟨"1acme", deployedSpec (demoOrganization "1acme") []⟩, "default"⟩ = some os ∧
      ∃ o ∈ os, o.typeMeta.kind = "Service" ∧ o.admissible = false) ∧
    validateName longName = .ok () ∧ ∃ os, getDesiredChildren demoEnv
      ⟨⟨longName, deployedSpec (demoOrganization longName) []⟩, "default"⟩ = some os ∧
      ∃ o ∈ os, o.typeMeta.kind = "Service" ∧ o.admissible = false := by
  constructor
  · exact ⟨by decide, _, rfl, service _, .tail _ (.tail _ (.head _)), rfl, by decide⟩
  · have hname : validateName longName = .ok () := (validateName_iff longName).mpr (by decide)
    exact ⟨hname, _, rfl, service _, .tail _ (.tail _ (.head _)), rfl, by decide⟩

end Jetski.ObjectNames
