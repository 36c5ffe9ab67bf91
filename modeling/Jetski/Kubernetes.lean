import Jetski.Validation

/-!
# Kubernetes objects

The objects that a gateway is made of, as far as they are set, and the rules
of the cluster about them: which pods a selector matches, what a label and a
subdomain are, and which names of objects are admitted.
-/

set_option autoImplicit false

namespace Jetski.Kubernetes

open Validation

abbrev StringMap := List (String × String)

structure TypeMeta where
  apiVersion : String
  kind : String
  deriving DecidableEq

structure ObjectMeta where
  name : String
  «namespace» : String
  labels : StringMap := []
  annotations : StringMap := []
  deriving DecidableEq

structure ResourceRequirements where
  limits : StringMap
  requests : StringMap
  deriving DecidableEq

structure VolumeMount where
  name : String
  subPath : String
  mountPath : String
  deriving DecidableEq

structure Container where
  name : String
  image : String
  imagePullPolicy : String
  args : List String
  resources : ResourceRequirements
  ports : List (String × ℕ)
  volumeMounts : List VolumeMount
  deriving DecidableEq

structure Volume where
  name : String
  configMap : String
  deriving DecidableEq

structure PodSpec where
  imagePullSecrets : List String
  containers : List Container
  volumes : List Volume
  deriving DecidableEq

structure PodTemplateSpec where
  labels : StringMap
  annotations : StringMap
  spec : PodSpec
  deriving DecidableEq

structure DeploymentSpec where
  matchLabels : StringMap
  template : PodTemplateSpec
  deriving DecidableEq

structure ServiceSpec where
  selector : StringMap
  ports : List (String × ℕ)
  deriving DecidableEq

structure IngressServiceBackend where
  name : String
  port : ℕ
  deriving DecidableEq

structure HTTPIngressPath where
  path : String
  pathType : String
  backend : IngressServiceBackend
  deriving DecidableEq

structure IngressRule where
  host : String
  paths : List HTTPIngressPath
  deriving DecidableEq

structure IngressSpec where
  ingressClassName : Option String
  rules : List IngressRule
  deriving DecidableEq

inductive Object where
  | configMap (objectMeta : ObjectMeta) (data : StringMap)
  | deployment (objectMeta : ObjectMeta) (spec : DeploymentSpec)
  | service (objectMeta : ObjectMeta) (spec : ServiceSpec)
  | ingress (objectMeta : ObjectMeta) (spec : IngressSpec)
  deriving DecidableEq

def Object.typeMeta : Object → TypeMeta
  | .configMap _ _ => ⟨"v1", "ConfigMap"⟩
  | .deployment _ _ => ⟨"apps/v1", "Deployment"⟩
  | .service _ _ => ⟨"v1", "Service"⟩
  | .ingress _ _ => ⟨"networking.k8s.io/v1", "Ingress"⟩

def Object.objectMeta : Object → ObjectMeta
  | .configMap m _ => m
  | .deployment m _ => m
  | .service m _ => m
  | .ingress m _ => m

/-- A selector matches the labels that have all of its entries. -/
def selects (selector labels : StringMap) : Bool :=
  selector.all (fun kv => labels.lookup kv.1 = some kv.2)

theorem selects_lookup (selector labels : StringMap) (k v : String)
    (h : selects selector labels = true) (hk : (k, v) ∈ selector) :
    labels.lookup k = some v := by
  have hall := List.all_eq_true.mp h (k, v) hk
  exact of_decide_eq_true hall

def IngressSpec.backends (spec : IngressSpec) : List IngressServiceBackend :=
  (spec.rules.flatMap (fun rule => rule.paths)).map (fun path => path.backend)

/-- The ConfigMaps whose entry `subPath` a container of the pod sees as a file. -/
def PodSpec.mounted (spec : PodSpec) (subPath : String) : List String :=
  (spec.containers.flatMap (fun c => c.volumeMounts)).flatMap (fun m =>
    if m.subPath = subPath then
      (spec.volumes.filter (fun v => v.name = m.name)).map (fun v => v.configMap)
    else [])

/-! ## Names -/

/-- `[a-z]` -/
def isLetter (c : Char) : Bool := 'a' ≤ c ∧ c ≤ 'z'

/-- `[a-z0-9]([-a-z0-9]*[a-z0-9])?` -/
def isLabel (cs : List Char) : Bool :=
  cs.head?.any isLowerAlnum ∧ cs.getLast?.any isLowerAlnum ∧
    cs.all (fun c => isLowerAlnum c ∨ c = '-')

/-- `[a-z]([-a-z0-9]*[a-z0-9])?`, at most 63 characters. -/
def isDNS1035Label (s : String) : Bool :=
  s.length ≤ 63 ∧ s.toList.head?.any isLetter ∧ isLabel s.toList

/-- Labels between dots, together at most 253 characters. -/
def isDNS1123Subdomain (s : String) : Bool :=
  s.length ≤ 253 ∧ (s.toList.splitOn '.').all isLabel

def Object.admissible (o : Object) : Bool :=
  if o.typeMeta.kind = "Service" then isDNS1035Label o.objectMeta.name
  else isDNS1123Subdomain o.objectMeta.name

end Jetski.Kubernetes
