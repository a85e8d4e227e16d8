import Athos.Kube.Workload

/-!
# Network policies

Which connections a NetworkPolicy lets into the pods it selects. An empty list of peers or ports
stands for all of them, and an empty selector matches everything.
-/

namespace Athos.Kube

open Base

/-- `networkingv1.NetworkPolicyPeer`, without address blocks. -/
structure NetworkPolicyPeer where
  podSelector : Option LabelSelector := none
  namespaceSelector : Option LabelSelector := none
  deriving DecidableEq

/-- `networkingv1.NetworkPolicyPort` with a number. -/
structure NetworkPolicyPort where
  protocol : Option Protocol := none
  port : Option Int := none
  deriving DecidableEq

/-- `networkingv1.NetworkPolicyIngressRule`. -/
structure NetworkPolicyIngressRule where
  ports : List NetworkPolicyPort := []
  from_ : List NetworkPolicyPeer := []
  deriving DecidableEq

/-- `networkingv1.PolicyType`. -/
inductive PolicyType where
  | ingress
  | egress
  deriving DecidableEq

/-- `networkingv1.NetworkPolicy`, for incoming connections. -/
structure NetworkPolicy where
  metadata : ObjectMeta
  podSelector : LabelSelector
  policyTypes : List PolicyType
  ingress : List NetworkPolicyIngressRule
  deriving DecidableEq

/-- A pod as policies see it. -/
structure Party where
  namespace_ : GoString
  labels : StringMap

section Semantics

variable (namespaceLabels : GoString → StringMap)

/-- A peer without a namespace selector is in the namespace of the policy. -/
def NetworkPolicyPeer.includes (peer : NetworkPolicyPeer) (policyNamespace : GoString)
    (source : Party) : Bool :=
  match peer.namespaceSelector, peer.podSelector with
  | none, none => false
  | none, some pods =>
    source.namespace_ == policyNamespace && pods.matchLabels.matches source.labels
  | some namespaces, none => namespaces.matchLabels.matches (namespaceLabels source.namespace_)
  | some namespaces, some pods =>
    namespaces.matchLabels.matches (namespaceLabels source.namespace_) &&
      pods.matchLabels.matches source.labels

/-- Without a protocol a port is one of TCP, and without a number it is every port. -/
def NetworkPolicyPort.includes (p : NetworkPolicyPort) (protocol : Protocol) (port : Int) : Bool :=
  p.protocol.getD .tcp == protocol && p.port.all (· == port)

/-- A rule without ports is for all ports, and one without peers for all sources. -/
def NetworkPolicyIngressRule.admits (rule : NetworkPolicyIngressRule) (policyNamespace : GoString)
    (source : Party) (protocol : Protocol) (port : Int) : Bool :=
  (rule.ports == [] || rule.ports.any (·.includes protocol port)) &&
    (rule.from_ == [] || rule.from_.any (·.includes namespaceLabels policyNamespace source))

/-- The pods for whose incoming connections the policy is. -/
def NetworkPolicy.selects (policy : NetworkPolicy) (destination : Party) : Bool :=
  policy.policyTypes.contains .ingress && policy.metadata.namespace_ == destination.namespace_ &&
    policy.podSelector.matchLabels.matches destination.labels

/-- With this policy in force the connection is let in: the destination is not selected, or one
of the rules lets it in. -/
def NetworkPolicy.admits (policy : NetworkPolicy) (destination source : Party)
    (protocol : Protocol) (port : Int) : Bool :=
  !policy.selects destination ||
    policy.ingress.any (·.admits namespaceLabels policy.metadata.namespace_ source protocol port)

end Semantics

end Athos.Kube
