import Athos.Kube.Meta

/-!
# Built-in object types

The specs and statuses of the built-in kinds the operator creates, with every field its builders
set. Values it copies without reading them, such as affinity rules, are kept in serialised form.
-/

namespace Athos.Kube

open Base

/-- A value copied unread from a custom resource into a pod spec. -/
abbrev Verbatim := GoString

/-- `corev1.Protocol`. -/
inductive Protocol where
  | tcp
  | udp
  | sctp
  deriving DecidableEq

/-- `corev1.PullPolicy`; `unset` is the empty string. -/
inductive PullPolicy where
  | unset
  | always
  | never
  | ifNotPresent
  deriving DecidableEq

/-- `corev1.RestartPolicy`; `unset` is the empty string. -/
inductive RestartPolicy where
  | unset
  | always
  | onFailure
  | never
  deriving DecidableEq

/-- `corev1.ContainerPort`. -/
structure ContainerPort where
  name : GoString
  containerPort : Int
  protocol : Protocol
  deriving DecidableEq

/-- `corev1.SecretKeySelector`. -/
structure SecretKeySelector where
  name : GoString
  key : GoString
  deriving DecidableEq

/-- `corev1.EnvVar` with a literal value or a secret reference. -/
structure EnvVar where
  name : GoString
  value : GoString := []
  valueFrom : Option SecretKeySelector := none
  deriving DecidableEq

/-- `corev1.VolumeMount`. -/
structure VolumeMount where
  name : GoString
  mountPath : GoString
  deriving DecidableEq

/-- `corev1.ProbeHandler`. -/
inductive ProbeHandler where
  | exec (command : List GoString)
  | tcpSocket (port : IntOrString)
  deriving DecidableEq

/-- `corev1.Probe`; zero means unset. -/
structure Probe where
  handler : ProbeHandler
  initialDelaySeconds : Int := 0
  periodSeconds : Int := 0
  timeoutSeconds : Int := 0
  failureThreshold : Int := 0
  deriving DecidableEq

/-- `corev1.SecurityContext`. -/
structure SecurityContext where
  allowPrivilegeEscalation : Option Bool
  dropCapabilities : List GoString
  deriving DecidableEq

/-- `corev1.Container`. -/
structure Container where
  name : GoString
  image : GoString
  imagePullPolicy : PullPolicy := .unset
  command : List GoString := []
  ports : List ContainerPort := []
  env : List EnvVar := []
  envFromSecrets : List GoString := []
  volumeMounts : List VolumeMount := []
  resources : ResourceRequirements := {}
  readinessProbe : Option Probe := none
  livenessProbe : Option Probe := none
  securityContext : Option SecurityContext := none
  deriving DecidableEq

/-- `corev1.VolumeSource`. -/
inductive VolumeSource where
  | configMap (name : GoString)
  | emptyDir
  deriving DecidableEq

/-- `corev1.Volume`. -/
structure Volume where
  name : GoString
  source : VolumeSource
  deriving DecidableEq

/-- `corev1.PodSecurityContext`. -/
structure PodSecurityContext where
  runAsNonRoot : Option Bool
  runAsUser : Option Int
  runAsGroup : Option Int
  fsGroup : Option Int
  seccompProfileType : Option GoString
  deriving DecidableEq

/-- `corev1.PodSpec`. -/
structure PodSpec where
  serviceAccountName : GoString := []
  containers : List Container
  topologySpreadConstraints : List Verbatim := []
  affinity : Option Verbatim := none
  tolerations : List Verbatim := []
  imagePullSecrets : List GoString := []
  priorityClassName : GoString := []
  terminationGracePeriodSeconds : Option Int := none
  restartPolicy : RestartPolicy := .unset
  securityContext : Option PodSecurityContext := none
  volumes : List Volume := []
  deriving DecidableEq

/-- `corev1.PodTemplateSpec`. -/
structure PodTemplateSpec where
  labels : StringMap
  spec : PodSpec
  deriving DecidableEq

/-- `corev1.PersistentVolumeClaim` as a volume claim template. -/
structure VolumeClaimTemplate where
  name : GoString
  labels : StringMap
  accessModes : List GoString
  storageRequest : Quantity
  storageClassName : Option GoString
  deriving DecidableEq

/-- `corev1.ServiceAccount` beyond its metadata. -/
structure ServiceAccountSpec where
  unmanaged : Fields := []
  deriving DecidableEq

/-- `corev1.Secret` beyond its metadata; `stringData` is write-only. -/
structure SecretSpec where
  type : GoString := []
  data : StringMap := ∅
  stringData : StringMap := ∅
  unmanaged : Fields := []
  deriving DecidableEq

/-- `corev1.ConfigMap` beyond its metadata. -/
structure ConfigMapSpec where
  data : StringMap := ∅
  unmanaged : Fields := []
  deriving DecidableEq

/-- `appsv1.PodManagementPolicyType`. -/
inductive PodManagementPolicy where
  | orderedReady
  | parallel
  deriving DecidableEq

/-- `appsv1.StatefulSetUpdateStrategyType`. -/
inductive UpdateStrategy where
  | rollingUpdate
  | onDelete
  deriving DecidableEq

/-- `appsv1.StatefulSetSpec`. -/
structure StatefulSetSpec where
  replicas : Option Int
  serviceName : GoString
  podManagementPolicy : PodManagementPolicy
  updateStrategy : UpdateStrategy
  selector : LabelSelector
  template : PodTemplateSpec
  volumeClaimTemplates : List VolumeClaimTemplate
  unmanaged : Fields := []
  deriving DecidableEq

/-- `appsv1.StatefulSetStatus`. -/
structure StatefulSetStatus where
  readyReplicas : Int := 0
  unmanaged : Fields := []
  deriving DecidableEq

/-- `corev1.ServiceType`; `unset` is the empty string. -/
inductive ServiceType where
  | unset
  | clusterIP
  | nodePort
  | loadBalancer
  | externalName
  deriving DecidableEq

/-- `corev1.ServicePort`. -/
structure ServicePort where
  name : GoString
  port : Int
  targetPort : IntOrString
  protocol : Protocol
  deriving DecidableEq

/-- `corev1.ServiceSpec`. -/
structure ServiceSpec where
  type : ServiceType := .unset
  clusterIP : GoString := []
  publishNotReadyAddresses : Bool := false
  selector : StringMap
  ports : List ServicePort
  unmanaged : Fields := []
  deriving DecidableEq

/-- `policyv1.PodDisruptionBudgetSpec`. -/
structure PodDisruptionBudgetSpec where
  selector : Option LabelSelector
  minAvailable : Option IntOrString := none
  maxUnavailable : Option IntOrString := none
  unhealthyPodEvictionPolicy : Option GoString := none
  deriving DecidableEq

/-- `appsv1.DeploymentSpec`. -/
structure DeploymentSpec where
  replicas : Option Int
  selector : LabelSelector
  template : PodTemplateSpec
  unmanaged : Fields := []
  deriving DecidableEq

/-- `batchv1.JobSpec`. -/
structure JobSpec where
  backoffLimit : Option Int
  template : PodTemplateSpec
  unmanaged : Fields := []
  deriving DecidableEq

/-- `batchv1.JobConditionType`. -/
inductive JobConditionType where
  | complete
  | failed
  | other (type : GoString)
  deriving DecidableEq

/-- `batchv1.JobCondition`, as far as it is read. -/
structure JobCondition where
  type : JobConditionType
  status : ConditionStatus
  deriving DecidableEq

/-- `batchv1.JobStatus`. -/
structure JobStatus where
  conditions : List JobCondition := []
  unmanaged : Fields := []
  deriving DecidableEq

end Athos.Kube
