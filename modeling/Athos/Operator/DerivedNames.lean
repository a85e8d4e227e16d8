import Athos.Cluster.Convergence
import Athos.Cluster.Webhook
import Athos.Kube.DnsNames
import Athos.Pooler.Pgbouncer

/-!
# Names derived from a cluster

Whether the names and labels that are built from the name of a cluster are accepted by the API
server. The webhook does not look at the name.
-/

namespace Athos.Operator

open Base Kube Api Postgres List

/-- The Services of a cluster and of its pooler. -/
def serviceNames (c : PostgresCluster) : List GoString :=
  [primaryServiceName c, replicaServiceName c, headlessServiceName c,
    Pooler.serviceName c.metadata.name]

/-- The names and labels built for the cluster are valid. -/
structure ValidNames (c : PostgresCluster) : Prop where
  services : ∀ s ∈ serviceNames c, IsDns1035Label s
  pods : ∀ n : Int, 0 ≤ n → n < c.spec.instances → IsDns1123Label (podName c n)
  common : ∀ k v : GoString, (commonLabels c)[k]? = some v → IsLabelValue v
  selector : ∀ k v : GoString, (selectorLabels c)[k]? = some v → IsLabelValue v

/-- The name leaves room for the longest suffix, starts with a letter and has no dot. -/
structure SuitsServices (name : GoString) : Prop where
  length : name.length ≤ 54
  letter : name.head?.any isLower = true
  noDot : 0x2E ∉ name

section

variable {T : RuneTables} {c : PostgresCluster}

private theorem instances_of_validate (h : Cluster.validate T c = []) : c.spec.instances ≤ 10 := by
  simp only [Cluster.validate, append_eq_nil_iff] at h
  have hi := h.1.1.2
  simp only [Cluster.validateInstances] at hi
  split at hi
  · cases hi
  · omega

private theorem dns1035_append {name suffix : GoString} (hw : IsDnsWord name)
    (hs : SuitsServices name) (hlast : suffix.getLast?.any isLowerAlnum = true)
    (hchars : ∀ b ∈ suffix, isLowerAlnum b = true ∨ b = 0x2D) (hlen : suffix.length ≤ 9) :
    IsDns1035Label (name ++ suffix) := by
  apply (hw.append hlast hchars).dns1035
  · rw [head?_append_of_ne_nil _ hw.ne_nil]
    exact hs.letter
  · have := hs.length
    rw [length_append]
    omega

private theorem dns1123_podName (hw : IsDnsWord c.metadata.name)
    (hs : SuitsServices c.metadata.name) {n : Int} (hn : 0 ≤ n) (hlt : n < 10) :
    IsDns1123Label (podName c n) := by
  have hdigit : ∀ m < 10, (decimalNat m).length = 1 ∧
      (decimalNat m).getLast?.any isLowerAlnum = true := by decide
  obtain ⟨m, rfl⟩ := Int.eq_ofNat_of_zero_le hn
  obtain ⟨hone, hlast⟩ := hdigit m (by omega)
  have hne := decimalNat_ne_nil m
  have hpod : podName c m = c.metadata.name ++ (lit "-" ++ decimalNat m) := append_assoc ..
  rw [hpod]
  constructor
  · apply hw.append
    · rw [getLast?_append_of_ne_nil _ hne]
      exact hlast
    · intro b hb
      rcases mem_append.1 hb with hb | hb
      · exact .inr (mem_singleton.1 hb)
      · left
        rw [isLowerAlnum, isDigitByte_of_mem_decimalNat hb, Bool.or_true]
  · have hdash : (lit "-").length = 1 := rfl
    have := hs.length
    simp only [length_append, hone, hdash]
    omega

private theorem labelValue_version (h : 14 ≤ c.spec.postgresVersion ∧ c.spec.postgresVersion ≤ 17) :
    IsLabelValue (decimal c.spec.postgresVersion) := by
  have hwords : ∀ v ∈ [(14 : Int), 15, 16, 17], IsDnsWord (decimal v) ∧ (decimal v).length ≤ 63 :=
    forall_mem_of_all (by decide)
  have hmem : c.spec.postgresVersion ∈ [(14 : Int), 15, 16, 17] := by
    simp only [mem_cons, not_mem_nil, or_false]
    omega
  obtain ⟨hword, hlen⟩ := hwords _ hmem
  exact hword.labelValue hlen

private theorem labelValue_labels (hw : IsDnsWord c.metadata.name)
    (hs : SuitsServices c.metadata.name)
    (hv : 14 ≤ c.spec.postgresVersion ∧ c.spec.postgresVersion ≤ 17) :
    (∀ k v : GoString, (commonLabels c)[k]? = some v → IsLabelValue v) ∧
      ∀ k v : GoString, (selectorLabels c)[k]? = some v → IsLabelValue v := by
  have hname : IsLabelValue c.metadata.name := by
    apply hw.labelValue
    have := hs.length
    omega
  have hoperator : IsLabelValue operatorName :=
    (by decide : IsDnsWord operatorName).labelValue (by decide)
  have hcomponent : IsLabelValue (lit "database") :=
    (by decide : IsDnsWord (lit "database")).labelValue (by decide)
  have hversion := labelValue_version hv
  constructor
  · intro k v hk
    have hall : ∀ p ∈ [(labelName, operatorName), (labelInstance, c.metadata.name),
        (labelManagedBy, operatorName), (labelComponent, lit "database"),
        (labelCluster, c.metadata.name), (labelVersion, decimal c.spec.postgresVersion)],
        IsLabelValue p.2 := by
      simp only [forall_mem_cons]
      exact ⟨hoperator, hname, hoperator, hcomponent, hname, hversion, forall_mem_nil _⟩
    exact hall (k, v) ((getElem?_commonLabels c).1 hk)
  · intro k v hk
    have hall : ∀ p ∈ [(labelName, operatorName), (labelInstance, c.metadata.name),
        (labelCluster, c.metadata.name)], IsLabelValue p.2 := by
      simp only [forall_mem_cons]
      exact ⟨hoperator, hname, hname, forall_mem_nil _⟩
    exact hall (k, v) ((getElem?_selectorLabels c).1 hk)

private theorem ValidNames.suitsServices (hv : ValidNames c) (hne : c.metadata.name ≠ []) :
    SuitsServices c.metadata.name := by
  have h : IsDns1035Label (c.metadata.name ++ lit "-replicas") :=
    hv.services (replicaServiceName c) (by simp [serviceNames])
  constructor
  · have hlen := h.length
    have hsuffix : (lit "-replicas").length = 9 := rfl
    rw [length_append, hsuffix] at hlen
    omega
  · have hletter := h.letter
    rwa [head?_append_of_ne_nil _ hne] at hletter
  · intro hdot
    have hchar := h.chars 0x2E (mem_append_left _ hdot)
    exact absurd hchar (by decide)

end

/-- The names built for an accepted cluster are valid exactly if its name suits Services. -/
theorem validNames_iff (T : RuneTables) (c : PostgresCluster)
    (hname : IsDns1123Subdomain c.metadata.name) (hadmitted : Cluster.validate T c = []) :
    ValidNames c ↔ SuitsServices c.metadata.name := by
  constructor
  · intro h
    exact h.suitsServices hname.ne_nil
  · intro hs
    have hw := hname.word hs.noDot
    have hversion := Cluster.version_of_validate hadmitted
    have hinstances := instances_of_validate hadmitted
    constructor
    · simp only [serviceNames, forall_mem_cons]
      refine ⟨?_, ?_, ?_, ?_, forall_mem_nil _⟩
      all_goals exact dns1035_append hw hs (by decide) (forall_mem_of_all (by decide)) (by decide)
    · intro n hn hlt
      exact dns1123_podName hw hs hn (by omega)
    · exact (labelValue_labels hw hs hversion).1
    · exact (labelValue_labels hw hs hversion).2

/-- The sample cluster under another name. -/
def sampleNamed (name : GoString) : PostgresCluster :=
  { Cluster.sampleCluster with metadata := { Cluster.sampleCluster.metadata with name := name } }

/-- A name that the webhook accepts and all names derived from it. -/
theorem validNames_sampleNamed :
    IsDns1123Subdomain (lit "orders-db") ∧
      Cluster.validate .basic (sampleNamed (lit "orders-db")) = [] ∧
      ValidNames (sampleNamed (lit "orders-db")) := by
  have hname : IsDns1123Subdomain (lit "orders-db") := by decide
  have hadmitted : Cluster.validate .basic (sampleNamed (lit "orders-db")) = [] := by
    decide +kernel
  refine ⟨hname, hadmitted, (validNames_iff .basic _ hname hadmitted).2 ?_⟩
  exact ⟨by decide, by decide, by decide⟩

/-- The name is admitted for the sample cluster, and something built from it is invalid. -/
def AdmitsInvalid (name : GoString) : Prop :=
  IsDns1123Subdomain name ∧ Cluster.validate .basic (sampleNamed name) = [] ∧
    ¬ ValidNames (sampleNamed name)

/-- Names with a dot, a leading digit or too many characters are accepted, and a Service gets
an invalid name. -/
theorem not_validNames_sampleNamed :
    AdmitsInvalid (lit "orders.db") ∧ AdmitsInvalid (lit "1db") ∧
      AdmitsInvalid (List.replicate 55 0x61) := by
  refine ⟨⟨by decide, by decide +kernel, ?_⟩, ⟨by decide, by decide +kernel, ?_⟩,
    ⟨by decide, by decide +kernel, ?_⟩⟩
  · intro h
    have hs := h.suitsServices (by decide)
    exact hs.noDot (by decide)
  · intro h
    have hs := h.suitsServices (by decide)
    exact absurd hs.letter (by decide)
  · intro h
    have hs := h.suitsServices (by decide)
    exact absurd hs.length (by decide)

end Athos.Operator
