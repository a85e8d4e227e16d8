import Athos.Kube.DnsNames
import Athos.Postgres.Resources

/-!
# Host names and the server certificate

`ServerSANs` of `src/internal/certificate/certificate.go` against the host names that clients are
given. The list has the pods under the headless Service, and the name of the cluster, which is no
Service: the Services are called `-primary` and `-replicas`.
-/

namespace Athos.Certificate

open Base Kube Api Postgres List

/-- `ServerSANs`; `certificate.go:162-171`. -/
def serverSANs (clusterName namespace_ headlessSvcName : GoString) : List GoString :=
  [clusterName,
    clusterName ++ lit "." ++ namespace_,
    clusterName ++ lit "." ++ namespace_ ++ lit ".svc",
    clusterName ++ lit "." ++ namespace_ ++ lit ".svc.cluster.local",
    lit "*." ++ headlessSvcName ++ lit "." ++ namespace_ ++ lit ".svc.cluster.local",
    lit "localhost"]

/-- A name of the certificate matches the host it names, or with `*` as its first label every
host that has one label in its place. -/
def sanMatches (san host : GoString) : Bool :=
  san == host ||
    match san with
    | 0x2A :: 0x2E :: parent =>
      host.contains 0x2E && (cutByte 0x2E host).1 != [] && (cutByte 0x2E host).2 == parent
    | _ => false

/-- The names of the certificate of a cluster. -/
def clusterSANs (cluster : PostgresCluster) : List GoString :=
  serverSANs cluster.metadata.name cluster.metadata.namespace_ (headlessServiceName cluster)

/-- Some name of the certificate matches. -/
def Covered (cluster : PostgresCluster) (host : GoString) : Prop :=
  ∃ san ∈ clusterSANs cluster, sanMatches san host = true

instance (cluster : PostgresCluster) (host : GoString) : Decidable (Covered cluster host) :=
  inferInstanceAs (Decidable (∃ san ∈ clusterSANs cluster, sanMatches san host = true))

/-- Where clients find a host name. -/
inductive HostUse where
  | pod (n : Nat)
  | credentials (password : GoString)
  | backup (backup : PostgresBackup)
  | replicas

/-- The host name found there. -/
def Told (cluster : PostgresCluster) (host : GoString) : HostUse → Prop
  | .pod n => podFQDN cluster n = host
  | .credentials password =>
    (buildCredentialSecret cluster password).spec.stringData[lit "host"]? = some host
  | .backup backup =>
    ∃ c ∈ (buildBackupJob backup cluster).spec.template.spec.containers,
      c.command = backupCommand backup.spec.method host
  | .replicas =>
    replicaServiceName cluster ++ lit "." ++ cluster.metadata.namespace_ ++
      lit ".svc.cluster.local" = host

section Told

variable {cluster : PostgresCluster} {host : GoString}

private theorem told_credentials_iff {password : GoString} :
    Told cluster host (.credentials password) ↔ host = primaryServiceName cluster := by
  have hhost : (buildCredentialSecret cluster password).spec.stringData[lit "host"]? =
      some (primaryServiceName cluster) := stringData_buildCredentialSecret.2 (by simp)
  rw [Told, hhost, Option.some.injEq]
  exact eq_comm

private theorem backupCommand_injective {method : BackupMethod} {host host' : GoString}
    (h : backupCommand method host = backupCommand method host') : host = host' := by
  cases method <;>
  · simp only [backupCommand, List.cons.injEq, and_true, true_and] at h
    exact append_cancel_left (append_cancel_right h)

private theorem told_backup_iff {backup : PostgresBackup} :
    Told cluster host (.backup backup) ↔
      host = primaryServiceName cluster ++ lit "." ++ cluster.metadata.namespace_ ++
        lit ".svc.cluster.local" := by
  have hcommand : ∀ c, c ∈ (buildBackupJob backup cluster).spec.template.spec.containers →
      c.command = backupCommand backup.spec.method (primaryServiceName cluster ++ lit "." ++
        cluster.metadata.namespace_ ++ lit ".svc.cluster.local") := by
    intro c hc
    obtain rfl := mem_singleton.1 hc
    split <;> rfl
  constructor
  · rintro ⟨c, hc, h⟩
    exact backupCommand_injective (h.symm.trans (hcommand c hc))
  · rintro rfl
    exact ⟨_, mem_cons_self, hcommand _ mem_cons_self⟩

private theorem exists_told (cluster : PostgresCluster) (use : HostUse) :
    ∃ host, Told cluster host use := by
  cases use with
  | pod n => exact ⟨_, rfl⟩
  | credentials password => exact ⟨_, told_credentials_iff.2 rfl⟩
  | backup backup => exact ⟨_, told_backup_iff.2 rfl⟩
  | replicas => exact ⟨_, rfl⟩

end Told

section Covered

variable {cluster : PostgresCluster} {san parent host label tail : GoString}

/-- The parent of the pods. -/
def podDomain (cluster : PostgresCluster) : GoString :=
  headlessServiceName cluster ++ lit "." ++ cluster.metadata.namespace_ ++
    lit ".svc.cluster.local"

private theorem sanMatches_wildcard (hdot : 0x2E ∉ label) (hlabel : label ≠ []) :
    sanMatches (0x2A :: 0x2E :: parent) (label ++ 0x2E :: parent) = true := by
  simp [sanMatches, cutByte_append_cons hdot, hlabel]

private theorem eq_or_of_sanMatches (h : sanMatches san host = true) :
    san = host ∨ san = 0x2A :: 0x2E :: (cutByte 0x2E host).2 := by
  unfold sanMatches at h
  rw [Bool.or_eq_true, beq_iff_eq] at h
  apply h.imp_right
  intro hwild
  split at hwild
  · rw [Bool.and_eq_true, beq_iff_eq] at hwild
    rw [hwild.2]
  · cases hwild

section

variable (h : IsDns1123Label cluster.metadata.name)

include h

private theorem not_mem_dot : 0x2E ∉ cluster.metadata.name := by
  intro hdot
  rcases h.word.chars _ hdot with h | h <;> exact absurd h (by decide)

private theorem covered_pod (n : Nat) : Covered cluster (podFQDN cluster n) := by
  have hdot : 0x2E ∉ podName cluster n := by
    have hd := not_mem_decimal (b := 0x2E) (by decide) (by decide) n
    simp only [podName, mem_append, not_or]
    exact ⟨⟨not_mem_dot h, by decide⟩, hd⟩
  have hne : podName cluster n ≠ [] := by
    intro h
    exact cons_ne_nil _ _ (append_eq_nil_iff.1 (append_eq_nil_iff.1 h).1).2
  have hfqdn : podFQDN cluster n = podName cluster n ++ 0x2E :: podDomain cluster := by
    simp only [podFQDN, podDomain, append_assoc]
    rfl
  refine ⟨0x2A :: 0x2E :: podDomain cluster, ?_, ?_⟩
  · have hsan : 0x2A :: 0x2E :: podDomain cluster = lit "*." ++ headlessServiceName cluster ++
        lit "." ++ cluster.metadata.namespace_ ++ lit ".svc.cluster.local" := by
      simp only [podDomain, append_assoc]
      rfl
    rw [hsan, clusterSANs, serverSANs]
    simp
  · rw [hfqdn]
    exact sanMatches_wildcard hdot hne

private theorem cases_of_mem_clusterSANs (hsan : san ∈ clusterSANs cluster) :
    (cutByte 0x2E san).1 = cluster.metadata.name ∨ san = 0x2A :: 0x2E :: podDomain cluster ∨
      san = lit "localhost" := by
  have hdot := not_mem_dot h
  have hunder : ∀ rest, (cutByte 0x2E (cluster.metadata.name ++ lit "." ++ rest)).1 =
      cluster.metadata.name := by
    intro rest
    rw [append_assoc]
    exact congrArg Prod.fst (cutByte_append_cons hdot rest)
  simp only [clusterSANs, serverSANs, mem_cons, not_mem_nil, or_false] at hsan
  rcases hsan with rfl | rfl | rfl | rfl | rfl | rfl
  · exact .inl (congrArg Prod.fst (cutByte_of_not_mem hdot))
  · exact .inl (hunder _)
  · rw [append_assoc]
    exact .inl (hunder _)
  · rw [append_assoc]
    exact .inl (hunder _)
  · right; left
    simp only [podDomain, append_assoc]
    rfl
  · exact .inr (.inr rfl)

private theorem not_covered (hcut : cutByte 0x2E host = (label, tail))
    (hlabel : label ≠ cluster.metadata.name) (hdash : 0x2D ∈ label)
    (htail : tail ≠ podDomain cluster) : ¬ Covered cluster host := by
  rintro ⟨san, hsan, hmatch⟩
  have hcases := cases_of_mem_clusterSANs h hsan
  rcases eq_or_of_sanMatches hmatch with rfl | rfl
  · -- The name is the host: their first labels would be the same.
    rw [hcut] at hcases
    rcases hcases with hname | rfl | rfl
    · exact hlabel hname
    · have hstar : label = [0x2A] := (congrArg Prod.fst hcut).symm
      rw [hstar] at hdash
      exact absurd hdash (by decide)
    · have hlocal : label = lit "localhost" := (congrArg Prod.fst hcut).symm
      rw [hlocal] at hdash
      exact absurd hdash (by decide)
  · rw [hcut] at hcases
    rcases hcases with hname | hdomain | hlocal
    · have hstar : 0x2A ∈ cluster.metadata.name := by
        rw [← hname]
        exact mem_singleton_self _
      rcases h.word.chars _ hstar with h | h <;> exact absurd h (by decide)
    · exact htail (tail_eq_of_cons_eq (tail_eq_of_cons_eq hdomain))
    · exact absurd (head_eq_of_cons_eq hlocal) (by decide)

private theorem not_covered_service {suffix_ : GoString} (hdash : 0x2D ∈ suffix_)
    (hdot : 0x2E ∉ suffix_) :
    ¬ Covered cluster (cluster.metadata.name ++ suffix_) ∧
    ¬ Covered cluster (cluster.metadata.name ++ suffix_ ++ lit "." ++
      cluster.metadata.namespace_ ++ lit ".svc.cluster.local") := by
  have hlabel : 0x2E ∉ cluster.metadata.name ++ suffix_ := by
    rw [mem_append, not_or]
    exact ⟨not_mem_dot h, hdot⟩
  have hother : cluster.metadata.name ++ suffix_ ≠ cluster.metadata.name := by
    intro he
    rw [append_right_eq_self.1 he] at hdash
    cases hdash
  have hmem : 0x2D ∈ cluster.metadata.name ++ suffix_ := mem_append_right _ hdash
  constructor
  · refine not_covered h (cutByte_of_not_mem hlabel) hother hmem ?_
    intro he
    exact cons_ne_nil _ _ (append_eq_nil_iff.1 he.symm).2
  · have hcut : cutByte 0x2E (cluster.metadata.name ++ suffix_ ++ lit "." ++
        cluster.metadata.namespace_ ++ lit ".svc.cluster.local") =
        (cluster.metadata.name ++ suffix_,
          cluster.metadata.namespace_ ++ lit ".svc.cluster.local") := by
      rw [append_assoc, append_assoc]
      exact cutByte_append_cons hlabel _
    refine not_covered h hcut hother hmem ?_
    intro he
    have hlen := congrArg List.length he
    simp only [podDomain, headlessServiceName, length_append] at hlen
    have : 0 < (lit "-pods").length := by decide
    omega

end

end Covered

/-- Of the hosts that clients are told, the certificate covers the pods and no others. -/
theorem certificate_covers_iff (cluster : PostgresCluster)
    (h : IsDns1123Label cluster.metadata.name) (use : HostUse) :
    (∃ host, Told cluster host use) ∧
      ∀ host, Told cluster host use → (Covered cluster host ↔ ∃ n, use = .pod n) := by
  refine ⟨exists_told cluster use, ?_⟩
  intro host htold
  cases use with
  | pod n =>
    obtain rfl := htold
    exact iff_of_true (covered_pod h n) ⟨n, rfl⟩
  | credentials password =>
    obtain rfl := told_credentials_iff.1 htold
    exact iff_of_false (not_covered_service h (by decide) (by decide)).1 (by simp)
  | backup backup =>
    obtain rfl := told_backup_iff.1 htold
    exact iff_of_false (not_covered_service h (by decide) (by decide)).2 (by simp)
  | replicas =>
    obtain rfl := htold
    exact iff_of_false (not_covered_service h (by decide) (by decide)).2 (by simp)

/-- A cluster called `db`. -/
def sampleCluster : PostgresCluster where
  metadata := { name := lit "db", namespace_ := lit "default" }
  spec := { postgresVersion := 16, instances := 1, storage := { size := .ofBinary 10 30 } }
  status := ({} : PostgresClusterStatus)

/-- The first pod is told and covered. -/
theorem certificate_covers_pod :
    Told sampleCluster (lit "db-0.db-pods.default.svc.cluster.local") (.pod 0) ∧
      Covered sampleCluster (lit "db-0.db-pods.default.svc.cluster.local") := by
  have hlabel : IsDns1123Label sampleCluster.metadata.name := ⟨by decide, by decide⟩
  have htold : Told sampleCluster (lit "db-0.db-pods.default.svc.cluster.local") (.pod 0) := by
    rw [Told]
    decide
  exact ⟨htold, ((certificate_covers_iff sampleCluster hlabel (.pod 0)).2 _ htold).2 ⟨0, rfl⟩⟩

/-- The host of the credentials is `db-primary`, which no name matches. -/
theorem certificate_misses_primary :
    Told sampleCluster (lit "db-primary") (.credentials (lit "secret")) ∧
      ¬ Covered sampleCluster (lit "db-primary") :=
  ⟨told_credentials_iff.2 rfl, by decide⟩

end Athos.Certificate
