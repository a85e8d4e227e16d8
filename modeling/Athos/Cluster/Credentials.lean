import Athos.Cluster.Convergence
import Athos.Secretkey.Uri
import Athos.Workflows.Reconcile

/-!
# The generated credentials

The password that the cluster controller generates consists of letters and digits, so that libpq
reads the URI of the credentials Secret, which has no escapes, as the credentials next to it.
-/

namespace Athos.Cluster

open Base Base.Prog Kube Libpq Postgres

/-- libpq reads the URI of a Secret as the credentials next to it. -/
def Connects (s : SecretSpec) : Prop :=
  ∃ uri u, s.data[lit "uri"]? = some uri ∧ readUri uri = some u ∧ u.params = [] ∧
    u.password.length = 32 ∧ s.data[lit "password"]? = some u.password ∧
    s.data[lit "username"]? = some u.user ∧ s.data[lit "host"]? = some u.host ∧
    s.data[lit "port"]? = some u.port ∧ s.data[lit "database"]? = some u.dbname

variable {c : PostgresCluster}

private theorem connects_created {pw : GoString} (hname : IsHostName (primaryServiceName c))
    (hlength : pw.length = 32) (hmem : ∀ b ∈ pw, b ∈ defaultAlphabet) :
    Connects (normalize .secret (buildCredentialSecret c pw).spec) := by
  have hget {k v : GoString} (h : (buildCredentialSecret c pw).spec.stringData[k]? = some v) :
      (normalize .secret (buildCredentialSecret c pw).spec).data[k]? = some v :=
    (Workflows.getElem?_overlay _ k).trans (by rw [h, Option.some_or])
  have halphabet : ∀ b ∈ defaultAlphabet, b ∉ lit "@/%" := forall_mem_of_all rfl
  have hread := (Secretkey.readUri_libpqURI_iff hname).2
    (show Secretkey.LibpqReadable (lit "5432") (lit "postgres") (lit "postgres") pw from
      ⟨forall_mem_of_all rfl, fun b hb => halphabet b (hmem b hb), forall_mem_of_all rfl,
        forall_mem_of_all rfl⟩)
  have hne : pw ≠ [] := by
    rintro rfl
    cases hlength
  rw [Secretkey.libpqURI, if_neg hne] at hread
  refine ⟨_, _, hget ?_, hread, rfl, hlength, hget ?_, hget ?_, hget ?_, hget ?_, hget ?_⟩ <;>
    exact stringData_buildCredentialSecret.2 (by simp)

variable {T : RuneTables} {r : PostgresClusterReconciler} {w : World}

private theorem wp_reconcileCredentials (hname : IsHostName (primaryServiceName c))
    (h : ∀ o, w.objects.get .secret (secretKey c) = some o → Connects o.spec) {A : Ambient → Prop} :
    wp (within A) (reconcileCredentials T r c) (fun _ w' =>
      ∀ o, w'.objects.get .secret (secretKey c) = some o → Connects o.spec) w := by
  refine wp_lookup ?_ ?_ fun _ _ _ => h
  · intro e hne _ t
    cases e with
    | notFound => exact absurd rfl hne
    | alreadyExists | conflict | invalid | other _ => exact h
  · intro _ t
    refine wp_bind.2 (wp_mono (within_monotone A) (wp_generateBytes (by decide) _ _) ?_)
    rintro res w₁ ⟨hw₁, -, hpw⟩
    rw [show w.objects = w₁.objects from hw₁.symm] at h
    cases res with
    | error e => exact h
    | ok pw =>
      obtain ⟨hlength, hmem⟩ := hpw pw rfl
      dsimp only
      rw [setControllerReference_new rfl rfl]
      exact wp_createMissing_keeps (connects_created hname hlength hmem) keeps_recordEventf h

/-- The credentials that the operator generates can be used, whatever the random source returns
and whichever requests of whichever calls fail. -/
theorem credentials_connect (hname : IsHostName (primaryServiceName c))
    (h : ∀ o, w.objects.get .secret (secretKey c) = some o → Connects o.spec)
    (calls : List (List Ambient)) (o : Secret)
    (ho : (calls.foldl (fun w es => (run serve (reconcileCredentials T r c) es w).2)
      w).objects.get .secret (secretKey c) = some o) : Connects o.spec := by
  induction calls generalizing w with
  | nil => exact h o ho
  | cons es calls ih => exact ih (run_of_wp_any (wp_reconcileCredentials hname h) es) ho

/-- The first call creates the Secret. -/
theorem credentials_connect_sampleCluster :
    ∃ o, (run serve (reconcileCredentials .basic {} sampleCluster) []
      Workflows.newCluster).2.objects.get .secret (secretKey sampleCluster) = some o ∧
        Connects o.spec := by
  have hes : ∀ e ∈ ([] : List Ambient), e.Clean := nofun
  obtain ⟨-, hs, hok⟩ := run_of_wp (by decide)
    (secures_credentials (A := Ambient.Clean) sampleCluster Workflows.newCluster) hes
  obtain ⟨o, ho, -⟩ := hs (hok smooth_clean) _ List.mem_cons_self
  exact ⟨o, ho, credentials_connect (forall_mem_of_all rfl) (fun _ ho => by cases ho) [[]] o ho⟩

end Athos.Cluster
