import Athos.Kube.Object

/-!
# Version changes

`src/internal/upgrade/upgrade.go`: which change of the major version is an upgrade, and when it is
approved.
-/

namespace Athos.Cluster

open Base Kube Api

/-- `MinSupportedVersion`; `upgrade.go:30`. -/
def minSupportedVersion : Int := 14

/-- `MaxSupportedVersion`; `upgrade.go:33`. -/
def maxSupportedVersion : Int := 17

/-- `AnnotationUpgradeApproved`; `upgrade.go:37`. -/
def annotationUpgradeApproved : GoString := lit "pg.athos.io/upgrade-approved"

/-- `Kind`; `upgrade.go:45-54`. -/
inductive UpgradeKind where
  | none
  | minor
  | major
  deriving DecidableEq

/-- `Plan`; `upgrade.go:69-73`. -/
structure Plan where
  kind : UpgradeKind
  fromVersion : Int
  toVersion : Int
  deriving DecidableEq

/-- `ValidateVersion`; `upgrade.go:100-106`. -/
def validateVersion (version : Int) : Except GoString Unit :=
  if version < minSupportedVersion ∨ maxSupportedVersion < version then
    .error (lit "PostgreSQL major version " ++ decimal version ++
      lit " is not supported; supported range is [" ++ decimal minSupportedVersion ++ lit ", " ++
      decimal maxSupportedVersion ++ lit "]")
  else .ok ()

/-- `Classify`; `upgrade.go:77-96`. Its second test for equality and the one for a minor
change (division by one) come after the first test for equality. -/
def classify (cluster : PostgresCluster) (currentVersion : Int) : Except GoString Plan :=
  let target := cluster.spec.postgresVersion
  match validateVersion target with
  | .error e => .error e
  | .ok _ =>
    if target = currentVersion then .ok ⟨.none, currentVersion, target⟩
    else if target < currentVersion then
      .error (lit "downgrading PostgreSQL from version " ++ decimal currentVersion ++ lit " to " ++
        decimal target ++ lit " is not supported")
    else if target - currentVersion = 0 then .ok ⟨.none, currentVersion, target⟩
    else if currentVersion / 1 = target / 1 then .ok ⟨.minor, currentVersion, target⟩
    else .ok ⟨.major, currentVersion, target⟩

/-- `MajorUpgradeApproved`; `upgrade.go:111-116`. -/
def majorUpgradeApproved (cluster : PostgresCluster) : Bool :=
  cluster.metadata.annotations[annotationUpgradeApproved]? == some (lit "true")

/-- A supported higher version is a major upgrade. -/
theorem classify_of_lt {cluster : PostgresCluster} {v : Int}
    (hmin : minSupportedVersion ≤ cluster.spec.postgresVersion)
    (hmax : cluster.spec.postgresVersion ≤ maxSupportedVersion)
    (hlt : v < cluster.spec.postgresVersion) :
    classify cluster v = .ok ⟨.major, v, cluster.spec.postgresVersion⟩ := by
  have hok : validateVersion cluster.spec.postgresVersion = .ok () := if_neg (by omega)
  simp only [classify, hok, Int.ediv_one]
  rw [if_neg (by omega), if_neg (by omega), if_neg (by omega), if_neg (by omega)]

end Athos.Cluster
