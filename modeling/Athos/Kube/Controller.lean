import Athos.Kube.Server

/-!
# Controller helpers

The parts of `sigs.k8s.io/controller-runtime` that every reconciler of the operator uses: results,
owner references, and the get-or-create-or-update sequence that most of its steps are instances of.
-/

namespace Athos.Kube

open Base

/-- `ctrl.Result`; the delay is in seconds. -/
structure Result where
  requeue : Bool := false
  requeueAfter : Int := 0
  deriving DecidableEq

/-- The owner of an object that a reconciler creates. -/
structure Owner where
  apiVersion : GoString
  kind : GoString
  metadata : ObjectMeta
  deriving DecidableEq

/-- The reference to an owner that controls its object. -/
def Owner.reference (owner : Owner) : OwnerReference where
  apiVersion := owner.apiVersion
  kind := owner.kind
  name := owner.metadata.name
  uid := owner.metadata.uid
  controller := some true
  blockOwnerDeletion := some true

/-- The API group of an `apiVersion`. -/
def groupOf (apiVersion : GoString) : GoString :=
  if apiVersion.contains 0x2F then apiVersion.takeWhile (· != 0x2F) else []

/-- Two references to one object: same group, kind and name. -/
def referSameObject (a b : OwnerReference) : Bool :=
  groupOf a.apiVersion == groupOf b.apiVersion && a.kind == b.kind && a.name == b.name

/-- Replace the first reference to the same object, or append. -/
def upsertOwnerRef (ref : OwnerReference) : List OwnerReference → List OwnerReference
  | [] => [ref]
  | r :: rs => if referSameObject r ref then ref :: rs else r :: upsertOwnerRef ref rs

/-- `controllerutil.SetControllerReference`. -/
def setControllerReference {k : Kind} (owner : Owner) (o : Object k) :
    Except GoError (Object k) :=
  if owner.metadata.namespace_ ≠ [] ∧ o.metadata.namespace_ = [] then
    .error (.message (lit "cluster-scoped resource must not have a namespace-scoped owner"))
  else if owner.metadata.namespace_ ≠ [] ∧ owner.metadata.namespace_ ≠ o.metadata.namespace_ then
    .error (.message (lit "cross-namespace owner references are disallowed"))
  else if (controllerOf o.metadata).any (!referSameObject · owner.reference) then
    .error (.message (lit "object is already owned by another controller"))
  else
    .ok { o with metadata := { o.metadata with
      ownerReferences := upsertOwnerRef owner.reference o.metadata.ownerReferences } }

/-- An object with the reference that `setControllerReference` puts on a new object. -/
def Object.controlledBy {k : Kind} (o : Object k) (owner : Owner) : Object k :=
  { o with metadata := { o.metadata with ownerReferences := [owner.reference] } }

/-- On a new object in the owner's namespace the reference is always set. -/
theorem setControllerReference_new {k : Kind} {owner : Owner} {o : Object k}
    (hns : o.metadata.namespace_ = owner.metadata.namespace_)
    (hrefs : o.metadata.ownerReferences = []) :
    setControllerReference owner o = .ok (o.controlledBy owner) := by
  unfold setControllerReference
  rw [if_neg fun h => h.1 (hns ▸ h.2), if_neg fun h => h.2 hns.symm, controllerOf, hrefs]
  rfl

/-- Drop the value of an API answer and keep its error. -/
def discard {α : Type} : Except ApiError α → Except GoError Unit
  | .ok _ => .ok ()
  | .error e => .error (.api e)

/-- An object with another desired part. -/
def Object.mapSpec {k : Kind} (o : Object k) (f : Spec k → Spec k) : Object k :=
  { o with spec := f o.spec }

/-- Create an object that was not found, and report it. -/
def createMissing {k : Kind} (desired : Object k) (created : Action Unit) :
    Action (Except GoError Unit) := do
  match ← Client.create desired with
  | .error e => return .error (.api e)
  | .ok _ =>
    created
    return .ok ()

/-- Look an object up and do something only when it does not exist. -/
def ensure (k : Kind) (n : NamespacedName) (missing : Action (Except GoError Unit)) :
    Action (Except GoError Unit) := do
  match ← Client.get k n with
  | .error .notFound => missing
  | .error e => return .error (.api e)
  | .ok _ => return .ok ()

/-- Create an object that does not exist; otherwise write the existing one with its
managed fields set. `created` and `updating` are what the step reports, `failed` how it
returns the error of the lookup. -/
def createOrUpdate {k : Kind} (desired : Object k) (manage : Spec k → Spec k)
    (created : Action Unit) (updating : Object k → Action Unit) (failed : GoError → GoError) :
    Action (Except GoError Unit) := do
  match ← Client.get k desired.key with
  | .error .notFound => createMissing desired created
  | .error e => return .error (failed (.api e))
  | .ok existing =>
    updating existing
    return discard (← Client.update (existing.mapSpec manage))

/-- Run actions in order until one fails. -/
def untilError : List (Action (Except GoError Unit)) → Action (Except GoError Unit)
  | [] => return .ok ()
  | a :: as => do
    match ← a with
    | .error e => return .error e
    | .ok _ => untilError as

/-- Run steps in order until one fails, and wrap its error with the step's name. -/
def runSteps : List (GoString × Action (Except GoError Unit)) → Action (Except GoError Unit)
  | [] => return .ok ()
  | (name, step) :: steps => do
    match ← step with
    | .error e => return .error (.wrapped (lit "reconcile " ++ name) e)
    | .ok _ => runSteps steps

end Athos.Kube
