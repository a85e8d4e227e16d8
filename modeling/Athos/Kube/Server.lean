import Athos.Base.Prog
import Athos.Kube.Store

/-!
# The API server and its clients

Controllers are programs over the requests below. The server keeps one revision per write, rejects
the creation of an existing name and writes based on an older revision, keeps status and desired
part apart, and removes a deleted object with its last finalizer. A write that changes nothing is
not a write. Each request may also fail for reasons outside the server, with the store as it was;
what happens outside a controller is chosen by a schedule of `Ambient` entries, one per request.
Server-side defaulting and field validation are not part of this model.
-/

namespace Athos.Kube

open Base

/-- `apierrors.StatusError` by reason; `other` is any reason the controllers do not test. -/
inductive ApiError where
  | notFound
  | alreadyExists
  | conflict
  | invalid
  | other (message : GoString)
  deriving DecidableEq

/-- A Go `error` value: an API error, a plain message, or one wrapped with `%w`. -/
inductive GoError where
  | api (e : ApiError)
  | message (text : GoString)
  | wrapped (context : GoString) (cause : GoError)
  deriving DecidableEq

/-- Why running a command in a container failed: no client, no executor, or an error on
the stream together with what the command wrote to its standard error. -/
inductive ExecFailure where
  | client (text : GoString)
  | executor (text : GoString)
  | stream (text stderr : GoString)
  deriving DecidableEq

/-- A recorded `corev1.Event`. -/
structure Event where
  object : NamespacedName
  type : GoString
  reason : GoString
  message : GoString
  deriving DecidableEq

/-- What a controller can ask of its surroundings. -/
inductive Op where
  | get (k : Kind) (n : NamespacedName)
  | create (k : Kind) (o : Object k)
  | update (k : Kind) (o : Object k)
  | updateStatus (k : Kind) (o : Object k)
  | now
  | randInt (bound : Nat)
  | exec (namespace_ pod container : GoString) (command : List GoString)
  | event (e : Event)

/-- The answers. -/
abbrev Res : Op → Type
  | .get k _ => Except ApiError (Object k)
  | .create k _ => Except ApiError (Object k)
  | .update k _ => Except ApiError (Object k)
  | .updateStatus k _ => Except ApiError (Object k)
  | .now => Time
  | .randInt _ => Except GoString Nat
  | .exec .. => Except ExecFailure Unit
  | .event _ => Unit

/-- A controller fragment. -/
abbrev Action := Prog Op Res

namespace Client

/-- `client.Get`. -/
def get (k : Kind) (n : NamespacedName) : Action (Except ApiError (Object k)) :=
  .perform (Op.get k n)

/-- `client.Create`. -/
def create {k : Kind} (o : Object k) : Action (Except ApiError (Object k)) :=
  .perform (Op.create k o)

/-- `client.Update`. -/
def update {k : Kind} (o : Object k) : Action (Except ApiError (Object k)) :=
  .perform (Op.update k o)

/-- `client.Status().Update`. -/
def updateStatus {k : Kind} (o : Object k) : Action (Except ApiError (Object k)) :=
  .perform (Op.updateStatus k o)

/-- `metav1.Now`, at the precision that is stored. -/
def now : Action Time := .perform Op.now

/-- `rand.Int`. -/
def randInt (bound : Nat) : Action (Except GoString Nat) := .perform (Op.randInt bound)

/-- A command in a container, through the exec subresource. -/
def exec (namespace_ pod container : GoString) (command : List GoString) :
    Action (Except ExecFailure Unit) :=
  .perform (Op.exec namespace_ pod container command)

/-- `record.EventRecorder.Eventf`. -/
def event (e : Event) : Action Unit := .perform (Op.event e)

end Client

/-- Everything a controller can observe. -/
@[ext]
structure World where
  objects : Store
  revision : Nat
  clock : Time
  events : List Event

/-- Kinds whose desired part has its own version number. -/
def tracksGeneration : Kind → Bool
  | .serviceAccount | .secret | .configMap | .service => false
  | _ => true

/-- Write-only fields are folded into the stored ones. -/
def normalize : (k : Kind) → Spec k → Spec k
  | .secret, s => { s with data := s.data.insertMany s.stringData.toList, stringData := ∅ }
  | .postgresCluster, s | .postgresUser, s | .postgresBackup, s | .serviceAccount, s
  | .configMap, s | .statefulSet, s | .service, s | .podDisruptionBudget, s
  | .deployment, s | .job, s => s

/-- The identifier the server gives to the object created at a revision. -/
def uidAt (revision : Nat) : GoString := lit "uid-" ++ decimalNat revision

/-- An object with the revision of the write that stores it. -/
def Object.stamp {k : Kind} (o : Object k) (revision : Nat) : Object k :=
  { o with metadata := { o.metadata with resourceVersion := revision } }

/-- A creation request as it is stored: identity and revision are the server's, the
status starts empty. -/
def Object.created {k : Kind} (o : Object k) (revision : Nat) : Object k where
  metadata := { o.metadata with
    uid := uidAt revision
    resourceVersion := revision
    generation := if tracksGeneration k then 1 else 0
    deletionTimestamp := none }
  spec := normalize k o.spec
  status := Status.zero k

/-- An update request merged into the stored object, before it gets a revision. -/
def Object.merged {k : Kind} (cur o : Object k) : Object k where
  metadata := { o.metadata with
    uid := cur.metadata.uid
    resourceVersion := cur.metadata.resourceVersion
    generation :=
      if tracksGeneration k && decide (normalize k o.spec ≠ cur.spec)
      then cur.metadata.generation + 1 else cur.metadata.generation
    deletionTimestamp := cur.metadata.deletionTimestamp }
  spec := normalize k o.spec
  status := cur.status

namespace World

variable {k : Kind}

/-- Time passes. -/
def advance (w : World) (elapsed : Nat) : World := { w with clock := w.clock + elapsed }

/-- The stored object, or the error of a failed lookup. -/
def read (w : World) (k : Kind) (n : NamespacedName) : Except ApiError (Object k) :=
  (w.objects.get k n).elim (.error .notFound) .ok

/-- Store the next version of an object at a new revision; a deleted object without
finalizers is removed, and an unchanged one is not written. -/
def commit (w : World) (cur next : Object k) : Except ApiError (Object k) × World :=
  if next = cur then (.ok cur, w)
  else if h : (next.stamp (w.revision + 1)).metadata.Pinned then
    (.ok (next.stamp (w.revision + 1)),
      { w with
        objects := w.objects.put (next.stamp (w.revision + 1)) h
        revision := w.revision + 1 })
  else
    (.ok (next.stamp (w.revision + 1)),
      { w with objects := w.objects.erase k next.key, revision := w.revision + 1 })

/-- Created objects are pinned. -/
theorem created_pinned (o : Object k) (revision : Nat) : (o.created revision).metadata.Pinned := by
  intro h
  cases h

/-- A creation. -/
def create (w : World) (o : Object k) : Except ApiError (Object k) × World :=
  match w.objects.get k o.key with
  | some _ => (.error .alreadyExists, w)
  | none =>
    (.ok (o.created (w.revision + 1)),
      { w with
        objects := w.objects.put (o.created (w.revision + 1)) (created_pinned o _)
        revision := w.revision + 1 })

/-- An update of everything but the status. -/
def update (w : World) (o : Object k) : Except ApiError (Object k) × World :=
  match w.objects.get k o.key with
  | none => (.error .notFound, w)
  | some cur =>
    if o.metadata.resourceVersion ≠ cur.metadata.resourceVersion then (.error .conflict, w)
    -- No new finalizers on an object that is being deleted.
    else if cur.metadata.deletionTimestamp.isSome ∧
        ¬ o.metadata.finalizers ⊆ cur.metadata.finalizers then (.error .invalid, w)
    else w.commit cur (cur.merged o)

/-- An update of the status only. -/
def updateStatus (w : World) (o : Object k) : Except ApiError (Object k) × World :=
  match w.objects.get k o.key with
  | none => (.error .notFound, w)
  | some cur =>
    if o.metadata.resourceVersion ≠ cur.metadata.resourceVersion then (.error .conflict, w)
    else w.commit cur { cur with status := o.status }

end World

/-- What happens outside at one request: whether it fails before it reaches the store, how
much time passes, and what randomness returns. -/
structure Ambient where
  fault : Option ApiError := none
  execFault : Option ExecFailure := none
  entropyFault : Option GoString := none
  elapsed : Nat := 0
  random : Nat := 0
  deriving DecidableEq

instance : Inhabited Ambient := ⟨{}⟩

/-- Nothing fails. -/
def Ambient.Clean (a : Ambient) : Prop :=
  a.fault = none ∧ a.execFault = none ∧ a.entropyFault = none

instance (a : Ambient) : Decidable a.Clean := inferInstanceAs (Decidable (_ ∧ _))

/-- An API request that fails on a fault, with the store as it was. -/
def Ambient.guard {α : Type} (a : Ambient) (f : World → Except ApiError α × World) (w : World) :
    Except ApiError α × World :=
  match a.fault with
  | some e => (.error e, w)
  | none => f w

/-- Serve one request. -/
def serve (a : Ambient) : (op : Op) → World → Res op × World
  | .get k n, w => a.guard (fun w => (w.read k n, w)) (w.advance a.elapsed)
  | .create _ o, w => a.guard (·.create o) (w.advance a.elapsed)
  | .update _ o, w => a.guard (·.update o) (w.advance a.elapsed)
  | .updateStatus _ o, w => a.guard (·.updateStatus o) (w.advance a.elapsed)
  | .now, w => (w.clock + a.elapsed, w.advance a.elapsed)
  | .randInt bound, w =>
    ((match a.entropyFault with
      | some e => .error e
      | none => .ok (a.random % bound)), w.advance a.elapsed)
  | .exec .., w =>
    ((match a.execFault with
      | some e => .error e
      | none => .ok ()), w.advance a.elapsed)
  | .event e, w => ((), { w.advance a.elapsed with events := w.events ++ [e] })

end Athos.Kube
