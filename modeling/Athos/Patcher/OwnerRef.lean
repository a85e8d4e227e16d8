import Athos.Kube.Controller

/-!
# Owner references

`EnsureOwnerRef` of `src/internal/patcher/patcher.go` and `Controller` of
`src/internal/owner/owner.go`. The first looks for any reference with the owner's UID, whether it
controls or not, and never looks for another controller.
-/

namespace Athos.Patcher

open Base Kube List

/-- `schema.GroupVersionKind`. -/
structure GroupVersionKind where
  group : GoString
  version : GoString
  kind : GoString
  deriving DecidableEq

/-- `GroupVersion().String()`. -/
def GroupVersionKind.apiVersion (gvk : GroupVersionKind) : GoString :=
  if gvk.group ≠ [] then gvk.group ++ lit "/" ++ gvk.version else gvk.version

/-- What the scheme has for an owner, unless that is no `runtime.Object`. -/
abbrev ObjectKinds := Option (Except GoError (List GroupVersionKind))

/-- `setOwnerReference`; `patcher.go:104-123`. -/
def setOwnerReference (obj owner : ObjectMeta) (gvk : GroupVersionKind) :
    Except GoError Unit × ObjectMeta :=
  let ref := (Owner.mk gvk.apiVersion gvk.kind owner).reference
  if obj.ownerReferences.any (·.uid == ref.uid) then (.ok (), obj)
  else (.ok (), { obj with ownerReferences := obj.ownerReferences ++ [ref] })

/-- `EnsureOwnerRef`: the error, and the object as the call leaves it; `patcher.go:85-102`. -/
def ensureOwnerRef (obj owner : ObjectMeta) : ObjectKinds → Except GoError Unit × ObjectMeta
  | none => (.error (.message (lit "owner does not implement runtime.Object")), obj)
  | some (.error err) => (.error (.wrapped (lit "resolve GVK for owner") err), obj)
  | some (.ok []) => (.error (.message (lit "no GVK found for owner type")), obj)
  | some (.ok (gvk :: _)) => setOwnerReference obj owner gvk

/-- The reference is that of a controller. -/
def controls (r : OwnerReference) : Bool := r.controller == some true

/-- `Controller`; `owner.go:87-95`. -/
def controller (refs : List OwnerReference) : Option OwnerReference := refs.find? controls

/-- The references of an object that an owner has come to control. -/
structure Controlled (owner : ObjectMeta) (before after : List OwnerReference) : Prop where
  exactly_one : after.countP controls = 1
  owner_uid : ∀ r ∈ after, controls r = true → r.uid = owner.uid
  distinct : (before.map (·.uid)).Nodup → (after.map (·.uid)).Nodup
  /-- The reference is new, or takes the place of another one to the owner. -/
  others : ∃ pre ref post, controls ref = true ∧ after = pre ++ ref :: post ∧
    (before = pre ++ post ∨ ∃ old, old.uid = owner.uid ∧ before = pre ++ old :: post)

/-- The outcome of a call: the object is controlled, or there is an error and it is as before. -/
def Settled (owner obj : ObjectMeta) (result : Except GoError Unit × ObjectMeta) : Prop :=
  match result.1 with
  | .ok () => Controlled owner obj.ownerReferences result.2.ownerReferences
  | .error _ => result.2.ownerReferences = obj.ownerReferences

/-- The scheme knows a kind of the owner. -/
def Resolves (kinds : ObjectKinds) : Prop := ∃ gvk gvks, kinds = some (.ok (gvk :: gvks))

section

variable {owner obj : ObjectMeta} {refs : List OwnerReference} {ref : OwnerReference}

private theorem owner_uid_of_countP_le (hone : refs.countP controls ≤ 1) (href : ref ∈ refs)
    (hcontrols : controls ref = true) (huid : ref.uid = owner.uid) :
    ∀ r ∈ refs, controls r = true → r.uid = owner.uid := by
  intro r hr hr'
  -- Both are in the list of those that control, which has one element.
  rw [countP_eq_length_filter] at hone
  have hmem : ref ∈ refs.filter controls := mem_filter.2 ⟨href, hcontrols⟩
  have hmem' : r ∈ refs.filter controls := mem_filter.2 ⟨hr, hr'⟩
  obtain ⟨a, ha⟩ := length_eq_one_iff.1
    (le_antisymm hone (length_pos_of_mem hmem))
  rw [ha, mem_singleton] at hmem hmem'
  rw [hmem', ← hmem, huid]

private theorem controlled_self_iff (hone : refs.countP controls ≤ 1) :
    Controlled owner refs refs ↔ ∃ r ∈ refs, controls r = true ∧ r.uid = owner.uid := by
  constructor
  · intro h
    obtain ⟨r, hr, hcontrols⟩ := countP_pos_iff.1 (by rw [h.exactly_one]; decide)
    exact ⟨r, hr, hcontrols, h.owner_uid r hr hcontrols⟩
  · rintro ⟨r, hr, hcontrols, huid⟩
    obtain ⟨pre, post, hsplit⟩ := append_of_mem hr
    exact
      { exactly_one := le_antisymm hone (countP_pos_iff.2 ⟨r, hr, hcontrols⟩)
        owner_uid := owner_uid_of_countP_le hone hr hcontrols huid
        distinct := id
        others := ⟨pre, r, post, hcontrols, hsplit, .inr ⟨r, huid, hsplit⟩⟩ }

private theorem controlled_append_iff (hcontrols : controls ref = true) (huid : ref.uid = owner.uid)
    (hnone : ∀ r ∈ refs, r.uid ≠ owner.uid) :
    Controlled owner refs (refs ++ [ref]) ↔ ∀ r ∈ refs, controls r = false := by
  constructor
  · intro h r hr
    by_contra htrue
    exact hnone r hr (h.owner_uid r (mem_append_left _ hr) (by simpa using htrue))
  · intro hall
    refine
      { exactly_one := ?_
        owner_uid := ?_
        distinct := ?_
        others := ⟨refs, ref, [], hcontrols, rfl, .inl (append_nil refs).symm⟩ }
    · rw [List.countP_append, List.countP_eq_zero.2 fun r hr => by simp [hall r hr]]
      simp [hcontrols]
    · intro r hr hr'
      rcases mem_append.1 hr with hr | hr
      · rw [hall r hr] at hr'
        cases hr'
      · rw [mem_singleton.1 hr, huid]
    · intro hnodup
      rw [map_append, nodup_append]
      refine ⟨hnodup, by simp, ?_⟩
      intro uid hmem uid' hmem'
      obtain ⟨r, hr, rfl⟩ := mem_map.1 hmem
      obtain rfl : uid' = ref.uid := by simpa using hmem'
      rw [huid]
      exact hnone r hr

private theorem settled_setOwnerReference_iff (gvk : GroupVersionKind)
    (hone : obj.ownerReferences.countP controls ≤ 1) :
    Settled owner obj (setOwnerReference obj owner gvk) ↔
      (∃ r ∈ obj.ownerReferences, controls r = true ∧ r.uid = owner.uid) ∨
        ∀ r ∈ obj.ownerReferences, controls r = false ∧ r.uid ≠ owner.uid := by
  by_cases hany : ∃ r ∈ obj.ownerReferences, r.uid = owner.uid
  · have hset : setOwnerReference obj owner gvk = (.ok (), obj) :=
      if_pos (by simpa [Owner.reference] using hany)
    rw [hset, Settled, controlled_self_iff hone, or_iff_left]
    obtain ⟨r, hr, huid⟩ := hany
    exact fun hall => (hall r hr).2 huid
  · simp only [not_exists, not_and] at hany
    have hset : setOwnerReference obj owner gvk = (.ok (), { obj with
        ownerReferences := obj.ownerReferences ++
          [(Owner.mk gvk.apiVersion gvk.kind owner).reference] }) :=
      if_neg (by simpa [Owner.reference] using hany)
    rw [hset, Settled, controlled_append_iff rfl rfl hany, or_iff_right]
    · exact forall₂_congr fun r hr => (and_iff_left (hany r hr)).symm
    · rintro ⟨r, hr, -, huid⟩
      exact hany r hr huid

variable (obj owner) in
/-- A call does its work when the owner controls the object already, or nobody does and no
reference is to the owner. -/
theorem ensureOwnerRef_settled_iff (kinds : ObjectKinds)
    (hone : obj.ownerReferences.countP controls ≤ 1) :
    Settled owner obj (ensureOwnerRef obj owner kinds) ↔
      ¬ Resolves kinds ∨
        (∃ r ∈ obj.ownerReferences, controls r = true ∧ r.uid = owner.uid) ∨
        ∀ r ∈ obj.ownerReferences, controls r = false ∧ r.uid ≠ owner.uid := by
  match kinds with
  | none => simp [ensureOwnerRef, Settled, Resolves]
  | some (.error err) => simp [ensureOwnerRef, Settled, Resolves]
  | some (.ok []) => simp [ensureOwnerRef, Settled, Resolves]
  | some (.ok (gvk :: gvks)) =>
    have hresolves : Resolves (some (.ok (gvk :: gvks))) := ⟨gvk, gvks, rfl⟩
    rw [ensureOwnerRef, settled_setOwnerReference_iff gvk hone, or_iff_right (not_not.2 hresolves)]

/-- An object with the given references. -/
def ownedObject (refs : List OwnerReference) : ObjectMeta where
  name := lit "main-config"
  namespace_ := lit "db"
  ownerReferences := refs

/-- The owner in the examples. -/
def sampleOwner : ObjectMeta where
  name := lit "main"
  namespace_ := lit "db"
  uid := lit "u1"

/-- The kind of the owner. -/
def sampleKind : GroupVersionKind := ⟨lit "pg.athos.io", lit "v1alpha1", lit "PostgresCluster"⟩

/-- A reference to an owner with the given identifier. -/
def sampleRef (uid : GoString) (controller : Option Bool) : OwnerReference where
  apiVersion := lit "v1"
  kind := lit "ConfigMap"
  name := lit "main"
  uid := uid
  controller := controller
  blockOwnerDeletion := none

/-- The one reference to another owner does not control. -/
theorem first_reference_settled :
    (ownedObject [sampleRef (lit "u2") none]).ownerReferences.countP controls ≤ 1 ∧
      Settled sampleOwner (ownedObject [sampleRef (lit "u2") none])
        (ensureOwnerRef (ownedObject [sampleRef (lit "u2") none]) sampleOwner
          (some (.ok [sampleKind]))) :=
  ⟨by decide, (ensureOwnerRef_settled_iff _ _ _ (by decide)).2 (.inr (.inr (by decide)))⟩

/-- Without an error an object is left without controller, or gets a second one. -/
theorem ensureOwnerRef_miscounts :
    let plain := ensureOwnerRef (ownedObject [sampleRef (lit "u1") none]) sampleOwner
      (some (.ok [sampleKind]))
    let taken := ensureOwnerRef (ownedObject [sampleRef (lit "u2") (some true)]) sampleOwner
      (some (.ok [sampleKind]))
    plain.1 = .ok () ∧ controller plain.2.ownerReferences = none ∧
      taken.1 = .ok () ∧ taken.2.ownerReferences.countP controls = 2 ∧
      (controller taken.2.ownerReferences).map (·.uid) = some (lit "u2") := by
  decide

end

end Athos.Patcher
