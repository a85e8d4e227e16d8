import Athos.Kube.Object

/-!
# API objects in storage

A store maps kind and key to an object. It can only hold an object under its own key, and an object
whose deletion was requested only while some finalizer pins it: the server removes it together with
the last finalizer.
-/

namespace Athos.Kube

open Base

/-- Metadata that storage can hold: deletion without finalizers is immediate. -/
def ObjectMeta.Pinned (m : ObjectMeta) : Prop :=
  m.deletionTimestamp.isSome = true → m.finalizers ≠ []

instance (m : ObjectMeta) : Decidable m.Pinned :=
  inferInstanceAs (Decidable (_ → _))

/-- The objects the API server holds. -/
@[ext]
structure Store where
  get : (k : Kind) → NamespacedName → Option (Object k)
  keyed : ∀ {k n o}, get k n = some o → o.key = n
  pinned : ∀ {k n o}, get k n = some o → o.metadata.Pinned

namespace Store

variable {k k' : Kind} {n n' : NamespacedName} {o : Object k}

/-- The store of a new cluster. -/
def empty : Store where
  get _ _ := none
  keyed h := by cases h
  pinned h := by cases h

/-- Overwrite one entry. -/
def set (get : (k : Kind) → NamespacedName → Option (Object k)) (k : Kind) (n : NamespacedName)
    (v : Option (Object k)) : (k : Kind) → NamespacedName → Option (Object k) :=
  Function.update get k (Function.update (get k) n v)

private theorem set_self (get : (k : Kind) → NamespacedName → Option (Object k)) (k : Kind)
    (n : NamespacedName) (v : Option (Object k)) : set get k n v k n = v := by
  rw [set, Function.update_self, Function.update_self]

private theorem set_of_ne {get : (k : Kind) → NamespacedName → Option (Object k)}
    {v : Option (Object k)} (h : (k', n') ≠ (k, n)) : set get k n v k' n' = get k' n' := by
  by_cases hk : k' = k
  · subst hk
    have hn : n' ≠ n := fun he => h (by rw [he])
    rw [set, Function.update_self, Function.update_of_ne hn]
  · rw [set, Function.update_of_ne hk]

/-- Store an object under its key. -/
def put (s : Store) (o : Object k) (h : o.metadata.Pinned) : Store where
  get := set s.get k o.key (some o)
  keyed {k' n' o'} hg := by
    by_cases he : (k', n') = (k, o.key)
    · cases he
      rw [set_self, Option.some.injEq] at hg
      rw [← hg]
    · rw [set_of_ne he] at hg
      exact s.keyed hg
  pinned {k' n' o'} hg := by
    by_cases he : (k', n') = (k, o.key)
    · cases he
      rw [set_self, Option.some.injEq] at hg
      rw [← hg]
      exact h
    · rw [set_of_ne he] at hg
      exact s.pinned hg

/-- Remove the object under a key. -/
def erase (s : Store) (k : Kind) (n : NamespacedName) : Store where
  get := set s.get k n none
  keyed {k' n' o'} hg := by
    by_cases he : (k', n') = (k, n)
    · cases he
      rw [set_self] at hg
      cases hg
    · rw [set_of_ne he] at hg
      exact s.keyed hg
  pinned {k' n' o'} hg := by
    by_cases he : (k', n') = (k, n)
    · cases he
      rw [set_self] at hg
      cases hg
    · rw [set_of_ne he] at hg
      exact s.pinned hg

/-- A stored object can be read. -/
@[simp] theorem get_put_self (s : Store) (h : o.metadata.Pinned) :
    (s.put o h).get k o.key = some o := set_self ..

/-- Storing one object leaves the others. -/
theorem get_put_of_ne (s : Store) (h : o.metadata.Pinned) (hne : (k', n') ≠ (k, o.key)) :
    (s.put o h).get k' n' = s.get k' n' := set_of_ne hne

/-- An erased object is gone. -/
@[simp] theorem get_erase_self (s : Store) (k : Kind) (n : NamespacedName) :
    (s.erase k n).get k n = none := set_self ..

/-- Erasing one object leaves the others. -/
theorem get_erase_of_ne (s : Store) (hne : (k', n') ≠ (k, n)) :
    (s.erase k n).get k' n' = s.get k' n' := set_of_ne hne

end Store
end Athos.Kube
