import Athos.Base.Decimal
import Athos.Base.Sorting
import Mathlib.Data.List.Perm.Subperm
import Std.Data.ExtTreeMap

/-!
# Go maps with string keys

`range` visits each key of a map once, in an order of its own choice; the order is a parameter.
`sort.Strings` leaves no choice: byte order is total, so every permutation of a list is sorted to
the same list, and the keys of a map to the order the tree map keeps.
-/

namespace Athos.Base

open List Std.ExtTreeMap

/-- A Go `map[string]α`. -/
abbrev GoMap (α : Type) := Std.ExtTreeMap GoString α

/-- `sort.Strings`. -/
def sortStrings (S : SliceSort) (xs : List GoString) : List GoString := S.sort less xs

/-- An order in which `range` may visit the keys of a map. -/
def Ranges {α : Type} (m : GoMap α) (keys : List GoString) : Prop := keys.Perm m.keys

instance {α : Type} (m : GoMap α) (keys : List GoString) : Decidable (Ranges m keys) :=
  inferInstanceAs (Decidable (List.Perm _ _))

/-- `range` visits the keys of the map. -/
theorem Ranges.mem_iff {α : Type} {m : GoMap α} {keys : List GoString} (h : Ranges m keys)
    {k : GoString} : k ∈ keys ↔ k ∈ m := (List.Perm.mem_iff h).trans Std.ExtTreeMap.mem_keys

/-- A map that has all entries of another map of its size is that map. -/
theorem eq_of_size_eq {α : Type} {m m' : GoMap α} (hsize : m.size = m'.size)
    (h : ∀ (k : GoString) v, m[k]? = some v → m'[k]? = some v) : m = m' := by
  have hkeys : m.keys ⊆ m'.keys := by
    intro k hk
    rw [Std.ExtTreeMap.mem_keys, mem_iff_isSome_getElem?] at hk ⊢
    obtain ⟨v, hv⟩ := Option.isSome_iff_exists.1 hk
    rw [h k v hv]
    rfl
  have hperm : m.keys.Perm m'.keys := by
    apply (subperm_of_subset nodup_keys hkeys).perm_of_length_le
    rw [length_keys, length_keys, hsize]
  apply Std.ExtTreeMap.ext_getElem?
  intro k
  cases hv : m[k]? with
  | some v => exact (h k v hv).symm
  | none =>
    have hk : k ∉ m.keys := by
      rw [Std.ExtTreeMap.mem_keys, mem_iff_isSome_getElem?, hv]
      exact Bool.false_ne_true
    rw [hperm.mem_iff, Std.ExtTreeMap.mem_keys] at hk
    exact (Std.ExtTreeMap.getElem?_eq_none hk).symm

/-- Reading a key that is missing gives the empty text. -/
theorem getD_nil_eq_iff {m : GoMap GoString} {k v : GoString} :
    m.getD k [] = v ↔ m[k]? = some v ∨ m[k]? = none ∧ v = [] := by
  rw [getD_eq_getD_getElem?]
  cases m[k]? <;> simp [eq_comm]

/-- The sizes of two maps differ, or the second has another value at a key of the first. A missing
key reads as the empty string. -/
def valuesChanged (old new : GoMap GoString) : Bool :=
  old.size != new.size || old.toList.any fun (k, v) => new.getD k [] != v

/-- The desired map has as many keys as the stored one and agrees with it, except that it
lacks some keys whose stored value is empty. -/
def SwapsEmptyKeys (stored desired : GoMap GoString) : Prop :=
  stored.size = desired.size ∧
    (∀ (k : GoString) v, stored[k]? = some v → desired[k]? = some v ∨ desired[k]? = none ∧ v = []) ∧
    ∃ k : GoString, stored[k]? = some [] ∧ desired[k]? = none

/-- Such maps differ. -/
theorem SwapsEmptyKeys.ne {stored desired : GoMap GoString} (h : SwapsEmptyKeys stored desired) :
    stored ≠ desired := by
  rintro rfl
  obtain ⟨-, -, k, hsome, hnone⟩ := h
  rw [hsome] at hnone
  cases hnone

/-- The comparison finds every difference but this one. -/
theorem valuesChanged_eq_false_iff {old new : GoMap GoString} :
    valuesChanged old new = false ↔ old = new ∨ SwapsEmptyKeys old new := by
  have hiff : valuesChanged old new = false ↔ old.size = new.size ∧
      ∀ (k : GoString) v, old[k]? = some v → new[k]? = some v ∨ new[k]? = none ∧ v = [] := by
    simp only [valuesChanged, Bool.or_eq_false_iff, bne_eq_false_iff_eq, any_eq_false, Prod.forall,
      mem_toList_iff_getElem?_eq_some, bne_iff_ne, ne_eq, not_not, getD_nil_eq_iff]
  rw [hiff]
  constructor
  · rintro ⟨hsize, hentries⟩
    by_cases hswap : ∃ k : GoString, old[k]? = some [] ∧ new[k]? = none
    · exact .inr ⟨hsize, hentries, hswap⟩
    · left
      apply eq_of_size_eq hsize
      intro k v hv
      rcases hentries k v hv with hsome | ⟨hnone, rfl⟩
      · exact hsome
      · exact absurd ⟨k, hv, hnone⟩ hswap
  · rintro (rfl | ⟨hsize, hentries, -⟩)
    · exact ⟨rfl, fun k v hv => .inl hv⟩
    · exact ⟨hsize, hentries⟩

/-- Byte order is the order of the keys of a tree map. -/
theorem less_iff_compare (s t : GoString) : less s t = true ↔ compare s t = .lt := by
  induction s generalizing t with
  | nil => cases t <;> simp [less, compare, List.compareLex]
  | cons b s ih =>
    cases t with
    | nil => simp [less, compare, List.compareLex]
    | cons c t =>
      have hcons : compare (b :: s) (c :: t) = (compare b c).then (compare s t) :=
        List.compareLex_cons_cons
      rw [hcons, Ordering.then_eq_lt, ← ih, Std.LawfulEqOrd.compare_eq_iff_eq, less]
      simp [compare, compareOfLessAndEq_eq_lt]

/-- Byte order can be sorted by. -/
theorem strictWeak_less : StrictWeak less where
  asymm s t h := by
    rw [less_iff_compare, ← Std.OrientedCmp.gt_iff_lt] at h
    rw [Bool.eq_false_iff, Ne, less_iff_compare, h]
    decide
  trans s t u hst htu := by
    rw [Bool.eq_false_iff, Ne, less_iff_compare, ← Std.OrientedCmp.gt_iff_lt,
      Ordering.ne_gt_iff_isLE] at hst htu ⊢
    exact Std.TransCmp.isLE_trans hst htu

/-- The result of `sort.Strings` depends neither on the algorithm nor on the order of its
argument. -/
theorem sortStrings_eq_of_perm (S S' : SliceSort) {xs ys : List GoString} (h : xs.Perm ys) :
    sortStrings S xs = sortStrings S' ys := by
  have hperm : (sortStrings S xs).Perm (sortStrings S' ys) :=
    (S.perm less xs).trans (h.trans (S'.perm less ys).symm)
  apply List.Perm.eq_of_pairwise _ (S.sorted strictWeak_less xs) (S'.sorted strictWeak_less ys)
    hperm
  intro s t _ _ hst hts
  exact eq_of_not_less hts hst

/-- The keys of a map come in one order from `sort.Strings`, that of the tree map. -/
theorem Ranges.sortStrings {α : Type} {m : GoMap α} {keys : List GoString} (h : Ranges m keys)
    (S : SliceSort) : sortStrings S keys = m.keys := by
  have hperm : (Base.sortStrings S keys).Perm m.keys := (S.perm less keys).trans h
  have hsorted : m.keys.Pairwise fun s t => less t s = false := by
    apply ordered_keys.imp
    intro s t hst
    exact strictWeak_less.asymm s t ((less_iff_compare s t).2 hst)
  apply List.Perm.eq_of_pairwise _ (S.sorted strictWeak_less keys) hsorted hperm
  intro s t _ _ hst hts
  exact eq_of_not_less hts hst

section Entries

variable {α : Type} {es fs : List (GoString × α)} {m : GoMap α} {k : GoString} {v : α}

/-- The map of a list of entries; later ones replace earlier ones. -/
def collect (es : List (GoString × α)) : GoMap α := es.foldl (fun m e => m.insert e.1 e.2) ∅

private theorem getElem?_foldl_insert
    (h : (es.foldl (fun m e => m.insert e.1 e.2) m)[k]? = some v) :
    (k, v) ∈ es ∨ m[k]? = some v := by
  induction es generalizing m with
  | nil => exact .inr h
  | cons e es ih =>
    rcases ih h with hmem | hm
    · exact .inl (mem_cons_of_mem e hmem)
    · rw [Std.ExtTreeMap.getElem?_insert] at hm
      split at hm
      · next hk =>
        obtain rfl := Std.LawfulEqOrd.eq_of_compare hk
        obtain rfl := Option.some.inj hm
        exact .inl mem_cons_self
      · exact .inr hm

/-- What a map has collected stands in the list. -/
theorem mem_of_getElem?_collect (h : (collect es)[k]? = some v) : (k, v) ∈ es := by
  rcases getElem?_foldl_insert h with hmem | hempty
  · exact hmem
  · rw [getElem?_empty] at hempty
    cases hempty

/-- Keys that are not listed keep their values. -/
theorem getElem?_foldl_of_not_mem (h : k ∉ es.map Prod.fst) (m : GoMap α) :
    (es.foldl (fun m e => m.insert e.1 e.2) m)[k]? = m[k]? := by
  induction es generalizing m with
  | nil => rfl
  | cons e es ih =>
    rw [map_cons, mem_cons, not_or] at h
    rw [foldl_cons, ih h.2, Std.ExtTreeMap.getElem?_insert, if_neg]
    exact fun hk => h.1 (Std.LawfulEqOrd.eq_of_compare hk).symm

/-- Where no key is listed twice every entry counts. -/
theorem getElem?_foldl_of_mem (hnodup : (es.map Prod.fst).Nodup) (h : (k, v) ∈ es) (m : GoMap α) :
    (es.foldl (fun m e => m.insert e.1 e.2) m)[k]? = some v := by
  induction es generalizing m with
  | nil => cases h
  | cons e es ih =>
    rw [map_cons, nodup_cons] at hnodup
    rcases mem_cons.1 h with rfl | h
    · rw [foldl_cons, getElem?_foldl_of_not_mem hnodup.1, getElem?_insert_self]
    · exact ih hnodup.2 h _

/-- A list without repeated keys is collected to a map with all its entries. -/
theorem getElem?_collect (hnodup : (es.map Prod.fst).Nodup) (h : (k, v) ∈ es) :
    (collect es)[k]? = some v := getElem?_foldl_of_mem hnodup h ∅

/-- A list without repeated keys is part of any list that is collected to the same map. -/
theorem subperm_of_collect_eq (hnodup : (es.map Prod.fst).Nodup) (h : collect fs = collect es) :
    es.Subperm fs := by
  apply subperm_of_subset (List.Nodup.of_map Prod.fst hnodup)
  intro e he
  have hcollected := getElem?_collect hnodup (k := e.1) (v := e.2) he
  rw [← h] at hcollected
  exact mem_of_getElem?_collect hcollected

/-- A part of a list weighs no more than the list. -/
theorem sum_le_of_subperm {β : Type} {xs ys : List β} (h : xs.Subperm ys) (w : β → Nat) :
    (xs.map w).sum ≤ (ys.map w).sum := by
  obtain ⟨l, hperm, hsub⟩ := h
  obtain ⟨l', hl'⟩ := hsub.exists_perm_append
  have hxs := (hperm.map w).sum_nat
  have hys := (hl'.map w).sum_nat
  rw [map_append, sum_append_nat] at hys
  omega

end Entries

section Listing

variable {m : GoMap GoString} {keys : List GoString}

/-- The entries of a map in a given order of its keys. -/
def listing (m : GoMap GoString) (keys : List GoString) : List (GoString × GoString) :=
  keys.map fun k => (k, m.getD k [])

/-- A listing has the entries of the map. -/
theorem mem_listing (h : Ranges m keys) {e : GoString × GoString} :
    e ∈ listing m keys ↔ m[e.1]? = some e.2 := by
  rw [listing, List.mem_map]
  constructor
  · rintro ⟨k, hk, rfl⟩
    have hsome := mem_iff_isSome_getElem?.1 (h.mem_iff.1 hk)
    obtain ⟨v, hv⟩ := Option.isSome_iff_exists.1 hsome
    rw [getD_eq_getD_getElem?, hv, Option.getD_some]
  · intro he
    have hmem : e.1 ∈ m := mem_iff_isSome_getElem?.2 (by rw [he]; rfl)
    refine ⟨e.1, h.mem_iff.2 hmem, ?_⟩
    rw [getD_eq_getD_getElem?, he]
    rfl

private theorem nodup_listing (h : Ranges m keys) : ((listing m keys).map Prod.fst).Nodup := by
  rw [listing, List.map_map]
  exact (List.map_id keys).symm ▸ (List.Perm.nodup_iff h).2 nodup_keys

/-- The entries of a map in any order are collected to it. -/
theorem collect_listing (h : Ranges m keys) : collect (listing m keys) = m := by
  apply Std.ExtTreeMap.ext_getElem?
  intro k
  cases hk : m[k]? with
  | none =>
    by_contra hc
    obtain ⟨v, hv⟩ := Option.ne_none_iff_exists'.1 hc
    have hmem := (mem_listing h).1 (mem_of_getElem?_collect hv)
    rw [hk] at hmem
    cases hmem
  | some v => exact getElem?_collect (nodup_listing h) ((mem_listing h (e := (k, v))).2 hk)

/-- The entries of a map are part of any list that is collected to it. -/
theorem subperm_listing (h : Ranges m keys) {es : List (GoString × GoString)}
    (hes : collect es = m) : (listing m keys).Subperm es :=
  subperm_of_collect_eq (nodup_listing h) (hes.trans (collect_listing h).symm)

end Listing

end Athos.Base
