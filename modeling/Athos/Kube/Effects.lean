import Athos.Kube.Controller

/-!
# What writes do to the store

The outcome of each write as an equation about the entry it concerns and a frame for all others.
-/

namespace Athos.Kube

open Base

variable {k : Kind}

/-- An object with other version numbers. -/
def Object.versioned (o : Object k) (v : Nat) (g : Int) : Object k :=
  { o with metadata := { o.metadata with resourceVersion := v, generation := g } }

/-- An object with another status, at another revision. -/
def Object.withStatus (o : Object k) (st : Status k) (v : Nat) : Object k :=
  { o with status := st, metadata := { o.metadata with resourceVersion := v } }

/-- All entries but one agree. -/
def Store.SameExcept (s s' : Store) (k : Kind) (n : NamespacedName) : Prop :=
  ∀ k' n', (k', n') ≠ (k, n) → s'.get k' n' = s.get k' n'

/-- Only Secrets are stored otherwise than they are sent. -/
theorem normalize_of_ne_secret (hk : k ≠ .secret) (sp : Spec k) : normalize k sp = sp := by
  cases k <;> first | rfl | exact absurd rfl hk

namespace World

variable {w : World} {cur o : Object k} {n : NamespacedName}

/-- A stored object is read as it is. -/
theorem read_of_some (h : w.objects.get k n = some o) : w.read k n = .ok o := by
  rw [read, h, Option.elim_some]

/-- What is not stored is not found. -/
theorem read_of_none (h : w.objects.get k n = none) : w.read k n = .error .notFound := by
  rw [read, h, Option.elim_none]

/-- What is stored is not created again. -/
theorem create_of_some (h : w.objects.get k o.key = some cur) :
    w.create o = (.error .alreadyExists, w) := by
  rw [create, h]

/-- A new object is stored with its metadata filled in. -/
theorem create_of_none (h : w.objects.get k o.key = none) :
    w.create o = (.ok (o.created (w.revision + 1)),
      { w with
        objects := w.objects.put (o.created (w.revision + 1)) (created_pinned o _)
        revision := w.revision + 1 }) := by
  rw [create, h]

/-- A creation concerns one entry. -/
theorem create_sameExcept (w : World) (o : Object k) :
    w.objects.SameExcept (w.create o).2.objects k o.key := by
  intro k' n' hne
  cases h : w.objects.get k o.key with
  | some cur => rw [create_of_some h]
  | none =>
    rw [create_of_none h]
    exact Store.get_put_of_ne _ (created_pinned o _) hne

/-- A commit of an object with the stored name and a legal deletion state stores it. -/
theorem commit_spec (next : Object k) (hget : w.objects.get k cur.key = some cur)
    (hkey : next.key = cur.key) (hpin : next.metadata.Pinned) :
    ∃ v, (w.commit cur next).1 = .ok (next.versioned v next.metadata.generation) ∧
      (w.commit cur next).2.objects.get k cur.key =
        some (next.versioned v next.metadata.generation) ∧
      w.objects.SameExcept (w.commit cur next).2.objects k cur.key ∧
      (w.commit cur next).2.events = w.events := by
  unfold commit
  split
  · next h =>
    subst h
    exact ⟨next.metadata.resourceVersion, rfl, hget, fun _ _ _ => rfl, rfl⟩
  · rw [dif_pos (show (next.stamp (w.revision + 1)).metadata.Pinned from hpin)]
    refine ⟨w.revision + 1, rfl, ?_, ?_, rfl⟩
    · rw [← hkey]
      exact Store.get_put_self w.objects (o := next.stamp (w.revision + 1)) hpin
    · intro k' n' hne
      rw [← hkey] at hne
      exact Store.get_put_of_ne w.objects (o := next.stamp (w.revision + 1)) hpin hne

/-- A commit that takes the last finalizer from a deleted object removes it. -/
theorem commit_erase (next : Object k) (hget : w.objects.get k cur.key = some cur)
    (hkey : next.key = cur.key) (hpin : ¬ next.metadata.Pinned) :
    (w.commit cur next).1 = .ok (next.stamp (w.revision + 1)) ∧
      (w.commit cur next).2.objects.get k cur.key = none ∧
      w.objects.SameExcept (w.commit cur next).2.objects k cur.key ∧
      (w.commit cur next).2.events = w.events := by
  have hcur : cur.metadata.Pinned := w.objects.pinned hget
  have hne : next ≠ cur := fun he => hpin (he ▸ hcur)
  unfold commit
  rw [if_neg hne, dif_neg (show ¬ (next.stamp (w.revision + 1)).metadata.Pinned from hpin), hkey]
  exact ⟨rfl, Store.get_erase_self .., fun _ _ h => Store.get_erase_of_ne _ h, rfl⟩

private theorem commit_self : w.commit cur cur = (.ok cur, w) := if_pos rfl

section MapSpec

variable {f : Spec k → Spec k} (hget : w.objects.get k n = some cur)

include hget

private theorem update_mapSpec_eq :
    w.update (cur.mapSpec f) = w.commit cur (cur.merged (cur.mapSpec f)) := by
  have hcur : cur.key = n := w.objects.keyed hget
  have hkey : (cur.mapSpec f).key = n := hcur
  rw [update, hkey, hget]
  simp only [Object.mapSpec, ne_eq, not_true_eq_false, ↓reduceIte, List.Subset.refl, and_false]

/-- Writing back an object with its desired part changed stores exactly that change, if the
server has nothing to fold. -/
theorem update_mapSpec_of_normal (hf : normalize k (f cur.spec) = f cur.spec) :
    ∃ v g, (w.update (cur.mapSpec f)).1 = .ok ((cur.mapSpec f).versioned v g) ∧
      (w.update (cur.mapSpec f)).2.objects.get k n = some ((cur.mapSpec f).versioned v g) ∧
      w.objects.SameExcept (w.update (cur.mapSpec f)).2.objects k n ∧
      (w.update (cur.mapSpec f)).2.events = w.events := by
  have hkey : cur.key = n := w.objects.keyed hget
  subst hkey
  have hpin : cur.metadata.Pinned := w.objects.pinned hget
  rw [update_mapSpec_eq hget]
  obtain ⟨v, h₁, h₂, h₃, h₄⟩ := commit_spec (cur.merged (cur.mapSpec f)) hget rfl hpin
  have hm : ∀ g, (cur.merged (cur.mapSpec f)).versioned v g = (cur.mapSpec f).versioned v g := by
    intro g
    simp only [Object.merged, Object.versioned, Object.mapSpec, hf]
  rw [hm] at h₁ h₂
  exact ⟨v, _, h₁, h₂, h₃, h₄⟩

/-- Only Secrets have write-only fields. -/
theorem update_mapSpec (hk : k ≠ .secret) :
    ∃ v g, (w.update (cur.mapSpec f)).1 = .ok ((cur.mapSpec f).versioned v g) ∧
      (w.update (cur.mapSpec f)).2.objects.get k n = some ((cur.mapSpec f).versioned v g) ∧
      w.objects.SameExcept (w.update (cur.mapSpec f)).2.objects k n ∧
      (w.update (cur.mapSpec f)).2.events = w.events :=
  update_mapSpec_of_normal hget (normalize_of_ne_secret hk _)

/-- Writing back an unchanged object is not a write. -/
theorem update_mapSpec_of_eq (hk : k ≠ .secret) (hf : f cur.spec = cur.spec) :
    w.update (cur.mapSpec f) = (.ok cur, w) := by
  have hm : cur.merged (cur.mapSpec f) = cur := by
    simp [Object.merged, Object.mapSpec, normalize_of_ne_secret hk, hf]
  rw [update_mapSpec_eq hget, hm, commit_self]

end MapSpec

/-- Writing back an object with finalizers taken away. -/
theorem update_finalizers (hk : k ≠ .secret) (hget : w.objects.get k cur.key = some cur)
    {l : List GoString} (hsub : l ⊆ cur.metadata.finalizers) :
    w.update { cur with metadata := { cur.metadata with finalizers := l } } =
      w.commit cur { cur with metadata := { cur.metadata with finalizers := l } } := by
  have hkey : ({ cur with metadata := { cur.metadata with finalizers := l } } : Object k).key =
    cur.key := rfl
  have hm : cur.merged { cur with metadata := { cur.metadata with finalizers := l } } =
      { cur with metadata := { cur.metadata with finalizers := l } } := by
    simp [Object.merged, normalize_of_ne_secret hk]
  rw [update, hkey, hget]
  simp only [hm, ne_eq, not_true_eq_false, ↓reduceIte, hsub, and_false]

/-- An update changes at most the named object, to the request merged with what the server
keeps. -/
theorem update_effect (w : World) (o : Object k) :
    (w.update o).2 = w ∨
      ∃ cur, w.objects.get k o.key = some cur ∧
        w.objects.SameExcept (w.update o).2.objects k o.key ∧
        ((w.update o).2.objects.get k o.key = none ∨
          ∃ v g, (w.update o).2.objects.get k o.key = some ((cur.merged o).versioned v g)) := by
  cases hget : w.objects.get k o.key with
  | none =>
    left
    rw [update, hget]
  | some cur =>
    have hkey : (cur.merged o).key = cur.key := (w.objects.keyed hget).symm
    have hcur : o.key = cur.key := hkey
    rw [hcur] at hget ⊢
    rw [update, hcur, hget]
    simp only []
    split
    · exact .inl rfl
    · split
      · exact .inl rfl
      · refine .inr ⟨cur, rfl, ?_⟩
        by_cases hpin : (cur.merged o).metadata.Pinned
        · obtain ⟨v, -, hstored, hother, -⟩ := commit_spec (cur.merged o) hget hkey hpin
          exact ⟨hother, .inr ⟨v, _, hstored⟩⟩
        · obtain ⟨-, hnone, hother, -⟩ := commit_erase (cur.merged o) hget hkey hpin
          exact ⟨hother, .inl hnone⟩

/-- A status written on the stored revision replaces the stored status. -/
theorem updateStatus_spec (hget : w.objects.get k o.key = some cur)
    (hv : o.metadata.resourceVersion = cur.metadata.resourceVersion) :
    ∃ v, (w.updateStatus o).1 = .ok (cur.withStatus o.status v) ∧
      (w.updateStatus o).2.objects.get k o.key = some (cur.withStatus o.status v) ∧
      w.objects.SameExcept (w.updateStatus o).2.objects k o.key ∧
      (w.updateStatus o).2.events = w.events := by
  have hkey : cur.key = o.key := w.objects.keyed hget
  have heq : w.updateStatus o = w.commit cur { cur with status := o.status } := by
    rw [updateStatus, hget]
    simp only [hv, ne_eq, not_true_eq_false, ↓reduceIte]
  rw [heq, ← hkey]
  rw [← hkey] at hget
  have hpin : cur.metadata.Pinned := w.objects.pinned hget
  exact commit_spec { cur with status := o.status } hget rfl hpin

/-- Writing back the stored status is not a write. -/
theorem updateStatus_of_eq (hget : w.objects.get k o.key = some cur)
    (hv : o.metadata.resourceVersion = cur.metadata.resourceVersion)
    (hs : o.status = cur.status) : w.updateStatus o = (.ok cur, w) := by
  rw [updateStatus, hget]
  simp only [hv, hs, ne_eq, not_true_eq_false, ↓reduceIte]
  exact commit_self

/-- A status update fails, finds nothing to change, or stores the status at a new revision. -/
theorem updateStatus_cases (w : World) (o : Object k) :
    (∃ e, w.updateStatus o = (.error e, w)) ∨
      ∃ cur, w.objects.get k o.key = some cur ∧
        o.metadata.resourceVersion = cur.metadata.resourceVersion ∧
        ((o.status = cur.status ∧ w.updateStatus o = (.ok cur, w)) ∨
          ∃ hpin, w.updateStatus o = (.ok (cur.withStatus o.status (w.revision + 1)),
            { w with
              objects := w.objects.put (cur.withStatus o.status (w.revision + 1)) hpin
              revision := w.revision + 1 })) := by
  unfold updateStatus
  cases hget : w.objects.get k o.key with
  | none => exact .inl ⟨_, rfl⟩
  | some cur =>
    by_cases hv : o.metadata.resourceVersion = cur.metadata.resourceVersion
    · simp only [hv, ne_eq, not_true_eq_false, ↓reduceIte]
      refine .inr ⟨cur, rfl, rfl, ?_⟩
      have hcur : cur.metadata.Pinned := w.objects.pinned hget
      have hpin : (cur.withStatus o.status (w.revision + 1)).metadata.Pinned := hcur
      by_cases hs : o.status = cur.status
      · rw [hs]
        exact .inl ⟨rfl, commit_self⟩
      · have hne : ({ cur with status := o.status } : Object k) ≠ cur :=
          fun he => hs (congrArg Object.status he :)
        refine .inr ⟨hpin, ?_⟩
        rw [commit, if_neg hne]
        exact dif_pos hpin
    · left
      simp only [hv, ne_eq, not_false_eq_true, ↓reduceIte]
      exact ⟨_, rfl⟩

/-- No stored Secret has a `stringData`. -/
def StringDataFolded (w : World) : Prop :=
  ∀ n o, w.objects.get .secret n = some o → o.spec.stringData = ∅

variable (hw : w.StringDataFolded)

include hw

private theorem StringDataFolded.of_entry {w' : World}
    (hother : w.objects.SameExcept w'.objects k n)
    (hentry : ∀ o', w'.objects.get k n = some o' → ∃ sp, o'.spec = normalize k sp) :
    w'.StringDataFolded := by
  intro n' o' ho'
  by_cases he : (Kind.secret, n') = (k, n)
  · cases he
    obtain ⟨sp, hsp⟩ := hentry o' ho'
    rw [hsp, normalize]
  · rw [hother _ _ he] at ho'
    exact hw n' o' ho'

private theorem StringDataFolded.create (o : Object k) : (w.create o).2.StringDataFolded := by
  cases hget : w.objects.get k o.key with
  | some cur => rwa [create_of_some hget]
  | none =>
    apply hw.of_entry (create_sameExcept w o)
    intro o' ho'
    rw [create_of_none hget] at ho'
    have hstored := Store.get_put_self w.objects (created_pinned o (w.revision + 1))
    obtain rfl := Option.some.inj (hstored.symm.trans ho')
    exact ⟨o.spec, rfl⟩

private theorem StringDataFolded.update (o : Object k) : (w.update o).2.StringDataFolded := by
  obtain hsame | ⟨cur, -, hother, hstored⟩ := update_effect w o
  · rwa [hsame]
  · apply hw.of_entry hother
    intro o' ho'
    obtain hnone | ⟨v, g, hsome⟩ := hstored
    · rw [hnone] at ho'
      cases ho'
    · obtain rfl := Option.some.inj (hsome.symm.trans ho')
      exact ⟨o.spec, rfl⟩

private theorem StringDataFolded.updateStatus (o : Object k) :
    (w.updateStatus o).2.StringDataFolded := by
  obtain ⟨e, he⟩ | ⟨cur, hget, -, ⟨-, hsame⟩ | ⟨hpin, hput⟩⟩ := updateStatus_cases w o
  · rwa [he]
  · rwa [hsame]
  · rw [hput]
    intro n' o' ho'
    have hcur : cur.key = o.key := w.objects.keyed hget
    have hkey : (cur.withStatus o.status (w.revision + 1)).key = o.key := hcur
    by_cases hn : (Kind.secret, n') = (k, o.key)
    · cases hn
      have hstored := Store.get_put_self w.objects hpin
      rw [hkey] at hstored
      obtain rfl := Option.some.inj (hstored.symm.trans ho')
      have hfolded : cur.spec.stringData = ∅ := hw _ _ hget
      exact hfolded
    · rw [← hkey] at hn
      exact hw n' o' ((Store.get_put_of_ne w.objects hpin hn).symm.trans ho')

end World

private theorem serve_stringDataFolded (a : Ambient) (op : Op) {w : World}
    (hw : w.StringDataFolded) :
    (serve a op w).2.StringDataFolded := by
  have hguard : ∀ {α : Type} (f : World → Except ApiError α × World),
      (∀ w : World, w.StringDataFolded → (f w).2.StringDataFolded) →
      (a.guard f (w.advance a.elapsed)).2.StringDataFolded := by
    intro α f hf
    unfold Ambient.guard
    cases a.fault with
    | some e => exact hw
    | none => exact hf _ hw
  cases op with
  | get k n => exact hguard _ fun _ h => h
  | create k o => exact hguard _ fun _ h => h.create o
  | update k o => exact hguard _ fun _ h => h.update o
  | updateStatus k o => exact hguard _ fun _ h => h.updateStatus o
  | now | randInt | exec | event => exact hw

/-- So does every run of a controller. -/
theorem run_stringDataFolded {α : Type} (p : Action α) (es : List Ambient) {w : World}
    (hw : w.StringDataFolded) : (Prog.run serve p es w).2.StringDataFolded := by
  induction p generalizing es w with
  | ret a => exact hw
  | call op k ih => exact ih _ _ (serve_stringDataFolded _ op hw)

end Athos.Kube
