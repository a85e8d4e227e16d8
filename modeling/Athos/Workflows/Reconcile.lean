import Athos.Base.GoMap
import Athos.Kube.Rules
import Athos.Postgres.Resources

/-!
# Data of Secrets and ConfigMaps

`ReconcileSecret` and `ReconcileConfigMap` of `src/internal/workflows/reconcile.go` create an
object, or write the desired data into the stored one when a comparison of the two maps says that
they differ. The comparison of ConfigMaps reads a missing key as the empty string. The update of a
Secret looks at `Data` only, while the API server folds `StringData` into it. Log lines are not
modelled.
-/

namespace Athos.Workflows

open Base Base.Prog Kube Postgres List Std.ExtTreeMap

/-- `secretDataChanged`; `reconcile.go:174-185`. -/
def secretDataChanged (old new : StringMap) : Bool :=
  old.size != new.size || old.toList.any fun (k, v) =>
    match new[k]? with
    | none => true
    | some nv => v != nv

/-- `configMapDataChanged`; `reconcile.go:187-197`. -/
def configMapDataChanged (old new : StringMap) : Bool := valuesChanged old new

/-- Create the object that was not found, or write the desired data into the stored one if
they differ. -/
def applyDesired (T : RuneTables) {k : Kind} (noun : GoString) (changed : Spec k → Spec k → Bool)
    (write : Spec k → Spec k → Spec k) (desired : Object k) :
    Except ApiError (Object k) → Action (Except GoError Unit)
  | .error .notFound => return discard (← Client.create desired)
  | .error e => return .error (.wrapped
      (lit "getting " ++ noun ++ lit " " ++ goQuote T desired.metadata.name) (.api e))
  | .ok existing => do
    if changed existing.spec desired.spec then
      return discard (← Client.update (existing.mapSpec fun sp => write sp desired.spec))
    else return .ok ()

/-- The two functions below, for any kind. -/
def reconcileData (T : RuneTables) (k : Kind) (noun : GoString) (changed : Spec k → Spec k → Bool)
    (write : Spec k → Spec k → Spec k) (owner : Owner) (desired : Object k) :
    Action (Except GoError Unit) :=
  match setControllerReference owner desired with
  | .error e => return .error (.wrapped (lit "setting controller reference") e)
  | .ok desired => do applyDesired T noun changed write desired (← Client.get k desired.key)

/-- `ReconcileSecret`; `reconcile.go:76-106`. -/
def reconcileSecret (T : RuneTables) (owner : Owner) (desired : Secret) :
    Action (Except GoError Unit) :=
  reconcileData T .secret (lit "secret") (fun old new => secretDataChanged old.data new.data)
    (fun old new => { old with data := new.data }) owner desired

/-- `ReconcileConfigMap`; `reconcile.go:108-138`. -/
def reconcileConfigMap (T : RuneTables) (owner : Owner) (desired : ConfigMap) :
    Action (Except GoError Unit) :=
  reconcileData T .configMap (lit "configmap")
    (fun old new => configMapDataChanged old.data new.data)
    (fun old new => { old with data := new.data }) owner desired

private theorem secretDataChanged_eq_false_iff {old new : StringMap} :
    secretDataChanged old new = false ↔ old = new := by
  constructor
  · intro h
    simp only [secretDataChanged, Bool.or_eq_false_iff, bne_eq_false_iff_eq, any_eq_false] at h
    obtain ⟨hsize, hentries⟩ := h
    apply eq_of_size_eq hsize
    intro k v hv
    have hkv := hentries (k, v) (mem_toList_iff_getElem?_eq_some.2 hv)
    cases hnew : new[k]? with
    | none => simp [hnew] at hkv
    | some nv =>
      have heq : v = nv := by simpa [hnew] using hkv
      rw [heq]
  · rintro rfl
    simp only [secretDataChanged, bne_self_eq_false, Bool.false_or, any_eq_false]
    rintro ⟨k, v⟩ hmem
    rw [mem_toList_iff_getElem?_eq_some] at hmem
    simp [hmem]

/-- Requests that write. -/
def isWrite : Op → Bool
  | .create .. | .update .. | .updateStatus .. => true
  | .get .. | .now | .randInt _ | .exec .. | .event _ => false

/-- The desired part that a successful call leaves. -/
def outcome {k : Kind} (changed : Spec k → Spec k → Bool) (write : Spec k → Spec k → Spec k)
    (stored : Option (Object k)) (desired : Spec k) : Spec k :=
  match stored with
  | none => normalize k desired
  | some cur => if changed cur.spec desired then write cur.spec desired else cur.spec

/-- Every call that returns no error leaves a stored object whose desired part satisfies `P`,
and a call that finds one writes nothing; the server does not deny existing objects. -/
def Leaves (p : Action (Except GoError Unit)) (k : Kind) (n : NamespacedName) (P : Spec k → Prop)
    (w : World) : Prop :=
  ∀ es, (∀ a ∈ es, a.Honest) →
    ((run serve p es w).1 = .ok () →
      ∃ o, (run serve p es w).2.objects.get k n = some o ∧ P o.spec) ∧
    ((∃ o, w.objects.get k n = some o ∧ P o.spec) → ∀ x ∈ trace serve p es w, isWrite x.1 = false)

section Runs

variable {T : RuneTables} {k : Kind} {noun : GoString} {changed : Spec k → Spec k → Bool}
  {write : Spec k → Spec k → Spec k} {owner : Owner} {desired desired' : Object k}
  {P : Spec k → Prop} {w : World} {es : List Ambient}

private theorem setControllerReference_eq_ok
    (h : setControllerReference owner desired = .ok desired') :
    desired'.key = desired.key ∧ desired'.spec = desired.spec := by
  unfold setControllerReference at h
  split_ifs at h
  obtain rfl := Except.ok.inj h
  exact ⟨rfl, rfl⟩

variable (T noun changed write desired) in
private theorem applyDesired_error {e : ApiError} (he : e ≠ .notFound) :
    ∃ e', applyDesired T noun changed write desired (.error e) = .ret (.error e') := by
  cases e with
  | notFound => exact absurd rfl he
  | alreadyExists | conflict | invalid | other => exact ⟨_, rfl⟩

private theorem applyDesired_writes {cur : Object k}
    (hget : w.objects.get k desired.key = some cur) :
    (∀ es, (∀ a ∈ es, a.Honest) → ∀ x ∈ trace serve (Client.get k desired.key >>=
      applyDesired T noun changed write desired) es w, isWrite x.1 = false) ↔
      changed cur.spec desired.spec = false := by
  constructor
  · intro h
    by_contra hchanged
    rw [Bool.not_eq_false] at hchanged
    have htrace : trace serve (Client.get k desired.key >>=
        applyDesired T noun changed write desired) [] w =
          ⟨.get k desired.key, w.read k desired.key⟩ :: trace serve
            (applyDesired T noun changed write desired (w.read k desired.key)) []
            (w.advance 0) := rfl
    have hquiet := h [] (by simp)
    rw [htrace, World.read_of_some hget] at hquiet
    simp only [applyDesired, hchanged, ↓reduceIte] at hquiet
    cases hquiet _ (mem_cons_of_mem _ mem_cons_self)
  · intro hchanged es hes x hx
    obtain ⟨r, t, hr, -, htrace⟩ := run_get (w := w) (n := desired.key)
      (f := applyDesired T noun changed write desired) hes
    rw [htrace] at hx
    have hquiet : ∃ res, applyDesired T noun changed write desired r = .ret res := by
      rcases hr with rfl | ⟨e, he, rfl⟩
      · rw [World.read_of_some hget]
        simp only [applyDesired, hchanged, Bool.false_eq_true, ↓reduceIte]
        exact ⟨_, rfl⟩
      · obtain ⟨e', he'⟩ := applyDesired_error T noun changed write desired he
        exact ⟨_, he'⟩
    obtain ⟨res, hres⟩ := hquiet
    rw [hres] at hx
    obtain rfl := mem_singleton.1 hx
    rfl

private theorem leaves_of_error (e : GoError) (n : NamespacedName) :
    Leaves (.ret (.error e)) k n P w := by
  intro es _
  constructor
  · intro h
    cases h
  · intro _ x hx
    cases hx

section

variable (hnormal : ∀ cur, w.objects.get k desired.key = some cur →
  normalize k (write cur.spec desired.spec) = write cur.spec desired.spec)

include hnormal

private theorem applyDesired_stores (hes : ∀ a ∈ es, a.Honest)
    (hok : (run serve (Client.get k desired.key >>=
      applyDesired T noun changed write desired) es w).1 = .ok ()) :
    ∃ o, (run serve (Client.get k desired.key >>=
        applyDesired T noun changed write desired) es w).2.objects.get k desired.key = some o ∧
      o.spec = outcome changed write (w.objects.get k desired.key) desired.spec := by
  obtain ⟨r, t, hr, hrun, -⟩ := run_get (w := w) (n := desired.key)
    (f := applyDesired T noun changed write desired) hes
  rw [hrun] at hok ⊢
  rcases hr with rfl | ⟨e, he, rfl⟩
  · cases hget : w.objects.get k desired.key with
    | none =>
      rw [World.read_of_none hget] at hok ⊢
      obtain ⟨t', o', hcreate⟩ := run_create_last hok
      rw [World.create_of_none (w := (w.advance t).advance t') hget] at hcreate
      have hw' := congrArg (fun p => p.2.objects.get k desired.key) hcreate
      have hstored := Store.get_put_self w.objects (World.created_pinned desired (w.revision + 1))
      exact ⟨desired.created (w.revision + 1), hw'.symm.trans hstored, rfl⟩
    | some cur =>
      rw [World.read_of_some hget] at hok ⊢
      by_cases hchanged : changed cur.spec desired.spec
      · simp only [applyDesired, outcome, hchanged, ↓reduceIte] at hok ⊢
        obtain ⟨t', o', hupdate⟩ := run_update_last hok
        obtain ⟨v, g, -, hstored, -⟩ := World.update_mapSpec_of_normal
          (w := (w.advance t).advance t') (f := fun sp => write sp desired.spec)
          hget (hnormal cur hget)
        rw [hupdate] at hstored
        exact ⟨_, hstored, rfl⟩
      · simp only [applyDesired, outcome, hchanged, Bool.false_eq_true, ↓reduceIte]
        exact ⟨cur, hget, rfl⟩
  · obtain ⟨e', he'⟩ := applyDesired_error T noun changed write desired he
    rw [he'] at hok
    cases hok

variable (T noun changed) in
private theorem applyDesired_succeeds :
    (run serve (Client.get k desired.key >>=
      applyDesired T noun changed write desired) [] w).1 = .ok () := by
  have hrun : run serve (Client.get k desired.key >>= applyDesired T noun changed write desired)
      [] w = run serve (applyDesired T noun changed write desired (w.read k desired.key)) []
        (w.advance 0) := rfl
  rw [hrun]
  cases hget : w.objects.get k desired.key with
  | none =>
    have hcreate := World.create_of_none (w := (w.advance 0).advance 0) hget
    rw [World.read_of_none hget]
    exact congrArg (Kube.discard ·.1) hcreate
  | some cur =>
    rw [World.read_of_some hget]
    by_cases hchanged : changed cur.spec desired.spec
    · simp only [applyDesired, hchanged, ↓reduceIte]
      obtain ⟨v, g, hres, -⟩ := World.update_mapSpec_of_normal
        (w := (w.advance 0).advance 0) (f := fun sp => write sp desired.spec)
        hget (hnormal cur hget)
      exact congrArg Kube.discard hres
    · simp only [applyDesired, hchanged, Bool.false_eq_true, ↓reduceIte]
      rfl

private theorem leaves_applyDesired_iff :
    Leaves (Client.get k desired.key >>= applyDesired T noun changed write desired) k desired.key
        P w ↔
      P (outcome changed write (w.objects.get k desired.key) desired.spec) ∧
        ∀ cur, w.objects.get k desired.key = some cur → P cur.spec →
          changed cur.spec desired.spec = false := by
  constructor
  · intro h
    refine ⟨?_, ?_⟩
    · -- A run without failures returns no error.
      have hok := applyDesired_succeeds T noun changed hnormal
      obtain ⟨o, ho, hP⟩ := (h [] (by simp)).1 hok
      obtain ⟨o', ho', hout⟩ := applyDesired_stores hnormal (by simp) hok
      obtain rfl := Option.some.inj (ho.symm.trans ho')
      rwa [← hout]
    · intro cur hget hP
      exact (applyDesired_writes hget).1 fun es hes => (h es hes).2 ⟨cur, hget, hP⟩
  · rintro ⟨hout, hquiet⟩ es hes
    refine ⟨?_, ?_⟩
    · intro hok
      obtain ⟨o, ho, hspec⟩ := applyDesired_stores hnormal hes hok
      exact ⟨o, ho, hspec ▸ hout⟩
    · rintro ⟨cur, hget, hP⟩
      exact (applyDesired_writes hget).2 (hquiet cur hget hP) es hes

private theorem leaves_reconcileData_iff :
    Leaves (reconcileData T k noun changed write owner desired) k desired.key P w ↔
      (∃ e, setControllerReference owner desired = .error e) ∨
        P (outcome changed write (w.objects.get k desired.key) desired.spec) ∧
          ∀ cur, w.objects.get k desired.key = some cur → P cur.spec →
            changed cur.spec desired.spec = false := by
  cases href : setControllerReference owner desired with
  | error e =>
    have hprog : reconcileData T k noun changed write owner desired =
        .ret (.error (.wrapped (lit "setting controller reference") e)) := by
      unfold reconcileData
      rw [href]
      rfl
    rw [hprog]
    exact iff_of_true (leaves_of_error _ _) (.inl ⟨e, rfl⟩)
  | ok desired' =>
    obtain ⟨hkey, hspec⟩ := setControllerReference_eq_ok href
    have hprog : reconcileData T k noun changed write owner desired =
        Client.get k desired'.key >>= applyDesired T noun changed write desired' := by
      unfold reconcileData
      rw [href]
    rw [← hkey, ← hspec] at hnormal ⊢
    rw [hprog, leaves_applyDesired_iff hnormal]
    simp only [reduceCtorEq, exists_false, false_or]

end

end Runs

section Kinds

variable {T : RuneTables} {owner : Owner} {w : World}

private theorem leaves_reconcileConfigMap_iff {desired : ConfigMap} :
    Leaves (reconcileConfigMap T owner desired) .configMap desired.key
        (·.data = desired.spec.data) w ↔
      (∃ e, setControllerReference owner desired = .error e) ∨
        ∀ cur, w.objects.get .configMap desired.key = some cur →
          ¬ SwapsEmptyKeys cur.spec.data desired.spec.data := by
  rw [reconcileConfigMap, leaves_reconcileData_iff fun _ _ => rfl]
  apply or_congr_right
  cases hget : w.objects.get .configMap desired.key with
  | none => simp [outcome, Kube.normalize]
  | some cur =>
    have hiff : configMapDataChanged cur.spec.data desired.spec.data = false ↔
        cur.spec.data = desired.spec.data ∨ SwapsEmptyKeys cur.spec.data desired.spec.data :=
      valuesChanged_eq_false_iff
    simp only [outcome, Option.some.injEq, forall_eq']
    constructor
    · rintro ⟨hout, -⟩ hswap
      rw [if_neg (by simp [hiff.2 (.inr hswap)])] at hout
      exact hswap.ne hout
    · intro hswap
      refine ⟨?_, ?_⟩
      · split_ifs with hchanged
        · rfl
        · rw [Bool.not_eq_true, hiff] at hchanged
          exact hchanged.resolve_right hswap
      · intro heq
        exact hiff.2 (.inl heq)

/-- The data of a Secret overlaid with its `StringData`. -/
def overlay (s : SecretSpec) : StringMap := s.data.insertMany s.stringData.toList

/-- Keys of `StringData` win. -/
theorem getElem?_overlay (s : SecretSpec) (k : GoString) :
    (overlay s)[k]? = s.stringData[k]?.or s.data[k]? := by
  cases hk : s.stringData[k]? with
  | some v =>
    have hmem := mem_toList_iff_getElem?_eq_some.2 hk
    exact getElem?_insertMany_list_of_mem Std.ReflCmp.compare_self
      distinct_keys_toList hmem
  | none =>
    apply getElem?_insertMany_list_of_contains_eq_false
    simp only [contains_eq_mem, List.mem_map, Prod.exists, exists_and_right, exists_eq_right,
      decide_eq_false_iff_not, not_exists, mem_toList_iff_getElem?_eq_some, hk]
    simp

private theorem overlay_eq_data_iff (s : SecretSpec) :
    overlay s = s.data ↔ ∀ (k : GoString) v, s.stringData[k]? = some v → s.data[k]? = some v := by
  constructor
  · intro h k v hv
    have hk := getElem?_overlay s k
    rwa [h, hv, Option.some_or] at hk
  · intro h
    apply Std.ExtTreeMap.ext_getElem?
    intro k
    rw [getElem?_overlay]
    cases hk : s.stringData[k]? with
    | some v => rw [Option.some_or, h k v hk]
    | none => rw [Option.none_or]

private theorem leaves_reconcileSecret_iff {desired : Secret} (hw : w.StringDataFolded) :
    Leaves (reconcileSecret T owner desired) .secret desired.key
        (·.data = overlay desired.spec) w ↔
      (∃ e, setControllerReference owner desired = .error e) ∨
        w.objects.get .secret desired.key = none ∨
          ∀ (k : GoString) v, desired.spec.stringData[k]? = some v →
            desired.spec.data[k]? = some v := by
  have hnormal : ∀ cur : Secret, w.objects.get .secret desired.key = some cur →
      normalize .secret { cur.spec with data := desired.spec.data } =
        { cur.spec with data := desired.spec.data } := by
    intro cur hget
    have hfolded : cur.spec.stringData = ∅ := hw _ _ hget
    have hnothing := (overlay_eq_data_iff { cur.spec with data := desired.spec.data }).2
      (by simp [hfolded])
    simp only [overlay, hfolded] at hnothing
    simp [Kube.normalize, hfolded, hnothing]
  rw [reconcileSecret, leaves_reconcileData_iff hnormal, ← overlay_eq_data_iff]
  apply or_congr_right
  cases hget : w.objects.get .secret desired.key with
  | none => simp [outcome, Kube.normalize, overlay]
  | some cur =>
    simp only [outcome, Option.some.injEq, forall_eq', reduceCtorEq, false_or]
    -- Either way the stored data is `Data` in the end.
    have hout : (if secretDataChanged cur.spec.data desired.spec.data = true then
        { cur.spec with data := desired.spec.data } else cur.spec : SecretSpec).data =
          desired.spec.data := by
      split_ifs with hchanged
      · rfl
      · rwa [Bool.not_eq_true, secretDataChanged_eq_false_iff] at hchanged
    rw [hout, secretDataChanged_eq_false_iff]
    constructor
    · rintro ⟨heq, -⟩
      exact heq.symm
    · intro heq
      exact ⟨heq.symm, fun hcur => hcur.trans heq⟩

/-- A ConfigMap has the desired data after every call without an error exactly if the desired
map does not swap empty keys of the stored one; a Secret has it exactly if the Secret is new
or its `StringData` adds nothing to its `Data`. -/
theorem reconcile_leaves_iff (T : RuneTables) (owner owner' : Owner) (configMap : ConfigMap)
    (secret : Secret) {w : World} (hw : w.StringDataFolded) :
    (Leaves (reconcileConfigMap T owner configMap) .configMap configMap.key
        (·.data = configMap.spec.data) w ↔
      (∃ e, setControllerReference owner configMap = .error e) ∨
        ∀ cur, w.objects.get .configMap configMap.key = some cur →
          ¬ SwapsEmptyKeys cur.spec.data configMap.spec.data) ∧
    (Leaves (reconcileSecret T owner' secret) .secret secret.key
        (·.data = overlay secret.spec) w ↔
      (∃ e, setControllerReference owner' secret = .error e) ∨
        w.objects.get .secret secret.key = none ∨
          ∀ (k : GoString) v, secret.spec.stringData[k]? = some v →
            secret.spec.data[k]? = some v) :=
  ⟨leaves_reconcileConfigMap_iff, leaves_reconcileSecret_iff hw⟩

end Kinds

/-- A store without objects. -/
def newCluster : World := ⟨.empty, 0, 0, []⟩

private theorem newCluster_stringDataFolded : newCluster.StringDataFolded := by
  intro n o h
  cases h

/-- The owner in the examples. -/
def sampleOwner : Owner where
  apiVersion := lit "pg.athos.io/v1alpha1"
  kind := lit "PostgresCluster"
  metadata := { name := lit "db", namespace_ := lit "prod" }

/-- A ConfigMap with the given data. -/
def sampleConfigMap (entries : List (GoString × GoString)) : ConfigMap where
  metadata := { name := lit "db-config", namespace_ := lit "prod" }
  spec := { data := mapOf entries }
  status := ([] : Fields)

/-- A Secret with the given data. -/
def sampleSecret (data stringData : List (GoString × GoString)) : Secret where
  metadata := { name := lit "db-credentials", namespace_ := lit "prod" }
  spec := { data := mapOf data, stringData := mapOf stringData }
  status := ([] : Fields)

/-- The same data in both fields of a Secret survives a second call. -/
theorem sample_left :
    let twice := sampleSecret [(lit "password", lit "pw")] [(lit "password", lit "pw")]
    Leaves (reconcileSecret .basic sampleOwner twice) .secret twice.key
      (·.data = overlay twice.spec)
      (run serve (reconcileSecret .basic sampleOwner twice) [] newCluster).2 := by
  intro twice
  refine ((reconcile_leaves_iff .basic sampleOwner sampleOwner (sampleConfigMap []) twice
    (run_stringDataFolded _ [] newCluster_stringDataFolded)).2).2 (.inr (.inr ?_))
  intro k v h
  exact h

/-- The second call for a Secret like that of the credentials empties it, and a key with an empty
value is not renamed in a ConfigMap. -/
theorem reconcile_loses_data :
    let call := reconcileSecret .basic sampleOwner (sampleSecret [] [(lit "password", lit "pw")])
    let first := run serve call [] newCluster
    let second := run serve call [] first.2
    let key : NamespacedName := ⟨lit "prod", lit "db-credentials"⟩
    let old := run serve (reconcileConfigMap .basic sampleOwner (sampleConfigMap [(lit "a", [])]))
      [] newCluster
    let new := run serve (reconcileConfigMap .basic sampleOwner (sampleConfigMap [(lit "b", [])]))
      [] old.2
    (first.2.objects.get .secret key).map (·.spec.data.toList) =
        some [(lit "password", lit "pw")] ∧
      second.1 = .ok () ∧
      (second.2.objects.get .secret key).map (·.spec.data.toList) = some [] ∧
      new.1 = .ok () ∧
      (new.2.objects.get .configMap ⟨lit "prod", lit "db-config"⟩).map (·.spec.data.toList) =
        some [(lit "a", [])] := by
  refine ⟨by decide +kernel, rfl, by decide +kernel, rfl, by decide +kernel⟩

end Athos.Workflows
