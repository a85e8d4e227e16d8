import Athos.Kube.Rules

/-!
# How a controller may change the store

A policy says which parts of which objects a controller manages, which objects it only creates, and
whose status it reports. It gives a preorder on stores that every step of the controller respects
whichever of its requests fail: managed parts move to their desired values and nowhere else, missing
objects appear as built, everything else stays. On top of it, `Secures` is what a step reaches,
`Rests` that it then does nothing more, and `Upkeep` both.
-/

namespace Athos.Kube

open Base Base.Prog List

/-- What a controller is responsible for. -/
structure Policy where
  /-- The function that sets the managed part of an object. -/
  managed : (k : Kind) → NamespacedName → Option (Spec k → Spec k)
  managed_idem : ∀ {k n m}, managed k n = some m → ∀ sp, m (m sp) = m sp
  /-- The objects that are created when missing and never written again. -/
  ensured : Kind → NamespacedName → Prop
  /-- The objects whose status is written. -/
  reported : Kind → NamespacedName → Prop

variable {P : Policy} {k : Kind} {n : NamespacedName}

namespace Policy

/-- How a stored object may change. -/
def Drift (P : Policy) (k : Kind) (n : NamespacedName) (o o' : Object k) : Prop :=
  match P.managed k n with
  | some m => ∃ v g, o' = o.versioned v g ∨ o' = (o.mapSpec m).versioned v g
  | none => o' = o ∨ (P.reported k n ∧ ∃ st v, o' = o.withStatus st v)

/-- What a missing object may become. -/
def Appears (P : Policy) (k : Kind) (n : NamespacedName) (o : Object k) : Prop :=
  ((P.managed k n).isSome ∨ P.ensured k n) ∧ ∀ m, P.managed k n = some m → m o.spec = o.spec

/-- An object that stays as it is has not drifted. -/
theorem Drift.refl (o : Object k) : P.Drift k n o o := by
  unfold Drift
  split
  · exact ⟨o.metadata.resourceVersion, o.metadata.generation, .inl rfl⟩
  · exact .inl rfl

private theorem Drift.trans {o₁ o₂ o₃ : Object k} (h₁ : P.Drift k n o₁ o₂)
    (h₂ : P.Drift k n o₂ o₃) :
    P.Drift k n o₁ o₃ := by
  unfold Drift at *
  cases hm : P.managed k n with
  | some m =>
    rw [hm] at h₁ h₂
    obtain ⟨v, g, rfl | rfl⟩ := h₁ <;> obtain ⟨v', g', rfl | rfl⟩ := h₂
    · exact ⟨v', g', .inl rfl⟩
    · exact ⟨v', g', .inr rfl⟩
    · exact ⟨v', g', .inr rfl⟩
    · refine ⟨v', g', .inr ?_⟩
      simp only [Object.versioned, Object.mapSpec, P.managed_idem hm]
  | none =>
    rw [hm] at h₁ h₂
    rcases h₁ with rfl | ⟨hr, st, v, rfl⟩ <;> rcases h₂ with rfl | ⟨hr', st', v', rfl⟩
    · exact .inl rfl
    · exact .inr ⟨hr', st', v', rfl⟩
    · exact .inr ⟨hr, st, v, rfl⟩
    · exact .inr ⟨hr, st', v', rfl⟩

/-- A drift keeps a managed part that has its desired value. -/
theorem Drift.fixed {o o' : Object k} {m : Spec k → Spec k} (hd : P.Drift k n o o')
    (hm : P.managed k n = some m) (hs : m o.spec = o.spec) : m o'.spec = o'.spec := by
  rw [Drift, hm] at hd
  obtain ⟨v, g, rfl | rfl⟩ := hd
  · exact hs
  · exact P.managed_idem hm _

private theorem Appears.drift {o o' : Object k} (h : P.Appears k n o) (hd : P.Drift k n o o') :
    P.Appears k n o' := ⟨h.1, fun m hm => hd.fixed hm (h.2 m hm)⟩

end Policy

/-- How the store may change. -/
structure Evolves (P : Policy) (s s' : Store) : Prop where
  existing : ∀ {k n o}, s.get k n = some o → ∃ o', s'.get k n = some o' ∧ P.Drift k n o o'
  absent : ∀ {k n}, s.get k n = none →
    s'.get k n = none ∨ ∃ o, s'.get k n = some o ∧ P.Appears k n o

namespace Evolves

variable {s s' s'' : Store}

/-- A store that stays as it is follows every policy. -/
theorem refl (P : Policy) (s : Store) : Evolves P s s :=
  ⟨fun h => ⟨_, h, Policy.Drift.refl _⟩, .inl⟩

/-- Changes under a policy follow each other. -/
theorem trans (h₁ : Evolves P s s') (h₂ : Evolves P s' s'') : Evolves P s s'' where
  existing h := by
    obtain ⟨o', ho', hd₁⟩ := h₁.existing h
    obtain ⟨o'', ho'', hd₂⟩ := h₂.existing ho'
    exact ⟨o'', ho'', hd₁.trans hd₂⟩
  absent h := by
    rcases h₁.absent h with h' | ⟨o', ho', ha⟩
    · exact h₂.absent h'
    · obtain ⟨o'', ho'', hd⟩ := h₂.existing ho'
      exact .inr ⟨o'', ho'', ha.drift hd⟩

private theorem of_entry (hother : s.SameExcept s' k n)
    (hexisting : ∀ o, s.get k n = some o → ∃ o', s'.get k n = some o' ∧ P.Drift k n o o')
    (habsent : s.get k n = none → s'.get k n = none ∨ ∃ o, s'.get k n = some o ∧ P.Appears k n o) :
    Evolves P s s' where
  existing {k₁ n₁ o₁} h := by
    by_cases he : (k₁, n₁) = (k, n)
    · cases he
      exact hexisting o₁ h
    · exact ⟨o₁, (hother k₁ n₁ he).trans h, Policy.Drift.refl _⟩
  absent {k₁ n₁} h := by
    by_cases he : (k₁, n₁) = (k, n)
    · cases he
      exact habsent h
    · exact .inl ((hother k₁ n₁ he).trans h)

/-- A change of one existing entry along its drift. -/
theorem of_drift {o o' : Object k} (hget : s.get k n = some o) (hget' : s'.get k n = some o')
    (hd : P.Drift k n o o') (hother : s.SameExcept s' k n) : Evolves P s s' := by
  refine of_entry hother (fun o₁ h => ?_) fun h => nomatch hget.symm.trans h
  rw [hget, Option.some.injEq] at h
  exact ⟨o', hget', h ▸ hd⟩

private theorem of_appears {o : Object k} (hget : s.get k n = none) (hget' : s'.get k n = some o)
    (ha : P.Appears k n o) (hother : s.SameExcept s' k n) : Evolves P s s' :=
  of_entry hother (fun _ h => nomatch hget.symm.trans h) fun _ => .inr ⟨o, hget', ha⟩

/-- What the policy does not name is left alone. -/
theorem get_eq (h : Evolves P s s') (hm : P.managed k n = none) (hens : ¬ P.ensured k n)
    (hrep : ¬ P.reported k n) : s'.get k n = s.get k n := by
  cases hs : s.get k n with
  | some o =>
    obtain ⟨o', ho', hd⟩ := h.existing hs
    rw [Policy.Drift, hm] at hd
    exact ho'.trans (congrArg some (hd.resolve_right fun hr => hrep hr.1))
  | none =>
    refine (h.absent hs).resolve_right ?_
    rintro ⟨o, -, hsome | hens', -⟩
    · rw [hm] at hsome
      cases hsome
    · exact hens hens'

end Evolves

/-- An object exists and its managed part has the desired value. -/
def Settled (P : Policy) (s : Store) (k : Kind) (n : NamespacedName) : Prop :=
  ∃ o, s.get k n = some o ∧ ∀ m, P.managed k n = some m → m o.spec = o.spec

/-- What is settled stays so under the policy. -/
theorem Settled.evolves {s s' : Store} (h : Settled P s k n) (he : Evolves P s s') :
    Settled P s' k n := by
  obtain ⟨o, ho, hs⟩ := h
  obtain ⟨o', ho', hd⟩ := he.existing ho
  exact ⟨o', ho', fun m hm => hd.fixed hm (hs m hm)⟩

/-- A change that writes no status of kind `j`. -/
def Maintains (P : Policy) (j : Kind) (s s' : Store) : Prop :=
  Evolves P s s' ∧ ∀ n, s'.get j n = s.get j n

namespace Maintains

variable {j : Kind} {s s' s'' : Store}

/-- A store that stays as it is is maintained. -/
theorem refl (P : Policy) (j : Kind) (s : Store) : Maintains P j s s :=
  ⟨Evolves.refl P s, fun _ => rfl⟩

/-- So is one that is equal to it. -/
theorem of_eq (h : s' = s) : Maintains P j s s' := h ▸ refl P j s

private theorem trans (h₁ : Maintains P j s s') (h₂ : Maintains P j s' s'') : Maintains P j s s'' :=
  ⟨h₁.1.trans h₂.1, fun n => (h₂.2 n).trans (h₁.2 n)⟩

private theorem of_evolves (h : Evolves P s s') (hother : s.SameExcept s' k n) (hj : j ≠ k) :
    Maintains P j s s' :=
  ⟨h, fun n' => hother j n' fun he => hj (congrArg Prod.fst he)⟩

end Maintains

private theorem maintains_create {j : Kind} {w : World} {o : Object k} (hj : j ≠ k)
    (ha : ∀ v, P.Appears k o.key (o.created v)) :
    Maintains P j w.objects (w.create o).2.objects := by
  have hother := World.create_sameExcept w o
  cases hget : w.objects.get k o.key with
  | some cur => exact .of_eq (by rw [World.create_of_some hget])
  | none =>
    rw [World.create_of_none hget] at hother ⊢
    exact .of_evolves (.of_appears hget (Store.get_put_self _ (World.created_pinned o _))
      (ha _) hother) hother hj

/-- Only time passed. -/
def World.Idle (w w' : World) : Prop := ∃ t, w' = w.advance t

/-- A world is idle towards itself. -/
theorem World.Idle.refl (w : World) : w.Idle w := ⟨0, by simp [World.advance]⟩

/-- Time may pass. -/
theorem World.Idle.advance (w : World) (t : Nat) : w.Idle (w.advance t) := ⟨t, rfl⟩

/-- Idle worlds follow each other. -/
theorem World.Idle.trans {w₁ w₂ w₃ : World} (h₁ : w₁.Idle w₂) (h₂ : w₂.Idle w₃) : w₁.Idle w₃ := by
  obtain ⟨t, rfl⟩ := h₁
  obtain ⟨u, rfl⟩ := h₂
  exact ⟨t + u, by simp only [World.advance, Int.natCast_add, Int.add_assoc]⟩

/-- Nothing fails within `A`. -/
def Smooth (A : Ambient → Prop) : Prop := ∀ a, A a → a.Clean

/-- Nothing fails where all is smooth. -/
theorem Smooth.not_faults {A : Ambient → Prop} (h : Smooth A) {e : ApiError} : ¬ Faults A e := by
  rintro ⟨a, ha, he⟩
  exact not_faults_clean e ⟨a, h a ha, he⟩

/-- All is smooth where requests are clean. -/
theorem smooth_clean : Smooth Ambient.Clean := fun _ h => h

/-- The program never writes an object. -/
def Keeps (A : Ambient → Prop) {α : Type} (p : Action α) : Prop :=
  Within (within A) (fun w w' => w'.objects = w.objects) p

/-- Returning keeps all objects. -/
theorem keeps_return (A : Ambient → Prop) : Keeps A (return () : Action Unit) := fun _ => rfl

/-- Once its objects are settled the step succeeds without any effect. -/
def Rests (P : Policy) (ts : List (Kind × NamespacedName)) (step : Action (Except GoError Unit)) :
    Prop :=
  ∀ w : World, (∀ t ∈ ts, Settled P w.objects t.1 t.2) →
    wp (within Ambient.Clean) step (fun res w' => res = .ok () ∧ w.Idle w') w

/-- Whatever fails the step follows the policy and leaves kind `j`; when it reports success its
objects are settled, and it does report success when nothing fails. -/
def Secures (A : Ambient → Prop) (P : Policy) (j : Kind) (ts : List (Kind × NamespacedName))
    (step : Action (Except GoError Unit)) : Prop :=
  ∀ w, wp (within A) step (fun res w' => Maintains P j w.objects w'.objects ∧
    (res = .ok () → ∀ t ∈ ts, Settled P w'.objects t.1 t.2) ∧ (Smooth A → res = .ok ())) w

/-- The step secures its objects, and rests once they are settled. -/
structure Upkeep (A : Ambient → Prop) (P : Policy) (j : Kind) (ts : List (Kind × NamespacedName))
    (step : Action (Except GoError Unit)) : Prop where
  secures : Secures A P j ts step
  rests : Rests P ts step

section CreateOrUpdate

variable {A : Ambient → Prop} {j : Kind} {desired : Object k} {m : Spec k → Spec k}
  {created : Action Unit} {updating : Object k → Action Unit} {failed : GoError → GoError}

/-- The creation of an object that a lookup did not find; the lookup itself may have lied. -/
theorem wp_createMissing {w : World} (ha : ∀ v, P.Appears k desired.key (desired.created v))
    (hj : j ≠ k) (hc : Keeps A created) (habs : Smooth A → w.objects.get k desired.key = none) :
    wp (within A) (createMissing desired created) (fun res w' =>
      Maintains P j w.objects w'.objects ∧
        (res = .ok () → Settled P w'.objects k desired.key) ∧ (Smooth A → res = .ok ())) w := by
  refine wp_create ?_ ?_
  · intro e he t
    exact ⟨.refl P j _, nofun, fun hs => absurd he hs.not_faults⟩
  · intro t
    have hmaint := maintains_create (P := P) (w := w.advance t) (o := desired) hj ha
    cases hget : w.objects.get k desired.key with
    | some cur =>
      rw [World.create_of_some (w := w.advance t) hget]
      exact ⟨.refl P j _, nofun, fun hs => absurd (habs hs) (by simp [hget])⟩
    | none =>
      rw [World.create_of_none (w := w.advance t) hget] at hmaint ⊢
      refine wp_bind.2 (wp_mono (within_monotone A) (hc _) fun _ w' hw' => ?_)
      refine ⟨hmaint.trans (.of_eq hw'), fun _ => ⟨desired.created (w.revision + 1), ?_, ?_⟩,
        fun _ => rfl⟩
      · rw [hw']
        exact Store.get_put_self _ (World.created_pinned desired _)
      · exact (ha _).2

section Ensure

variable {missing : Action (Except GoError Unit)}

/-- A lookup whose missing branch creates an object that is not managed further. -/
theorem secures_ensure (hm : P.managed k n = none)
    (h : ∀ w : World, (Smooth A → w.objects.get k n = none) →
      wp (within A) missing (fun res w' => Maintains P j w.objects w'.objects ∧
        (res = .ok () → Settled P w'.objects k n) ∧ (Smooth A → res = .ok ())) w) :
    Secures A P j [(k, n)] (ensure k n missing) := by
  intro w
  simp only [forall_mem_singleton]
  refine wp_lookup ?_ ?_ ?_
  · intro e hne he t
    cases e with
    | notFound => exact absurd rfl hne
    | alreadyExists | conflict | invalid | other _ =>
      exact ⟨.refl P j _, nofun, fun hs => absurd he hs.not_faults⟩
  · exact fun hmissing t => h (w.advance t) fun hs => hmissing.resolve_left hs.not_faults
  · intro o hget t
    exact ⟨.refl P j _, fun _ => ⟨o, hget, fun m hm' => nomatch hm.symm.trans hm'⟩, fun _ => rfl⟩

/-- An object that exists is only looked up. -/
theorem rests_ensure : Rests P [(k, n)] (ensure k n missing) := by
  intro w hs
  obtain ⟨o, hget, -⟩ := hs (k, n) mem_cons_self
  refine wp_get (fun e he => absurd he (not_faults_clean e)) fun t => ?_
  rw [World.read_of_some hget]
  exact ⟨rfl, .advance w t⟩

end Ensure

/-- The get-or-create-or-update sequence settles its object. -/
theorem secures_createOrUpdate (hm : P.managed k desired.key = some m)
    (hfix : m desired.spec = desired.spec) (hk : k ≠ .secret) (hj : j ≠ k)
    (hc : Keeps A created) (hu : ∀ o, Keeps A (updating o)) :
    Secures A P j [(k, desired.key)] (createOrUpdate desired m created updating failed) := by
  intro w
  have ha : ∀ v, P.Appears k desired.key (desired.created v) := by
    intro v
    refine ⟨.inl (by rw [hm]; rfl), fun m' hm' => ?_⟩
    rw [hm, Option.some.injEq] at hm'
    rw [← hm', show (desired.created v).spec = _ from normalize_of_ne_secret hk desired.spec, hfix]
  simp only [forall_mem_singleton]
  refine wp_lookup ?_ ?_ ?_
  · intro e hne he t
    cases e with
    | notFound => exact absurd rfl hne
    | alreadyExists | conflict | invalid | other _ =>
      exact ⟨.refl P j _, nofun, fun hs => absurd he hs.not_faults⟩
  · intro hmissing t
    exact wp_createMissing (w := w.advance t) ha hj hc fun hs => hmissing.resolve_left hs.not_faults
  · intro cur hget t
    refine wp_bind.2 (wp_mono (within_monotone A) (hu cur _) fun _ w₁ hw₁ => ?_)
    have hget₁ : w₁.objects.get k desired.key = some cur := by rw [hw₁]; exact hget
    refine wp_update ?_ ?_
    · intro e he t'
      exact ⟨.of_eq hw₁, nofun, fun hs => absurd he hs.not_faults⟩
    · intro t'
      obtain ⟨v, g, hres, hstored, hother, -⟩ :=
        World.update_mapSpec (w := w₁.advance t') (f := m) hget₁ hk
      rw [hres]
      refine ⟨?_, fun _ => ⟨_, hstored, ?_⟩, fun _ => rfl⟩
      · have hd : P.Drift k desired.key cur ((cur.mapSpec m).versioned v g) := by
          rw [Policy.Drift, hm]
          exact ⟨v, g, .inr rfl⟩
        exact (Maintains.of_eq hw₁).trans
          (.of_evolves (.of_drift hget₁ hstored hd hother) hother hj)
      · intro m' hm'
        rw [hm, Option.some.injEq] at hm'
        rw [← hm']
        exact P.managed_idem hm cur.spec

/-- Creating an object keeps what holds of the created spec and of the stored one. -/
theorem wp_createMissing_keeps {R : Spec k → Prop} {w : World}
    (hdesired : R (normalize k desired.spec)) (hc : Keeps A created)
    (h : ∀ o, w.objects.get k desired.key = some o → R o.spec) :
    wp (within A) (createMissing desired created)
      (fun _ w' => ∀ o, w'.objects.get k desired.key = some o → R o.spec) w := by
  refine wp_create (fun _ _ _ => h) fun t => ?_
  cases hget : w.objects.get k desired.key with
  | some cur =>
    rw [World.create_of_some (w := w.advance t) hget]
    exact h
  | none =>
    rw [World.create_of_none (w := w.advance t) hget]
    refine wp_bind.2 (wp_mono (within_monotone A) (hc _) fun _ w' hw' o ho => ?_)
    have hstored : w'.objects.get k desired.key = some (desired.created (w.revision + 1)) := by
      rw [hw']
      exact Store.get_put_self _ (World.created_pinned desired _)
    rw [hstored, Option.some.injEq] at ho
    rw [← ho]
    exact hdesired

/-- What holds of the desired object and is kept by setting its managed part holds afterwards
if it held before. -/
theorem wp_createOrUpdate_keeps {R : Spec k → Prop} {w : World} (hk : k ≠ .secret)
    (hdesired : R desired.spec) (hmanage : ∀ sp, R sp → R (m sp)) (hc : Keeps A created)
    (hu : ∀ o, Keeps A (updating o)) (h : ∀ o, w.objects.get k desired.key = some o → R o.spec) :
    wp (within A) (createOrUpdate desired m created updating failed)
      (fun _ w' => ∀ o, w'.objects.get k desired.key = some o → R o.spec) w := by
  refine wp_lookup ?_ ?_ ?_
  · intro e hne _ t
    cases e with
    | notFound => exact absurd rfl hne
    | alreadyExists | conflict | invalid | other _ => exact h
  · rw [← normalize_of_ne_secret hk desired.spec] at hdesired
    exact fun _ t => wp_createMissing_keeps (w := w.advance t) hdesired hc h
  · intro cur hget t
    refine wp_bind.2 (wp_mono (within_monotone A) (hu cur _) fun _ w₁ hw₁ => ?_)
    have hget₁ : w₁.objects.get k desired.key = some cur := by rw [hw₁]; exact hget
    refine wp_update ?_ ?_
    · intro _ _ t' o ho
      rw [World.advance, hget₁, Option.some.injEq] at ho
      rw [← ho]
      exact h cur hget
    · intro t' o ho
      obtain ⟨v, g, -, hstored, -⟩ :=
        World.update_mapSpec (w := w₁.advance t') (f := m) hget₁ hk
      rw [hstored, Option.some.injEq] at ho
      rw [← ho]
      exact hmanage _ (h cur hget)

/-- On a settled object the sequence only writes it back unchanged. -/
theorem rests_createOrUpdate (hm : P.managed k desired.key = some m) (hk : k ≠ .secret)
    (hu : ∀ o, m o.spec = o.spec → updating o = return ()) :
    Rests P [(k, desired.key)] (createOrUpdate desired m created updating failed) := by
  intro w hs
  obtain ⟨cur, hget, hfix⟩ := hs (k, desired.key) mem_cons_self
  refine wp_get (fun e he => absurd he (not_faults_clean e)) fun t => ?_
  rw [World.read_of_some hget]
  show wp _ (updating cur >>= _) _ _
  rw [hu cur (hfix m hm)]
  refine wp_update (fun e he => absurd he (not_faults_clean e)) fun t' => ?_
  rw [World.update_mapSpec_of_eq (w := (w.advance t).advance t') hget hk (hfix m hm)]
  exact ⟨rfl, (World.Idle.advance w t).trans (.advance _ t')⟩

end CreateOrUpdate

section Sequences

variable {A : Ambient → Prop} {j : Kind} {ts ts' : List (Kind × NamespacedName)}
  {step rest : Action (Except GoError Unit)} {fail : GoError → GoError}

private theorem Secures.andThen (h : Secures A P j ts step) (h' : Secures A P j ts' rest) :
    Secures A P j (ts ++ ts') (step >>= fun
      | .error e => (return .error (fail e) : Action (Except GoError Unit))
      | .ok _ => rest) := by
  intro w
  refine wp_bind.2 (wp_mono (within_monotone A) (h w) ?_)
  rintro (e | _) w₁ ⟨hm₁, hs₁, hok₁⟩
  · exact ⟨hm₁, nofun, fun hs => nomatch hok₁ hs⟩
  · refine wp_mono (within_monotone A) (h' w₁) ?_
    rintro res w₂ ⟨hm₂, hs₂, hok₂⟩
    refine ⟨hm₁.trans hm₂, fun hres t ht => ?_, hok₂⟩
    rcases mem_append.1 ht with ht | ht
    · exact (hs₁ rfl t ht).evolves hm₂.1
    · exact hs₂ hres t ht

private theorem Rests.andThen (h : Rests P ts step) (h' : Rests P ts' rest) :
    Rests P (ts ++ ts') (step >>= fun
      | .error e => (return .error (fail e) : Action (Except GoError Unit))
      | .ok _ => rest) := by
  intro w hs
  have hleft := h w fun t ht => hs t (mem_append_left _ ht)
  refine wp_bind.2 (wp_mono (within_monotone _) hleft ?_)
  rintro _ w₁ ⟨rfl, hw₁⟩
  have hs₁ : ∀ t ∈ ts', Settled P w₁.objects t.1 t.2 := by
    obtain ⟨u, rfl⟩ := hw₁
    exact fun t ht => hs t (mem_append_right _ ht)
  exact wp_mono (within_monotone _) (h' w₁ hs₁) fun _ w₂ h₂ => ⟨h₂.1, hw₁.trans h₂.2⟩

/-- No step secures nothing. -/
theorem Secures.done : Secures A P j [] (return .ok ()) :=
  fun _ => ⟨.refl P j _, fun _ => forall_mem_nil _, fun _ => rfl⟩

/-- No step keeps up nothing. -/
theorem Upkeep.done : Upkeep A P j [] (return .ok ()) := ⟨.done, fun w _ => ⟨rfl, .refl w⟩⟩

/-- One step and the later ones secure the objects of both. -/
theorem Secures.untilError {as : List (Action (Except GoError Unit))}
    (h : Secures A P j ts step) (h' : Secures A P j ts' (untilError as)) :
    Secures A P j (ts ++ ts') (untilError (step :: as)) := h.andThen h'

/-- One step and the later ones keep up the objects of both. -/
theorem Upkeep.untilError {as : List (Action (Except GoError Unit))} (h : Upkeep A P j ts step)
    (h' : Upkeep A P j ts' (untilError as)) : Upkeep A P j (ts ++ ts') (untilError (step :: as)) :=
  ⟨h.secures.andThen h'.secures, h.rests.andThen h'.rests⟩

/-- The same for named steps. -/
theorem Upkeep.runSteps {name : GoString} {steps : List (GoString × Action (Except GoError Unit))}
    (h : Upkeep A P j ts step) (h' : Upkeep A P j ts' (runSteps steps)) :
    Upkeep A P j (ts ++ ts') (runSteps ((name, step) :: steps)) :=
  ⟨h.secures.andThen h'.secures, h.rests.andThen h'.rests⟩

/-- Steps after other steps run only if those succeed. -/
theorem wp_runSteps_append {T : Transformer Op Res World}
    {Q : Except GoError Unit → World → Prop} {w : World}
    (l l' : List (GoString × Action (Except GoError Unit))) :
    wp T (Kube.runSteps (l ++ l')) Q w ↔
      wp T (Kube.runSteps l) (fun res w' =>
        match res with
        | .error e => Q (.error e) w'
        | .ok _ => wp T (Kube.runSteps l') Q w') w := by
  induction l generalizing w with
  | nil => rfl
  | cons x l ih =>
    obtain ⟨name, step⟩ := x
    simp only [cons_append, Kube.runSteps, wp_bind]
    refine iff_of_eq (congrArg (fun R => wp T step R w) (funext fun res => funext fun w' => ?_))
    cases res with
    | error e => rfl
    | ok _ => exact propext ih

end Sequences

end Athos.Kube
