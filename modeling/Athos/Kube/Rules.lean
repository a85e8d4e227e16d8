import Athos.Base.History
import Athos.Kube.Effects

/-!
# Rules for requests

One weakest-precondition rule per request, for servers whose failures are within `A`: the request
fails with an error in `A` and only time passes, or it is served.
-/

namespace Athos.Kube

open Base Base.Prog

/-- Servers that decide within `A`. -/
abbrev within (A : Ambient → Prop) : Transformer Op Res World := served serve A

/-- The rules are monotone in the postcondition. -/
theorem within_monotone (A : Ambient → Prop) : (within A).Monotone := served_monotone serve A

/-- Some server within `A` answers a request with the error. -/
def Faults (A : Ambient → Prop) (e : ApiError) : Prop := ∃ a, A a ∧ a.fault = some e

/-- Clean requests do not fail. -/
theorem not_faults_clean (e : ApiError) : ¬ Faults Ambient.Clean e := by
  rintro ⟨a, ha, he⟩
  rw [ha.1] at he
  cases he

/-- The server does not deny an object that exists. -/
def Ambient.Honest (a : Ambient) : Prop := a.fault ≠ some .notFound

instance (a : Ambient) : Decidable a.Honest := inferInstanceAs (Decidable (_ ≠ _))

/-- An honest server does not lose objects. -/
theorem not_faults_honest : ¬ Faults Ambient.Honest .notFound := by
  rintro ⟨a, ha, he⟩
  exact ha he

/-- Calls of a controller, by servers that do not deny existing objects. -/
def calls {α : Type} (program : Action α) (initial : World → Prop) (edits : World → World → Prop) :
    Process Op Res α World Ambient where
  program := program
  serve := serve
  allowed := Ambient.Honest
  initial := initial
  edits := edits

/-- A call in which nothing fails. -/
def smoothCall {α : Type} (program : Action α) (w : World) : Call α World :=
  ⟨w, (run serve program [] w).1, (run serve program [] w).2⟩

/-- It can be the next call of every history. -/
theorem history_smoothCall {α : Type} {program : Action α} {initial : World → Prop}
    {edits : World → World → Prop} {h : List (Call α World)} {w : World}
    (hh : (calls program initial edits).History h w) :
    (calls program initial edits).History (smoothCall program w :: h)
      (smoothCall program w).after :=
  .call [] hh (List.forall_mem_nil _)

section

variable {A : Ambient → Prop} {α : Type} {k : Kind} {Q : α → World → Prop} {w : World}
  {f : Except ApiError (Object k) → Action α}

variable {g : World → Except ApiError (Object k) × World} {n : NamespacedName} {es : List Ambient}
  {o : Object k}

-- Every API request is guarded by the fault of its schedule entry.
private theorem wp_guard
    (hfault : ∀ e, Faults A e → ∀ t, wp (within A) (f (.error e)) Q (w.advance t))
    (hok : ∀ t, wp (within A) (f (g (w.advance t)).1) Q (g (w.advance t)).2) {a : Ambient}
    (ha : A a) :
    wp (within A) (f (a.guard g (w.advance a.elapsed)).1) Q
      (a.guard g (w.advance a.elapsed)).2 := by
  unfold Ambient.guard
  cases hf : a.fault with
  | some e => exact hfault e ⟨a, ha, hf⟩ _
  | none => exact hok _

/-- The rule of lookups: the request fails, or the answer is what is stored. -/
theorem wp_get (hfault : ∀ e, Faults A e → ∀ t, wp (within A) (f (.error e)) Q (w.advance t))
    (hok : ∀ t, wp (within A) (f (w.read k n)) Q (w.advance t)) :
    wp (within A) (Client.get k n >>= f) Q w := fun _ ha => wp_guard hfault hok ha

/-- A lookup fails, or it finds what is stored. It finds nothing if nothing is stored or if the
server denies what is. -/
theorem wp_lookup
    (hfault : ∀ e, e ≠ .notFound → Faults A e → ∀ t, wp (within A) (f (.error e)) Q (w.advance t))
    (hmissing : Faults A .notFound ∨ w.objects.get k n = none →
      ∀ t, wp (within A) (f (.error .notFound)) Q (w.advance t))
    (hfound : ∀ o, w.objects.get k n = some o → ∀ t, wp (within A) (f (.ok o)) Q (w.advance t)) :
    wp (within A) (Client.get k n >>= f) Q w := by
  refine wp_get (fun e he => ?_) fun t => ?_
  · by_cases hne : e = .notFound
    · subst hne
      exact hmissing (.inl he)
    · exact hfault e hne he
  · cases hget : w.objects.get k n with
    | none =>
      rw [World.read_of_none hget]
      exact hmissing (.inr hget) t
    | some o =>
      rw [World.read_of_some hget]
      exact hfound o hget t

/-- The requests of a run that starts with a lookup. -/
theorem mem_trace_get {x : (op : Op) × Res op} (hx : x ∈ trace serve (Client.get k n >>= f) es w) :
    x.1 = .get k n ∨ ∃ t,
      (∃ e, x ∈ trace serve (f (.error e)) es.tail (w.advance t)) ∨
        x ∈ trace serve (f (w.read k n)) es.tail (w.advance t) := by
  rcases List.mem_cons.1 hx with rfl | hx
  · exact .inl rfl
  · refine .inr ⟨(es.headD default).elapsed, ?_⟩
    simp only [serve, Ambient.guard] at hx
    cases hf : (es.headD default).fault with
    | some e =>
      rw [hf] at hx
      exact .inl ⟨e, hx⟩
    | none =>
      rw [hf] at hx
      exact .inr hx

/-- A run that starts with a lookup, by servers that do not deny existing objects. -/
theorem run_get (hes : ∀ a ∈ es, a.Honest) :
    ∃ r t, (r = w.read k n ∨ ∃ e, e ≠ .notFound ∧ r = .error e) ∧
      run serve (Client.get k n >>= f) es w = run serve (f r) es.tail (w.advance t) ∧
      trace serve (Client.get k n >>= f) es w =
        ⟨.get k n, r⟩ :: trace serve (f r) es.tail (w.advance t) := by
  have hhead : (es.headD default).Honest := by
    cases es with
    | nil => decide
    | cons a es => exact hes a List.mem_cons_self
  cases hf : (es.headD default).fault with
  | none =>
    refine ⟨w.read k n, (es.headD default).elapsed, .inl rfl, ?_, ?_⟩
    · simp only [Client.get, perform, call_bind, ret_bind, run, serve, Ambient.guard, hf]
      rfl
    · simp only [Client.get, perform, call_bind, ret_bind, trace, serve, Ambient.guard, hf]
      rfl
  | some e =>
    refine ⟨.error e, (es.headD default).elapsed, .inr ⟨e, ?_, rfl⟩, ?_⟩
    · rintro rfl
      exact hhead hf
    · constructor
      · simp only [Client.get, perform, call_bind, ret_bind, run, serve, Ambient.guard, hf]
      · simp only [Client.get, perform, call_bind, ret_bind, trace, serve, Ambient.guard, hf]

-- A last request that succeeds was not stopped by a fault.
private theorem guard_eq_ok {a : Ambient} (h : discard (a.guard g w).1 = .ok ()) :
    ∃ o, g w = (.ok o, (a.guard g w).2) := by
  unfold Ambient.guard at h ⊢
  cases hf : a.fault with
  | some e =>
    rw [hf] at h
    cases h
  | none =>
    rw [hf] at h
    cases hg : g w with
    | mk r w' =>
      simp only [hg] at h ⊢
      cases r with
      | error e => cases h
      | ok o => exact ⟨o, rfl⟩

/-- A creation as the last request of a successful call. -/
theorem run_create_last
    (h : (run serve (Client.create o >>= fun r => return discard r) es w).1 = .ok ()) :
    ∃ t o', (w.advance t).create o =
      (.ok o', (run serve (Client.create o >>= fun r => return discard r) es w).2) :=
  ⟨(es.headD default).elapsed, guard_eq_ok h⟩

/-- An update as the last request of a successful call. -/
theorem run_update_last
    (h : (run serve (Client.update o >>= fun r => return discard r) es w).1 = .ok ()) :
    ∃ t o', (w.advance t).update o =
      (.ok o', (run serve (Client.update o >>= fun r => return discard r) es w).2) :=
  ⟨(es.headD default).elapsed, guard_eq_ok h⟩

section

variable (hfault : ∀ e, Faults A e → ∀ t, wp (within A) (f (.error e)) Q (w.advance t))

include hfault

/-- The rule of `Create`. -/
theorem wp_create
    (hok : ∀ t, wp (within A) (f ((w.advance t).create o).1) Q ((w.advance t).create o).2) :
    wp (within A) (Client.create o >>= f) Q w := fun _ ha => wp_guard hfault hok ha

/-- The rule of `Update`. -/
theorem wp_update
    (hok : ∀ t, wp (within A) (f ((w.advance t).update o).1) Q ((w.advance t).update o).2) :
    wp (within A) (Client.update o >>= f) Q w := fun _ ha => wp_guard hfault hok ha

/-- The rule of status updates. -/
theorem wp_updateStatus (hok : ∀ t, wp (within A) (f ((w.advance t).updateStatus o).1) Q
      ((w.advance t).updateStatus o).2) :
    wp (within A) (Client.updateStatus o >>= f) Q w := fun _ ha => wp_guard hfault hok ha

end

/-- A status written on the stored revision fails without effect or is stored. -/
theorem wp_updateStatus_of_get {cur : Object k} (hget : w.objects.get k o.key = some cur)
    (hv : o.metadata.resourceVersion = cur.metadata.resourceVersion)
    (hfault : ∀ e, Faults A e → ∀ t, wp (within A) (f (.error e)) Q (w.advance t))
    (hok : ∀ v (w' : World), w'.objects.get k o.key = some (cur.withStatus o.status v) →
      w.objects.SameExcept w'.objects k o.key →
      wp (within A) (f (.ok (cur.withStatus o.status v))) Q w') :
    wp (within A) (Client.updateStatus o >>= f) Q w := by
  refine wp_updateStatus hfault fun t => ?_
  obtain ⟨v, hres, hstored, hother, -⟩ := World.updateStatus_spec (w := w.advance t) hget hv
  rw [hres]
  exact hok v _ hstored hother

/-- The rule of reading the clock. -/
theorem wp_now {f : Time → Action α}
    (hok : ∀ t : Nat, wp (within A) (f (w.clock + t)) Q (w.advance t)) :
    wp (within A) (Client.now >>= f) Q w := fun a _ => hok a.elapsed

/-- The rule of the random source. -/
theorem wp_randInt {bound : Nat} {f : Except GoString Nat → Action α}
    (hfault : ∀ a, A a → ∀ e, a.entropyFault = some e →
      wp (within A) (f (.error e)) Q (w.advance a.elapsed))
    (hok : ∀ i t, wp (within A) (f (.ok (i % bound))) Q (w.advance t)) :
    wp (within A) (Client.randInt bound >>= f) Q w := by
  intro a ha
  cases he : a.entropyFault with
  | some e =>
    simp only [serve, he]
    exact hfault a ha e he
  | none =>
    simp only [serve, he]
    exact hok _ _

/-- The rule of commands in a container. -/
theorem wp_exec {namespace_ pod container : GoString} {command : List GoString}
    {f : Except ExecFailure Unit → Action α} (h : ∀ res t, wp (within A) (f res) Q (w.advance t)) :
    wp (within A) (Client.exec namespace_ pod container command >>= f) Q w :=
  fun a _ => h _ a.elapsed

/-- The rule of events. -/
theorem wp_event {e : Event} {f : Unit → Action α}
    (hok : ∀ t, wp (within A) (f ()) Q { w.advance t with events := w.events ++ [e] }) :
    wp (within A) (Client.event e >>= f) Q w := fun a _ => hok a.elapsed

end

end Athos.Kube
