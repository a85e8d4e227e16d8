import Athos.Base.Worker
import Athos.Kube.Effects

/-!
# The API server over time

A timeline keeps the states the API server went through and the requests a worker made with their
answers. A request is served on the newest state, possibly with a failure, or, if it is a lookup,
answered from any earlier state.
-/

namespace Athos.Kube

open Base Base.Prog

/-- The newest state, the earlier ones and the answered requests, newest first. -/
structure Timeline where
  world : World
  past : List World
  log : List ((op : Op) × Res op)
  ordered : ∀ h ∈ past, h.clock ≤ world.clock

/-- The answer of a lookup in a state. -/
def lateAnswer (h : World) : (op : Op) → Option (Res op)
  | .get k n => some (h.read k n)
  | _ => none

private theorem le_serve_clock (a : Ambient) (op : Op) (w : World) :
    w.clock ≤ (serve a op w).2.clock := by
  have hadv : w.clock ≤ (w.advance a.elapsed).clock :=
    Int.le_add_of_nonneg_right (Int.natCast_nonneg _)
  have hcommit : ∀ {k : Kind} (w : World) (cur next : Object k),
      (w.commit cur next).2.clock = w.clock := by
    intro k w cur next
    unfold World.commit
    split_ifs <;> rfl
  cases op with
  | get k n => unfold serve Ambient.guard; split <;> exact hadv
  | create k o =>
    unfold serve Ambient.guard World.create
    split
    · exact hadv
    · dsimp only
      split <;> exact hadv
  | update k o =>
    unfold serve Ambient.guard World.update
    split
    · exact hadv
    · dsimp only
      split
      · exact hadv
      · split_ifs
        · exact hadv
        · exact hadv
        · exact Int.le_trans hadv (Int.le_of_eq (hcommit ..).symm)
  | updateStatus k o =>
    unfold serve Ambient.guard World.updateStatus
    split
    · exact hadv
    · dsimp only
      split
      · exact hadv
      · split_ifs
        · exact hadv
        · exact Int.le_trans hadv (Int.le_of_eq (hcommit ..).symm)
  | now | randInt _ | exec _ _ _ _ | event _ => exact hadv

private theorem guard_cases {α : Type} {a : Ambient} {f : World → Except ApiError α × World}
    {w w' : World} {r : Except ApiError α} (h : a.guard f w = (r, w')) :
    (w' = w ∧ ∃ e, r = .error e) ∨ f w = (r, w') := by
  unfold Ambient.guard at h
  split at h
  · next e _ =>
    rw [Prod.mk.injEq] at h
    exact .inl ⟨h.2.symm, e, h.1.symm⟩
  · exact .inr h

namespace Timeline

/-- All states, newest first. -/
def worlds (s : Timeline) : List World := s.world :: s.past

/-- A timeline that starts with a state. -/
def begin (w : World) : Timeline := ⟨w, [], [], fun _ h => nomatch h⟩

/-- A request is answered now, or late. -/
def Answered (s : Timeline) (op : Op) (r : Res op) (w' : World) : Prop :=
  (∃ a, serve a op s.world = (r, w')) ∨
    ∃ h ∈ s.past, ∃ t, lateAnswer h op = some r ∧ w' = s.world.advance t

/-- One answered request. -/
structure Answers (op : Op) (s : Timeline) (r : Res op) (s' : Timeline) : Prop where
  answered : s.Answered op r s'.world
  past : s'.past = s.world :: s.past
  log : s'.log = ⟨op, r⟩ :: s.log

variable {s s' : Timeline} {k : Kind} {n : NamespacedName}

variable {r : Except ApiError (Object k)}

/-- The answer to a lookup is an error or what some state so far holds. -/
theorem Answers.get (h : Answers (.get k n) s r s') :
    (∃ t, s'.world = s.world.advance t) ∧
      ((∃ e, r = .error e) ∨ ∃ o, r = .ok o ∧ ∃ w ∈ s.worlds, w.objects.get k n = some o) := by
  have hread : ∀ w ∈ s.worlds, r = w.read k n → (∃ e, r = .error e) ∨
      ∃ o, r = .ok o ∧ ∃ w ∈ s.worlds, w.objects.get k n = some o := by
    intro w hw hr
    cases hget : w.objects.get k n with
    | none => exact .inl ⟨_, hr.trans (World.read_of_none hget)⟩
    | some o => exact .inr ⟨o, hr.trans (World.read_of_some hget), w, hw, hget⟩
  rcases h.answered with ⟨a, ha⟩ | ⟨w, hw, t, hl, hw'⟩
  · rcases guard_cases ha with ⟨hw', e, hr⟩ | ha
    · exact ⟨⟨_, hw'⟩, .inl ⟨e, hr⟩⟩
    · rw [Prod.mk.injEq] at ha
      exact ⟨⟨_, ha.2.symm⟩, hread s.world List.mem_cons_self ha.1.symm⟩
  · exact ⟨⟨t, hw'⟩, hread w (List.mem_cons_of_mem _ hw) (Option.some.inj hl).symm⟩

/-- The clock is read as it is afterwards. -/
theorem Answers.now {r : Time} (h : Answers .now s r s') :
    (∃ t, s'.world = s.world.advance t) ∧ r = s'.world.clock := by
  rcases h.answered with ⟨a, ha⟩ | ⟨w, hw, t, hl, hw'⟩
  · simp only [serve, Prod.mk.injEq] at ha
    exact ⟨⟨_, ha.2.symm⟩, by rw [← ha.1, ← ha.2]; rfl⟩
  · cases hl

/-- A creation fails without effect or is served. -/
theorem Answers.create {o : Object k} (h : Answers (.create k o) s r s') :
    ∃ t, (s'.world = s.world.advance t ∧ ∃ e, r = .error e) ∨
      (s.world.advance t).create o = (r, s'.world) := by
  rcases h.answered with ⟨a, ha⟩ | ⟨w, hw, t, hl, hw'⟩
  · rw [serve] at ha
    exact ⟨a.elapsed, guard_cases ha⟩
  · cases hl

/-- A status update fails without effect or is served. -/
theorem Answers.updateStatus {o : Object k} (h : Answers (.updateStatus k o) s r s') :
    ∃ t, (s'.world = s.world.advance t ∧ ∃ e, r = .error e) ∨
      (s.world.advance t).updateStatus o = (r, s'.world) := by
  rcases h.answered with ⟨a, ha⟩ | ⟨w, hw, t, hl, hw'⟩
  · rw [serve] at ha
    exact ⟨a.elapsed, guard_cases ha⟩
  · cases hl

/-- Every request can be answered as a server does. -/
theorem exists_answers (a : Ambient) (op : Op) (s : Timeline) :
    ∃ s', Answers op s (serve a op s.world).1 s' ∧ s'.world = (serve a op s.world).2 := by
  have hordered : ∀ h ∈ s.world :: s.past, h.clock ≤ (serve a op s.world).2.clock := by
    intro h hh
    rcases List.mem_cons.1 hh with rfl | hh
    · exact le_serve_clock a op _
    · exact Int.le_trans (s.ordered h hh) (le_serve_clock a op _)
  exact ⟨⟨(serve a op s.world).2, s.world :: s.past, ⟨op, (serve a op s.world).1⟩ :: s.log,
    hordered⟩, ⟨.inl ⟨a, rfl⟩, rfl, rfl⟩, rfl⟩

end Timeline
end Athos.Kube
