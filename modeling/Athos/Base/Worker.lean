import Athos.Base.Prog
import Mathlib.Logic.Relation

/-!
# A worker and its environment

One worker runs a program again and again against a state that an environment changes between any
two of its requests. Requests are answered by a relation, so that failures and late answers are part
of it, and the worker may be lost half way. A weakest-precondition calculus, in which every request
is preceded by any number of environment steps, shows which requests the program makes in which
states; what the environment and these requests keep then holds along every run.
-/

namespace Athos.Base.Prog

open Relation

variable {Op : Type} {Res : Op → Type} {α β σ τ η : Type}

/-- What the worker runs, and what everyone else may do. -/
structure System (Op : Type) (Res : Op → Type) (α σ : Type) where
  program : Prog Op Res α
  environment : σ → σ → Prop
  answer : (op : Op) → σ → Res op → σ → Prop
  /-- The states in which the worker may be lost. -/
  abort : σ → Prop

/-- The state and what is left of the worker's program, if it is running. -/
structure Config (Op : Type) (Res : Op → Type) (α σ : Type) where
  state : σ
  worker : Option (Prog Op Res α)

namespace System

variable (S : System Op Res α σ)

/-- One step of the worker or of its environment. -/
inductive Step : Config Op Res α σ → Config Op Res α σ → Prop
  | environment {s s' : σ} {p : Option (Prog Op Res α)} :
    S.environment s s' → Step ⟨s, p⟩ ⟨s', p⟩
  | start {s : σ} : Step ⟨s, none⟩ ⟨s, some S.program⟩
  | call {op : Op} {k : Res op → Prog Op Res α} {s s' : σ} {r : Res op} :
    S.answer op s r s' → Step ⟨s, some (.call op k)⟩ ⟨s', some (k r)⟩
  | finish {a : α} {s : σ} : Step ⟨s, some (.ret a)⟩ ⟨s, none⟩
  | abort {p : Prog Op Res α} {s : σ} : S.abort s → Step ⟨s, some p⟩ ⟨s, none⟩

/-- A finite run. -/
abbrev Run : Config Op Res α σ → Config Op Res α σ → Prop := ReflTransGen S.Step

/-- Every request is made, after any environment steps, in a state that permits it. -/
def asks (P : Op → σ → Prop) : Transformer Op Res σ := fun op Φ s =>
  ∀ s₁, ReflTransGen S.environment s s₁ → P op s₁ ∧ ∀ r s₂, S.answer op s₁ r s₂ → Φ r s₂

/-- The environment does not break a fact. -/
def Stable (F : σ → Prop) : Prop := ∀ s s', S.environment s s' → F s → F s'

variable {S} {P : Op → σ → Prop}

private theorem Stable.run {F : σ → Prop} (hF : S.Stable F) {s s' : σ}
    (h : ReflTransGen S.environment s s') (hs : F s) : F s' := by
  induction h with
  | refl => exact hs
  | tail _ hstep ih => exact hF _ _ hstep ih

/-- A request made under a stable fact. -/
theorem wp_asks {F : σ → Prop} (hF : S.Stable F) {op : Op} {k : Res op → Prog Op Res β}
    {Q : β → σ → Prop} {s : σ} (hs : F s)
    (h : ∀ s₁, F s₁ → P op s₁ ∧ ∀ r s₂, S.answer op s₁ r s₂ → wp (S.asks P) (k r) Q s₂) :
    wp (S.asks P) (.call op k) Q s :=
  fun s₁ h₁ => h s₁ (hF.run h₁ hs)

/-- The program makes permitted requests only, and starts and ends in `J`. -/
structure Disciplined (S : System Op Res α σ) (P : Op → σ → Prop) (J : σ → Prop) : Prop where
  stable : S.Stable J
  program : ∀ {s}, J s → wp (S.asks P) S.program (fun _ s' => J s') s
  abort : ∀ {s}, S.abort s → J s

/-- What is left of the program makes permitted requests only. -/
def Safe (S : System Op Res α σ) (P : Op → σ → Prop) (J : σ → Prop)
    (c : Config Op Res α σ) : Prop :=
  match c.worker with
  | none => J c.state
  | some p => wp (S.asks P) p (fun _ s => J s) c.state

namespace Disciplined

variable {J : σ → Prop} {c c' : Config Op Res α σ} {s₀ : σ}

/-- What one step does to the state. -/
theorem step (h : Disciplined S P J) (hs : S.Safe P J c) (hstep : S.Step c c') :
    S.Safe P J c' ∧ (c'.state = c.state ∨ S.environment c.state c'.state ∨
      ∃ op r, P op c.state ∧ S.answer op c.state r c'.state) := by
  cases hstep with
  | @environment s s' p henv =>
    refine ⟨?_, .inr (.inl henv)⟩
    rcases p with _ | _ | ⟨op, k⟩
    · exact h.stable s s' henv hs
    · exact h.stable s s' henv hs
    · exact fun s₁ h₁ => hs s₁ (.head henv h₁)
  | start => exact ⟨h.program hs, .inl rfl⟩
  | call ha =>
    obtain ⟨hp, hk⟩ := hs _ .refl
    exact ⟨hk _ _ ha, .inr (.inr ⟨_, _, hp, ha⟩)⟩
  | finish => exact ⟨hs, .inl rfl⟩
  | abort ha => exact ⟨h.abort ha, .inl rfl⟩

private theorem safe (h : Disciplined S P J) (hj : J s₀) (hrun : S.Run ⟨s₀, none⟩ c) :
    S.Safe P J c := by
  induction hrun with
  | refl => exact hj
  | tail _ hstep ih => exact (h.step ih hstep).1

/-- What the environment and permitted requests keep holds along every run. -/
theorem invariant {I : σ → Prop} (h : Disciplined S P J)
    (henv : ∀ {s s'}, I s → S.environment s s' → I s')
    (hreq : ∀ {op s r s'}, I s → P op s → S.answer op s r s' → I s')
    (hi : I s₀) (hj : J s₀) (hrun : S.Run ⟨s₀, none⟩ c) : I c.state := by
  induction hrun with
  | refl => exact hi
  | @tail c₁ c₂ hpre hstep ih =>
    rcases (h.step (h.safe hj hpre) hstep).2 with heq | he | ⟨op, r, hp, ha⟩
    · rw [heq]
      exact ih
    · exact henv ih he
    · exact hreq ih hp ha

/-- Any two states of a run, in their order, are related as the environment and permitted
requests relate theirs. -/
theorem related {I : σ → Prop} {R : σ → σ → Prop} (h : Disciplined S P J)
    (henv : ∀ {s s'}, I s → S.environment s s' → I s')
    (hreq : ∀ {op s r s'}, I s → P op s → S.answer op s r s' → I s')
    (hrefl : ∀ s, R s s) (htrans : ∀ {s₁ s₂ s₃}, R s₁ s₂ → R s₂ s₃ → R s₁ s₃)
    (henvR : ∀ {s s'}, I s → S.environment s s' → R s s')
    (hreqR : ∀ {op s r s'}, I s → P op s → S.answer op s r s' → R s s')
    (hi : I s₀) (hj : J s₀) (hrun : S.Run ⟨s₀, none⟩ c) (hrun' : S.Run c c') :
    R c.state c'.state := by
  induction hrun' with
  | refl => exact hrefl _
  | @tail c₁ c₂ hpre hstep ih =>
    have hi₁ := h.invariant henv hreq hi hj (hrun.trans hpre)
    rcases (h.step (h.safe hj (hrun.trans hpre)) hstep).2 with heq | he | ⟨op, r, hp, ha⟩
    · rw [heq]
      exact ih
    · exact htrans ih (henvR hi₁ he)
    · exact htrans ih (hreqR hi₁ hp ha)

end Disciplined

/-- An undisturbed run of a program is a run of the system, if the system gives the same
answers. -/
theorem run_of_run [Inhabited η] {serve : η → (op : Op) → τ → Res op × τ} (view : σ → τ)
    {G : (op : Op) → Res op → Prop} (h : ∀ e op s, G op (serve e op (view s)).1 →
      ∃ s', S.answer op s (serve e op (view s)).1 s' ∧ view s' = (serve e op (view s)).2)
    (p : Prog Op Res α) {es : List η} {s : σ} (hg : ∀ x ∈ trace serve p es (view s), G x.1 x.2) :
    ∃ s', S.Run ⟨s, some p⟩ ⟨s', none⟩ ∧ view s' = (Prog.run serve p es (view s)).2 := by
  induction p generalizing es s with
  | ret a => exact ⟨s, .single .finish, rfl⟩
  | call op k ih =>
    obtain ⟨s₁, ha, hv⟩ := h (es.headD default) op s (hg _ List.mem_cons_self)
    have hg₁ : ∀ x ∈ trace serve (k (serve (es.headD default) op (view s)).1) es.tail (view s₁),
        G x.1 x.2 := by
      rw [hv]
      exact fun x hx => hg x (List.mem_cons_of_mem _ hx)
    obtain ⟨s₂, hrun, hv₂⟩ := ih _ hg₁
    exact ⟨s₂, .head (.call ha) hrun, by rw [hv₂, hv]; rfl⟩

end System
end Athos.Base.Prog
