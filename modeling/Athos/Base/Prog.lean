import Mathlib.Data.List.Basic

/-!
# Programs over typed requests

A program is a tree of requests whose continuation is chosen by the answer. It runs against any
server that answers a request and changes a state; what the server decides by itself (failures,
time, randomness) comes from a schedule. Programs are reasoned about with weakest preconditions over
a transformer that says, for one request, which answers and states have to be considered.
-/

namespace Athos.Base

open List

/-- A program with requests `Op`, answered in `Res`, that ends with a value. -/
inductive Prog (Op : Type) (Res : Op → Type) (α : Type) where
  | ret (a : α)
  | call (op : Op) (k : Res op → Prog Op Res α)

namespace Prog

variable {Op : Type} {Res : Op → Type} {α β γ σ η : Type}

/-- Run the first program, then the second on its value. -/
def bind : Prog Op Res α → (α → Prog Op Res β) → Prog Op Res β
  | .ret a, f => f a
  | .call op k, f => .call op fun r => (k r).bind f

/-- One request. -/
def perform (op : Op) : Prog Op Res (Res op) := .call op .ret

instance : Monad (Prog Op Res) where
  pure := .ret
  bind := bind

/-- A finished program goes on with its value. -/
@[simp] theorem ret_bind (a : α) (f : α → Prog Op Res β) : (.ret a : Prog Op Res α) >>= f = f a :=
  rfl

/-- What follows a call follows its answer. -/
@[simp] theorem call_bind (op : Op) (k : Res op → Prog Op Res α) (f : α → Prog Op Res β) :
    .call op k >>= f = .call op fun r => k r >>= f := rfl

section Running

variable [Inhabited η] (serve : η → (op : Op) → σ → Res op × σ)

/-- Run against a server that decides along the schedule, and by default after its end. -/
def run : Prog Op Res α → List η → σ → α × σ
  | .ret a, _, s => (a, s)
  | .call op k, es, s =>
    run (k (serve (es.headD default) op s).1) es.tail (serve (es.headD default) op s).2

/-- The requests of a run with their answers, in order. -/
def trace : Prog Op Res α → List η → σ → List ((op : Op) × Res op)
  | .ret _, _, _ => []
  | .call op k, es, s =>
    ⟨op, (serve (es.headD default) op s).1⟩ ::
      trace (k (serve (es.headD default) op s).1) es.tail (serve (es.headD default) op s).2

/-- Repeated runs of one program, one schedule each; the values are dropped. -/
def runAll (p : Prog Op Res α) (ess : List (List η)) (s : σ) : σ :=
  ess.foldl (fun s es => (run serve p es s).2) s

/-- Calls that follow each other. -/
theorem runAll_append (p : Prog Op Res α) (ess ess' : List (List η)) (s : σ) :
    runAll serve p (ess ++ ess') s = runAll serve p ess' (runAll serve p ess s) :=
  foldl_append ..

end Running

/-- Every request the program can make, as long as answers satisfy `A`, satisfies `P`. -/
def Calls (A : (op : Op) → Res op → Prop) (P : Op → Prop) : Prog Op Res α → Prop
  | .ret _ => True
  | .call op k => P op ∧ ∀ r, A op r → Calls A P (k r)

variable {p : Prog Op Res α} {tr : List ((op : Op) × Res op)}

/-- The requests of a sequence are those of its parts. -/
theorem Calls.bind {A : (op : Op) → Res op → Prop} {P : Op → Prop} {f : α → Prog Op Res β}
    (hp : p.Calls A P) (hf : ∀ a, (f a).Calls A P) : (p >>= f).Calls A P := by
  induction p with
  | ret a => exact hf a
  | call op k ih => exact ⟨hp.1, fun r hr => ih r (hp.2 r hr)⟩

/-- No assumption about answers. -/
def anyAnswer : (op : Op) → Res op → Prop := fun _ _ => True

/-- The requests of an execution with their answers, whatever these are. An execution may be
cut at any request. -/
def Executes : Prog Op Res α → List ((op : Op) × Res op) → Prop
  | _, [] => True
  | .ret _, _ :: _ => False
  | .call op k, x :: tr => ∃ r, x = ⟨op, r⟩ ∧ Executes (k r) tr

private theorem executes_nil (p : Prog Op Res α) : p.Executes [] := by cases p <;> trivial

/-- What a server is asked is an execution of the program. -/
theorem executes_trace [Inhabited η] (serve : η → (op : Op) → σ → Res op × σ)
    (p : Prog Op Res α) (es : List η) (s : σ) : p.Executes (trace serve p es s) := by
  induction p generalizing es s with
  | ret a => trivial
  | call op k ih => exact ⟨_, rfl, ih _ _ _⟩

/-- The requests of an execution are among those of the program. -/
theorem Calls.of_mem {A : (op : Op) → Res op → Prop} {P : Op → Prop} (hp : p.Calls A P)
    (h : p.Executes tr) (hA : ∀ x ∈ tr, A x.1 x.2) {x : (op : Op) × Res op} (hx : x ∈ tr) :
    P x.1 := by
  induction tr generalizing p with
  | nil => cases hx
  | cons y tr ih =>
    cases p with
    | ret a => exact h.elim
    | call op k =>
      obtain ⟨r, rfl, h⟩ := h
      rcases mem_cons.1 hx with rfl | hx
      · exact hp.1
      · exact ih (hp.2 r (hA _ mem_cons_self)) h
          (fun z hz => hA z (mem_cons_of_mem _ hz)) hx

/-- A program may do at first what its first part does. -/
theorem Executes.bind (h : p.Executes tr) (f : α → Prog Op Res β) : (p >>= f).Executes tr := by
  induction p generalizing tr with
  | ret a =>
    cases tr with
    | nil => exact executes_nil _
    | cons x tr => exact h.elim
  | call op k ih =>
    cases tr with
    | nil => trivial
    | cons x tr =>
      obtain ⟨r, rfl, h⟩ := h
      exact ⟨r, rfl, ih r h⟩

/-- An execution to the end, with the value. -/
def Completes : Prog Op Res α → List ((op : Op) × Res op) → α → Prop
  | .ret a, tr, b => tr = [] ∧ a = b
  | .call op k, tr, b => ∃ r tr', tr = ⟨op, r⟩ :: tr' ∧ Completes (k r) tr' b

/-- A complete execution followed by one of the continuation. -/
theorem Completes.bind {f : α → Prog Op Res β} {a : α} {tr' : List ((op : Op) × Res op)}
    (h : p.Completes tr a) (h' : (f a).Executes tr') : (p >>= f).Executes (tr ++ tr') := by
  induction p generalizing tr with
  | ret b =>
    obtain ⟨rfl, rfl⟩ := h
    exact h'
  | call op k ih =>
    obtain ⟨r, tr₁, rfl, h⟩ := h
    exact ⟨r, rfl, ih r h⟩

/-- Which answers and next states a request may have, as a predicate transformer. -/
abbrev Transformer (Op : Type) (Res : Op → Type) (σ : Type) :=
  (op : Op) → (Res op → σ → Prop) → σ → Prop

/-- Every considered execution from the state ends in `Q`. -/
def wp (T : Transformer Op Res σ) : Prog Op Res α → (α → σ → Prop) → σ → Prop
  | .ret a, Q, s => Q a s
  | .call op k, Q, s => T op (fun r s' => wp T (k r) Q s') s

/-- A weaker goal for a request is reached whenever a stronger one is. -/
def Transformer.Monotone (T : Transformer Op Res σ) : Prop :=
  ∀ op (Φ Ψ : Res op → σ → Prop), (∀ r s, Φ r s → Ψ r s) → ∀ s, T op Φ s → T op Ψ s

section Rules

variable {T : Transformer Op Res σ} {p : Prog Op Res α} {Q Q' : α → σ → Prop} {s : σ}

/-- The rule of finished programs. -/
@[simp] theorem wp_ret {a : α} : wp T (.ret a : Prog Op Res α) Q s ↔ Q a s := Iff.rfl

private theorem wp_call {op : Op} {k : Res op → Prog Op Res α} :
    wp T (.call op k) Q s ↔ T op (fun r s' => wp T (k r) Q s') s := Iff.rfl

/-- Sequencing. -/
theorem wp_bind {f : α → Prog Op Res β} {Q : β → σ → Prop} :
    wp T (p >>= f) Q s ↔ wp T p (fun a s' => wp T (f a) Q s') s := by
  induction p generalizing s with
  | ret a => rfl
  | call op k ih =>
    rw [call_bind, wp_call, wp_call]
    have hk : (fun r s' => wp T (k r >>= f) Q s') =
        fun r s' => wp T (k r) (fun a s'' => wp T (f a) Q s'') s' :=
      funext fun r => funext fun s' => propext (ih r)
    rw [hk]

/-- Consequence. -/
theorem wp_mono (hT : T.Monotone) (h : wp T p Q s) (hq : ∀ a s, Q a s → Q' a s) :
    wp T p Q' s := by
  induction p generalizing s with
  | ret a => exact hq a s h
  | call op k ih => exact hT op _ _ (fun r _ hr => ih r hr) s h

/-- From every state the program ends in a state related to it. -/
def Within (T : Transformer Op Res σ) (R : σ → σ → Prop) (p : Prog Op Res α) : Prop :=
  ∀ s, wp T p (fun _ s' => R s s') s

/-- A finished program stays within every reflexive relation. -/
theorem Within.ret {R : σ → σ → Prop} (hr : ∀ s, R s s) (a : α) :
    Within T R (.ret a : Prog Op Res α) := fun s => hr s

/-- Relations that compose hold along sequences. -/
theorem Within.bind {R : σ → σ → Prop} {f : α → Prog Op Res β} (hT : T.Monotone)
    (ht : ∀ s₁ s₂ s₃, R s₁ s₂ → R s₂ s₃ → R s₁ s₃) (hp : Within T R p)
    (hf : ∀ a, Within T R (f a)) : Within T R (p >>= f) := by
  intro s
  rw [wp_bind]
  exact wp_mono hT (hp s) fun a s₁ h₁ => wp_mono hT (hf a s₁) fun _ s₂ h₂ => ht s s₁ s₂ h₁ h₂

end Rules

section Served

variable (serve : η → (op : Op) → σ → Res op × σ) (allowed : η → Prop)

/-- All answers of a server that decides within `allowed`. -/
def served : Transformer Op Res σ :=
  fun op Φ s => ∀ e, allowed e → Φ (serve e op s).1 (serve e op s).2

/-- What is served is monotone in the postcondition. -/
theorem served_monotone : (served serve allowed).Monotone :=
  fun _ _ _ h _ hs e he => h _ _ (hs e he)

variable {serve allowed} {p : Prog Op Res α} {Q : α → σ → Prop} {s : σ}

/-- What holds in every state holds at the end of every program. -/
theorem wp_of_forall (h : ∀ a s, Q a s) (p : Prog Op Res α) (s : σ) :
    wp (served serve allowed) p Q s := by
  induction p generalizing s with
  | ret a => exact h a s
  | call op k ih => exact fun e _ => ih _ _

/-- Two postconditions hold together. -/
theorem wp_and {Q' : α → σ → Prop} (h : wp (served serve allowed) p Q s)
    (h' : wp (served serve allowed) p Q' s) :
    wp (served serve allowed) p (fun a s => Q a s ∧ Q' a s) s := by
  induction p generalizing s with
  | ret a => exact ⟨h, h'⟩
  | call op k ih => exact fun e he => ih _ (h e he) (h' e he)

/-- A weakest precondition speaks about every run with an allowed schedule. -/
theorem run_of_wp [Inhabited η] (hd : allowed default) (h : wp (served serve allowed) p Q s)
    {es : List η} (hes : ∀ e ∈ es, allowed e) :
    Q (run serve p es s).1 (run serve p es s).2 := by
  induction p generalizing s es with
  | ret a => exact h
  | call op k ih =>
    have he : allowed (es.headD default) := by
      cases es with
      | nil => exact hd
      | cons e es => exact hes e mem_cons_self
    exact ih _ (h _ he) fun e hm => hes e (mem_of_mem_tail hm)

/-- Where every answer is allowed, it speaks about every run. -/
theorem run_of_wp_any [Inhabited η] (h : wp (served serve fun _ => True) p Q s) (es : List η) :
    Q (run serve p es s).1 (run serve p es s).2 :=
  run_of_wp trivial h fun _ _ => trivial

/-- What one run of a program keeps, repeated runs keep. -/
theorem runAll_induction [Inhabited η] {I : σ → Prop}
    (hp : ∀ s, I s → ∀ es, I (run serve p es s).2) (ess : List (List η)) (hs : I s) :
    I (runAll serve p ess s) := by
  induction ess generalizing s with
  | nil => exact hs
  | cons es ess ih => exact ih (hp s hs es)

end Served

end Prog
end Athos.Base
