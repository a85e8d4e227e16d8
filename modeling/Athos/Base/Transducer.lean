import Mathlib.Algebra.GroupWithZero.Nat
import Mathlib.Data.List.Basic

/-!
# Transducers

A machine that reads one letter at a time and emits a list of outputs. Runs compose along
concatenation, so a run over a long text is assembled from runs over its pieces, each known once.
-/

namespace Athos.Base

open List

variable {σ α β : Type}

/-- Read all letters from the left, collecting the outputs in order. -/
def transduce (step : σ → α → σ × List β) : σ → List α → σ × List β
  | s, [] => (s, [])
  | s, a :: as =>
    ((transduce step (step s a).1 as).1, (step s a).2 ++ (transduce step (step s a).1 as).2)

/-- Reading `xs` takes the machine from `s` to `t` and emits exactly `ys`. -/
def Transduces (step : σ → α → σ × List β) (s : σ) (xs : List α) (t : σ) (ys : List β) : Prop :=
  transduce step s xs = (t, ys)

/-- A concatenation is read piece by piece. -/
theorem transduce_append (step : σ → α → σ × List β) (s : σ) (xs ys : List α) :
    transduce step s (xs ++ ys) =
      ((transduce step (transduce step s xs).1 ys).1,
        (transduce step s xs).2 ++ (transduce step (transduce step s xs).1 ys).2) := by
  induction xs generalizing s with
  | nil => simp [transduce]
  | cons x xs ih => simp only [cons_append, transduce, ih, append_assoc]

/-- A single letter is one step. -/
theorem transduce_singleton (step : σ → α → σ × List β) (s : σ) (a : α) :
    transduce step s [a] = step s a := by
  simp [transduce]

namespace Transduces

variable {step : σ → α → σ × List β} {s t u : σ} {xs ys : List α} {os ps : List β}

/-- Reading nothing changes nothing. -/
theorem nil (step : σ → α → σ × List β) (s : σ) : Transduces step s [] s [] := rfl

private theorem cons {a : α} (h : step s a = (t, os)) (hs : Transduces step t xs u ps) :
    Transduces step s (a :: xs) u (os ++ ps) := by
  unfold Transduces at hs ⊢
  rw [transduce, h, hs]

/-- Reading one letter that emits nothing first. -/
theorem silent {a : α} (h : step s a = (t, [])) (hs : Transduces step t xs u ps) :
    Transduces step s (a :: xs) u ps := cons h hs

/-- Runs over consecutive pieces compose. -/
theorem append (h₁ : Transduces step s xs t os) (h₂ : Transduces step t ys u ps) :
    Transduces step s (xs ++ ys) u (os ++ ps) := by
  unfold Transduces at *
  rw [transduce_append, h₁, h₂]

/-- Letters that are only collected. -/
theorem collect {f : List α → σ} (h : ∀ a ∈ xs, ∀ acc, step (f acc) a = (f (a :: acc), []))
    (acc : List α) : Transduces step (f acc) xs (f (xs.reverse ++ acc)) [] := by
  induction xs generalizing acc with
  | nil => rfl
  | cons a xs ih =>
    rw [reverse_cons, append_assoc]
    exact silent (h a mem_cons_self acc)
      (ih (fun b hb => h b (mem_cons_of_mem a hb)) (a :: acc))

end Transduces

/-- What every step keeps and emits, runs keep and emit. -/
theorem transduce_invariant {step : σ → α → σ × List β} {I : σ → Prop} {O : β → Prop}
    {xs : List α}
    (h : ∀ s, I s → ∀ a ∈ xs, I (step s a).1 ∧ ∀ o ∈ (step s a).2, O o) {s : σ} (hs : I s) :
    I (transduce step s xs).1 ∧ ∀ o ∈ (transduce step s xs).2, O o := by
  induction xs generalizing s with
  | nil => exact ⟨hs, nofun⟩
  | cons a xs ih =>
    obtain ⟨hnext, hout⟩ := h s hs a mem_cons_self
    obtain ⟨hlast, hrest⟩ := ih (fun s hs b hb => h s hs b (mem_cons_of_mem a hb)) hnext
    refine ⟨hlast, ?_⟩
    intro o ho
    rcases mem_append.1 ho with ho | ho
    · exact hout o ho
    · exact hrest o ho

section Weights

variable {step : σ → α → σ × List β} {held : σ → Nat} {emitted : β → Nat} {read : α → Nat}

/-- What a machine holds and emits is bounded by what it reads, if that is so for every step
of a run that keeps an invariant. -/
theorem transduce_weight_le_of_invariant {I : σ → Prop} {xs : List α}
    (h : ∀ s, I s → ∀ a ∈ xs, I (step s a).1 ∧
      held (step s a).1 + ((step s a).2.map emitted).sum ≤ held s + read a)
    {s : σ} (hs : I s) :
    held (transduce step s xs).1 + ((transduce step s xs).2.map emitted).sum ≤
      held s + (xs.map read).sum := by
  induction xs generalizing s with
  | nil => exact Nat.le_refl _
  | cons a xs ih =>
    obtain ⟨hnext, hstep⟩ := h s hs a mem_cons_self
    have hrest := ih (fun s hs b hb => h s hs b (mem_cons_of_mem a hb)) hnext
    simp only [transduce, map_append, sum_append, map_cons, sum_cons]
    omega

/-- The bound for machines that keep it from every state. -/
theorem transduce_weight_le
    (h : ∀ s a, held (step s a).1 + ((step s a).2.map emitted).sum ≤ held s + read a)
    (s : σ) (xs : List α) :
    held (transduce step s xs).1 + ((transduce step s xs).2.map emitted).sum ≤
      held s + (xs.map read).sum :=
  transduce_weight_le_of_invariant (I := fun _ => True) (fun s _ a _ => ⟨trivial, h s a⟩) trivial

/-- The bound for everything that comes out, if what the end of the text gives was held but for
a fixed amount. -/
theorem finished_weight_le {finish : σ → Option (List β)} {slack : Nat} {s : σ} {xs : List α}
    {out : List β}
    (hrun : held (transduce step s xs).1 + ((transduce step s xs).2.map emitted).sum ≤
      held s + (xs.map read).sum)
    (hfinish : ∀ t fs, finish t = some fs → (fs.map emitted).sum ≤ held t + slack)
    (h : (finish (transduce step s xs).1).map ((transduce step s xs).2 ++ ·) = some out) :
    (out.map emitted).sum ≤ held s + (xs.map read).sum + slack := by
  obtain ⟨fs, hfs, rfl⟩ := Option.map_eq_some_iff.1 h
  have hlast := hfinish _ fs hfs
  rw [map_append, sum_append]
  omega

/-- A count is the sum over the letters. -/
theorem sum_countP_singleton (p : α → Bool) (xs : List α) :
    (xs.map fun a => [a].countP p).sum = xs.countP p := by
  induction xs with
  | nil => rfl
  | cons a xs ih =>
    rw [map_cons, sum_cons, ih, ← List.countP_append, singleton_append]

end Weights

end Athos.Base
