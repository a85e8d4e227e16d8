import Mathlib.Data.List.Basic

/-!
# Transactions

A list of statements executed in one transaction: all of them, or none. A transaction that leaves
behind what each of its statements asks for can be repeated: the second run changes nothing and ends
in the same way as the first.
-/

namespace Athos.Base.Transaction

open List

variable {σ τ : Type}

/-- Execute statements in one transaction, and whether it was committed. -/
def run (exec : τ → σ → Option σ) (ts : List τ) (s : σ) : σ × Bool :=
  match ts.foldlM (fun s t => exec t s) s with
  | none => (s, false)
  | some s' => (s', true)

/-- What statements ask for. A statement has nothing to do where it holds and does not undo what an
earlier one asked for, and those that are `repeatable` bring it about; `before t u` says that `t`
may stand before `u`. -/
structure Goal (exec : τ → σ → Option σ) (before : τ → τ → Prop) where
  holds : τ → σ → Prop
  repeatable : τ → Prop
  idle : ∀ {t s}, holds t s → exec t s = some s
  attained : ∀ {t s s'}, repeatable t → exec t s = some s' → holds t s'
  kept : ∀ {t u s s'}, before t u → holds t s → exec u s = some s' → holds t s'

variable {exec : τ → σ → Option σ} {before : τ → τ → Prop}

namespace Goal

variable {ts : List τ} {s s' : σ}

private theorem kept_run (G : Goal exec before) {t : τ} (ht : ∀ u ∈ ts, before t u)
    (h : G.holds t s) (hrun : ts.foldlM (fun s t => exec t s) s = some s') : G.holds t s' := by
  induction ts generalizing s with
  | nil => exact Option.some.inj hrun ▸ h
  | cons u ts ih =>
    rw [foldlM_cons] at hrun
    obtain ⟨s₁, hu, hts⟩ := Option.bind_eq_some_iff.1 hrun
    exact ih (fun u' hu' => ht u' (mem_cons_of_mem u hu'))
      (G.kept (ht u mem_cons_self) h hu) hts

private theorem attained_run (G : Goal exec before) (hts : ts.Pairwise before)
    (hrep : ∀ t ∈ ts, G.repeatable t)
    (hrun : ts.foldlM (fun s t => exec t s) s = some s') : ∀ t ∈ ts, G.holds t s' := by
  induction ts generalizing s with
  | nil => exact fun t ht => absurd ht not_mem_nil
  | cons u ts ih =>
    obtain ⟨hu, hts⟩ := pairwise_cons.1 hts
    obtain ⟨hrepu, hrep⟩ := forall_mem_cons.1 hrep
    rw [foldlM_cons] at hrun
    obtain ⟨s₁, hexec, hrest⟩ := Option.bind_eq_some_iff.1 hrun
    exact forall_mem_cons.2
      ⟨G.kept_run hu (G.attained hrepu hexec) hrest, ih hts hrep hrest⟩

private theorem idle_run (G : Goal exec before) (h : ∀ t ∈ ts, G.holds t s) :
    ts.foldlM (fun s t => exec t s) s = some s := by
  induction ts with
  | nil => rfl
  | cons t ts ih =>
    obtain ⟨ht, hts⟩ := forall_mem_cons.1 h
    rw [foldlM_cons, G.idle ht]
    exact ih hts

end Goal

/-- Running a transaction twice is running it once, in its effect and in its outcome. -/
theorem run_run (G : Goal exec before) {ts : List τ} (hts : ts.Pairwise before)
    (hrep : ∀ t ∈ ts, G.repeatable t) (s : σ) :
    run exec ts (run exec ts s).1 = run exec ts s := by
  cases h : ts.foldlM (fun s t => exec t s) s with
  | none => simp only [run, h]
  | some s' =>
    have hagain := G.idle_run (G.attained_run hts hrep h)
    simp only [run, h, hagain]

end Athos.Base.Transaction
