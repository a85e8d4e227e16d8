import Athos.Base.Prog

/-!
# Repeated calls in a changing environment

A program is called again and again on a state that others change between the calls. A history keeps
what every call found, returned and left behind, newest first; what each call and each change keep
holds along every history.
-/

namespace Athos.Base.Prog

variable {Op : Type} {Res : Op → Type} {α σ η : Type}

/-- What a call found, returned and left behind. -/
structure Call (α σ : Type) where
  before : σ
  result : α
  after : σ

/-- What is called, on which server, and what others do. -/
structure Process (Op : Type) (Res : Op → Type) (α σ η : Type) where
  program : Prog Op Res α
  serve : η → (op : Op) → σ → Res op × σ
  /-- What the server may decide. -/
  allowed : η → Prop
  /-- The states in which a history may start. -/
  initial : σ → Prop
  /-- The changes between two calls. -/
  edits : σ → σ → Prop

namespace Process

variable [Inhabited η] (P : Process Op Res α σ η)

/-- The calls so far and the present state. -/
inductive History : List (Call α σ) → σ → Prop
  | start {s : σ} : P.initial s → History [] s
  | edit {h : List (Call α σ)} {s s' : σ} : History h s → P.edits s s' → History h s'
  | call {h : List (Call α σ)} {s : σ} (es : List η) : History h s → (∀ e ∈ es, P.allowed e) →
    History (⟨s, (run P.serve P.program es s).1, (run P.serve P.program es s).2⟩ :: h)
      (run P.serve P.program es s).2

variable {P} {h : List (Call α σ)} {s : σ}

/-- What holds initially and is kept by changes and calls holds along every history. -/
theorem History.invariant {I : List (Call α σ) → σ → Prop} (hd : P.allowed default)
    (hstart : ∀ s, P.initial s → I [] s) (hedit : ∀ h s s', I h s → P.edits s s' → I h s')
    (hcall : ∀ h s, I h s →
      wp (served P.serve P.allowed) P.program (fun a s' => I (⟨s, a, s'⟩ :: h) s') s)
    (hh : P.History h s) : I h s := by
  induction hh with
  | start hi => exact hstart _ hi
  | edit _ he ih => exact hedit _ _ _ ih he
  | call es _ hes ih => exact run_of_wp hd (hcall _ _ ih) hes

/-- What holds of a call on any state holds of every call of a history. -/
theorem History.of_mem {Q : Call α σ → Prop} (hd : P.allowed default)
    (hq : ∀ s, wp (served P.serve P.allowed) P.program (fun a s' => Q ⟨s, a, s'⟩) s)
    (hh : P.History h s) {x : Call α σ} (hx : x ∈ h) : Q x := by
  have hall : ∀ x ∈ h, Q x := by
    refine hh.invariant (I := fun h _ => ∀ x ∈ h, Q x) hd (fun _ _ => List.forall_mem_nil _)
      (fun _ _ _ ih _ => ih) fun h s ih => ?_
    refine wp_mono (served_monotone _ _) (hq s) fun a s' hx => ?_
    exact List.forall_mem_cons.2 ⟨hx, ih⟩
  exact hall x hx

end Process
end Athos.Base.Prog
