import Mathlib.Data.List.Sort

/-!
# Sorting slices

Go's `sort.Slice` is not stable: elements that compare equal end up in an order of its own choice.
The algorithm is a parameter that fixes only what the package documents. The exchange sort, two
nested loops that swap in place, is a function.
-/

namespace Athos.Base

open List

/-- A comparison that orders the classes of elements that it does not tell apart. -/
structure StrictWeak {α : Type} (less : α → α → Bool) : Prop where
  asymm : ∀ a b, less a b = true → less b a = false
  trans : ∀ a b c, less b a = false → less c b = false → less c a = false

/-- An implementation of `sort.Slice`. -/
structure SliceSort where
  sort : {α : Type} → (α → α → Bool) → List α → List α
  perm : ∀ {α : Type} (less : α → α → Bool) (xs : List α), (sort less xs).Perm xs
  sorted : ∀ {α : Type} {less : α → α → Bool}, StrictWeak less → ∀ xs : List α,
    (sort less xs).Pairwise fun a b => less b a = false

/-- Insertion sort is one. -/
def SliceSort.insertion : SliceSort where
  sort less xs := xs.insertionSort fun a b => less b a = false
  perm less xs := perm_insertionSort _ xs
  sorted {α less} hl xs := by
    have htotal : Std.Total fun a b : α => less b a = false := ⟨fun a b => by
      cases h : less b a with
      | false => exact .inl rfl
      | true => exact .inr (hl.asymm b a h)⟩
    have htrans : IsTrans α fun a b => less b a = false := ⟨hl.trans⟩
    exact pairwise_insertionSort _ xs

/-- A decreasing key compares strictly and weakly. -/
theorem strictWeak_of_key {α : Type} (key : α → Int) :
    StrictWeak fun a b => decide (key b < key a) where
  asymm a b h := by
    simp only [decide_eq_true_eq, decide_eq_false_iff_not] at *
    omega
  trans a b c h₁ h₂ := by
    simp only [decide_eq_false_iff_not] at *
    omega

/-- A key that goes first, and a comparison for elements with one key. -/
theorem StrictWeak.lex {α : Type} (key : α → Int) {less : α → α → Bool} (h : StrictWeak less) :
    StrictWeak fun a b => if key a ≠ key b then decide (key a < key b) else less a b where
  asymm a b hab := by
    have := h.asymm a b
    grind
  trans a b c hba hcb := by
    have := h.trans a b c
    grind

/-- If the comparison tells all elements apart, the first of the sorted slice is the one that no
other goes before. -/
theorem SliceSort.head?_sort_eq_some_iff (S : SliceSort) {α : Type} {less : α → α → Bool}
    (hl : StrictWeak less) {xs : List α} {a : α}
    (hanti : ∀ a ∈ xs, ∀ b ∈ xs, less a b = false → less b a = false → a = b) :
    (S.sort less xs).head? = some a ↔ a ∈ xs ∧ ∀ b ∈ xs, less b a = false := by
  have hirrefl : ∀ b, less b b = false := by
    intro b
    cases hb : less b b with
    | false => rfl
    | true => exact hb ▸ hl.asymm b b hb
  have hmem : ∀ b, b ∈ S.sort less xs ↔ b ∈ xs := fun b => (S.perm less xs).mem_iff
  have hsorted := S.sorted hl xs
  cases hsort : S.sort less xs with
  | nil =>
    simp only [hsort, not_mem_nil, false_iff] at hmem
    simp [hmem]
  | cons c rest =>
    rw [hsort] at hmem hsorted
    have hleast : ∀ b ∈ xs, less b c = false := by
      intro b hb
      rcases mem_cons.1 ((hmem b).2 hb) with rfl | hrest
      · exact hirrefl b
      · exact rel_of_pairwise_cons hsorted hrest
    have hc : c ∈ xs := (hmem c).1 mem_cons_self
    rw [head?_cons, Option.some_inj]
    constructor
    · rintro rfl
      exact ⟨hc, hleast⟩
    · rintro ⟨ha, hall⟩
      exact hanti c hc a ha (hall c hc) (hleast a ha)

section Exchange

variable {α : Type} (less : α → α → Bool)

/-- Swap two elements if the second is less. -/
def exchange (xs : List α) (i j : Nat) : List α :=
  match xs[i]?, xs[j]? with
  | some a, some b => if less b a then (xs.set i b).set j a else xs
  | _, _ => xs

/-- The inner loop: compare one element with so many from another on. -/
def exchangePass (i : Nat) : Nat → Nat → List α → List α
  | _, 0, xs => xs
  | j, n + 1, xs => exchangePass i (j + 1) n (exchange less xs i j)

/-- The outer loop. -/
def exchangeFrom : Nat → Nat → List α → List α
  | _, 0, xs => xs
  | i, n + 1, xs => exchangeFrom (i + 1) n (exchangePass less i (i + 1) n xs)

/-- The exchange sort. -/
def exchangeSort (xs : List α) : List α := exchangeFrom less 0 xs.length xs

/-- No element between two places is less than the first. -/
def Leads (xs : List α) (i j : Nat) : Prop :=
  ∀ k, i < k → k < j → ∀ x y, xs[i]? = some x → xs[k]? = some y → less y x = false

/-- The loop invariant: before `i` the elements are in order and lead all others, and that at
`i` leads those before `j`. -/
structure ExchangeInvariant (xs : List α) (i j : Nat) (ys : List α) : Prop where
  perm : ys.Perm xs
  done : ∀ k < i, Leads less ys k xs.length
  leads : Leads less ys i j

variable {xs ys : List α} {i j n : Nat}

private theorem exchange_cases (hij : i < j) (hj : j < xs.length) :
    ∃ a b, xs[i]? = some a ∧ xs[j]? = some b ∧
      (less b a = false ∧ exchange less xs i j = xs ∨
        less b a = true ∧ (exchange less xs i j).Perm xs ∧
          ∀ k, (exchange less xs i j)[k]? =
            if k = j then some a else if k = i then some b else xs[k]?) := by
  have hi : i < xs.length := Nat.lt_trans hij hj
  have hxi := getElem?_eq_getElem hi
  have hxj := getElem?_eq_getElem hj
  refine ⟨xs[i], xs[j], hxi, hxj, ?_⟩
  cases hless : less xs[j] xs[i] with
  | false =>
    refine .inl ⟨rfl, ?_⟩
    simp [exchange, hxi, hxj, hless]
  | true =>
    have heq : exchange less xs i j = (xs.set i xs[j]).set j xs[i] := by
      simp [exchange, hxi, hxj, hless]
    refine .inr ⟨rfl, ?_, fun k => ?_⟩
    · rw [heq]
      exact set_set_perm hi hj
    · rw [heq, getElem?_set, getElem?_set]
      simp only [length_set, hi, hj, if_true, eq_comm]

variable {less}

variable (hl : StrictWeak less)

include hl

private theorem ExchangeInvariant.exchange (h : ExchangeInvariant less xs i j ys) (hij : i < j)
    (hj : j < xs.length) : ExchangeInvariant less xs i (j + 1) (exchange less ys i j) := by
  have hlength := h.perm.length_eq
  obtain ⟨a, b, ha, hb, ⟨hnot, heq⟩ | ⟨hless, hperm, hget⟩⟩ :=
    exchange_cases less hij (hlength ▸ hj)
  · rw [heq]
    refine ⟨h.perm, h.done, fun k hik hk x y hx hy => ?_⟩
    by_cases hkj : k = j
    · subst hkj
      rw [ha] at hx
      rw [hb] at hy
      obtain ⟨rfl, rfl⟩ := And.intro (Option.some.inj hx) (Option.some.inj hy)
      exact hnot
    · exact h.leads k hik (by omega) x y hx hy
  · refine ⟨hperm.trans h.perm, fun m hm k hmk hk x y hx hy => ?_, fun k hik hk x y hx hy => ?_⟩
    · rw [hget, if_neg (by omega), if_neg (by omega)] at hx
      rw [hget] at hy
      split_ifs at hy
      · exact h.done m hm i hm (by omega) x y hx (ha.trans hy)
      · exact h.done m hm j (by omega) hj x y hx (hb.trans hy)
      · exact h.done m hm k hmk hk x y hx hy
    · rw [hget, if_neg (by omega), if_pos rfl] at hx
      rw [hget] at hy
      obtain rfl := Option.some.inj hx
      split_ifs at hy
      · obtain rfl := Option.some.inj hy
        exact hl.asymm _ _ hless
      · omega
      · exact hl.trans _ a _ (hl.asymm _ _ hless) (h.leads k hik (by omega) a y ha hy)

private theorem ExchangeInvariant.exchangePass (h : ExchangeInvariant less xs i j ys) (hij : i < j)
    (hn : j + n = xs.length) :
    ExchangeInvariant less xs i xs.length (exchangePass less i j n ys) := by
  induction n generalizing j ys with
  | zero => exact hn ▸ h
  | succ n ih => exact ih (h.exchange hl hij (by omega)) (by omega) (by omega)

private theorem ExchangeInvariant.exchangeFrom (h : ExchangeInvariant less xs i (i + 1) ys)
    (hn : i + n = xs.length) :
    ExchangeInvariant less xs xs.length (xs.length + 1) (exchangeFrom less i n ys) := by
  induction n generalizing i ys with
  | zero => exact hn ▸ h
  | succ n ih =>
    have hpass := h.exchangePass hl (n := n) (Nat.lt_succ_self i) (by omega)
    refine ih ⟨hpass.perm, fun k hk => ?_, fun k hik hk => by omega⟩ (by omega)
    rcases Nat.lt_succ_iff_lt_or_eq.1 hk with hlt | rfl
    · exact hpass.done k hlt
    · exact hpass.leads

/-- The exchange sort sorts. -/
theorem exchangeSort_spec (xs : List α) :
    (exchangeSort less xs).Perm xs ∧
      (exchangeSort less xs).Pairwise fun a b => less b a = false := by
  have hstart : ExchangeInvariant less xs 0 1 xs :=
    ⟨.refl xs, fun k hk => by omega, fun k h₀ h₁ => by omega⟩
  have hend : ExchangeInvariant less xs xs.length (xs.length + 1) (exchangeSort less xs) :=
    hstart.exchangeFrom hl (Nat.zero_add _)
  have hlength := hend.perm.length_eq
  refine ⟨hend.perm, pairwise_iff_getElem.2 fun i j hi hj hij => ?_⟩
  exact hend.done i (hlength ▸ hi) j hij (hlength ▸ hj) _ _ (getElem?_eq_getElem hi)
    (getElem?_eq_getElem hj)

end Exchange

end Athos.Base
