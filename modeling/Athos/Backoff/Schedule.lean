import Athos.Base.Float64

/-!
# Backoff schedules

`src/internal/backoff/backoff.go`: the exponential and the constant schedule, and the loop that
retries an operation after the delays of a schedule. Durations are nanoseconds. What a duration
times a float gives is a parameter, as it depends on the processor where the product is out of
range.
-/

namespace Athos.Backoff

open Base List

/-- `Schedule`; `backoff.go:31-35`. Both methods change the state of the schedule. -/
structure Schedule (σ : Type) where
  next : σ → (Int64 × Bool) × σ
  reset : σ → σ

/-- The operations on `float64` that the exponential schedule uses. -/
structure Floats (F : Type) where
  two : F
  nonpos : F → Bool
  scale : Int64 → F → Int64

/-- Those of finite numbers, as AMD64 has them. -/
def Floats.finite : Floats Rat where
  two := 2
  nonpos f := decide (f ≤ 0)
  scale d f := Float64.toInt64 ((Float64.round d.toInt).bind fun x => Float64.round (x * f))

/-- `Exponential`; `backoff.go:38-52`. -/
structure Exponential (F : Type) where
  initial : Int64
  factor : F
  cap : Int64
  maxRetries : Int64
  current : Int64 := 0
  count : Int64 := 0

section

variable {F : Type} (A : Floats F)

/-- `factor`; `backoff.go:81-86`. -/
def Exponential.factorOrTwo (e : Exponential F) : F := if A.nonpos e.factor then A.two else e.factor

/-- The first delay of a sequence; `backoff.go:60-63`. -/
def firstDelay (initial : Int64) : Int64 := if initial = 0 then 1000000000 else initial

/-- `Exponential.Next`; `backoff.go:55-73`. The value zero stands for a sequence that has not
started. -/
def Exponential.next (e : Exponential F) : (Int64 × Bool) × Exponential F :=
  if 0 < e.maxRetries ∧ e.maxRetries ≤ e.count then ((0, false), e)
  else
    let current :=
      if e.current = 0 then firstDelay e.initial
      else
        let next := A.scale e.current (e.factorOrTwo A)
        if 0 < e.cap ∧ e.cap < next then e.cap else next
    ((current, true), { e with current := current, count := e.count + 1 })

/-- `Exponential.Reset`; `backoff.go:76-79`. -/
def Exponential.reset (e : Exponential F) : Exponential F := { e with current := 0, count := 0 }

/-- The methods of `Exponential` as a schedule. -/
def Exponential.schedule : Schedule (Exponential F) := ⟨Exponential.next A, Exponential.reset⟩

end

/-- `Constant`; `backoff.go:90-95`. -/
structure Constant where
  delay : Int64
  maxRetries : Int64
  count : Int64 := 0

/-- `Constant.Next`; `backoff.go:98-104`. -/
def Constant.next (c : Constant) : (Int64 × Bool) × Constant :=
  if 0 < c.maxRetries ∧ c.maxRetries ≤ c.count then ((0, false), c)
  else ((c.delay, true), { c with count := c.count + 1 })

/-- `Constant.Reset`; `backoff.go:107`. -/
def Constant.reset (c : Constant) : Constant := { c with count := 0 }

/-- The methods of `Constant` as a schedule. -/
def Constant.schedule : Schedule Constant := ⟨Constant.next, Constant.reset⟩

/-- The methods of a schedule. -/
inductive Call where
  | next
  | reset
  deriving DecidableEq

section

variable {σ : Type} (S : Schedule σ)

/-- The state after a call. -/
def Schedule.call (s : σ) : Call → σ
  | .next => (S.next s).2
  | .reset => S.reset s

/-- The state after a sequence of calls. -/
def Schedule.after (s : σ) (calls : List Call) : σ := calls.foldl S.call s

private theorem Schedule.after_concat (s : σ) (calls : List Call) (c : Call) :
    S.after s (calls ++ [c]) = S.call (S.after s calls) c := by
  rw [after, foldl_append]
  rfl

private theorem Schedule.after_invariant {I : σ → Prop} (hnext : ∀ s, I s → I (S.next s).2)
    (hreset : ∀ s, I s → I (S.reset s)) {s : σ} (hs : I s) (calls : List Call) :
    I (S.after s calls) := by
  induction calls generalizing s with
  | nil => exact hs
  | cons c calls ih =>
    cases c with
    | next => exact ih (hnext s hs)
    | reset => exact ih (hreset s hs)

/-- The calls of `Next` since the last `Reset`. -/
def sinceReset (calls : List Call) : Nat := (calls.rtakeWhile (· = .next)).length

private theorem sinceReset_next (calls : List Call) :
    sinceReset (calls ++ [.next]) = sinceReset calls + 1 := by
  rw [sinceReset, rtakeWhile_concat_pos _ _ _ (by decide), length_append]
  rfl

private theorem sinceReset_reset (calls : List Call) : sinceReset (calls ++ [.reset]) = 0 := by
  rw [sinceReset, rtakeWhile_concat_neg _ _ _ (by decide)]
  rfl

/-- The schedule gives these delays, and then no more. -/
def Schedule.Yields : σ → List Int64 → Prop
  | s, [] => (S.next s).1.2 = false
  | s, d :: ds => (S.next s).1 = (d, true) ∧ Schedule.Yields (S.next s).2 ds

end

private theorem toInt_succ {n m : Int64} (h : n < m) : (n + 1).toInt = n.toInt + 1 := by
  have hlt := Int64.lt_iff_toInt_lt.1 h
  have hmax := m.toInt_lt
  have hmin := n.le_toInt
  rw [Int64.toInt_add, show (1 : Int64).toInt = 1 by decide]
  exact Int.bmod_eq_of_le (by omega) (by omega)

section

variable {F : Type} {A : Floats F} {e : Exponential F}

private theorem next_of_exhausted (h : 0 < e.maxRetries ∧ e.maxRetries ≤ e.count) :
    e.next A = ((0, false), e) := if_pos h

private theorem next_of_not_exhausted (h : ¬ (0 < e.maxRetries ∧ e.maxRetries ≤ e.count)) :
    ∃ d, e.next A = ((d, true), { e with current := d, count := e.count + 1 }) ∧
      (e.current = 0 → d = firstDelay e.initial) ∧ (e.current ≠ 0 → 0 < e.cap → d ≤ e.cap) := by
  refine ⟨_, if_neg h, fun hzero => if_pos hzero, fun hne hcap => ?_⟩
  rw [if_neg hne]
  simp only [hcap, true_and]
  split_ifs with hover
  · exact Int64.le_refl _
  · exact Int64.not_lt.1 hover

/-- What calls do not change. -/
structure SameConfig (e e' : Exponential F) : Prop where
  initial : e'.initial = e.initial
  factor : e'.factor = e.factor
  cap : e'.cap = e.cap
  maxRetries : e'.maxRetries = e.maxRetries

private theorem SameConfig.next {e' : Exponential F} (h : SameConfig e e') :
    SameConfig e (e'.next A).2 := by
  by_cases hend : 0 < e'.maxRetries ∧ e'.maxRetries ≤ e'.count
  · rw [next_of_exhausted hend]
    exact h
  · obtain ⟨d, hnext, -⟩ := next_of_not_exhausted (A := A) hend
    rw [hnext]
    exact ⟨h.initial, h.factor, h.cap, h.maxRetries⟩

private theorem sameConfig_after (A : Floats F) (e : Exponential F) (calls : List Call) :
    SameConfig e ((Exponential.schedule A).after e calls) :=
  Schedule.after_invariant _ (fun _ h => h.next)
    (fun _ h => ⟨h.initial, h.factor, h.cap, h.maxRetries⟩) ⟨rfl, rfl, rfl, rfl⟩ calls

private theorem next_le_cap (hcap : 0 < e.cap) (hfirst : firstDelay e.initial ≤ e.cap) {d : Int64}
    (h : (e.next A).1 = (d, true)) : d ≤ e.cap := by
  by_cases hend : 0 < e.maxRetries ∧ e.maxRetries ≤ e.count
  · rw [next_of_exhausted hend] at h
    cases (Prod.mk.inj h).2
  · obtain ⟨d', hnext, hzero, hgrown⟩ := next_of_not_exhausted (A := A) hend
    rw [hnext] at h
    obtain rfl := (Prod.mk.inj h).1
    by_cases hcurrent : e.current = 0
    · exact hzero hcurrent ▸ hfirst
    · exact hgrown hcurrent hcap

private theorem count_after (A : Floats F) (hstart : e.count = 0) (hpos : 0 < e.maxRetries)
    (calls : List Call) :
    ((Exponential.schedule A).after e calls).count.toInt =
      min (sinceReset calls : Int) e.maxRetries.toInt := by
  have hbound := Int64.lt_iff_toInt_lt.1 hpos
  rw [show (0 : Int64).toInt = 0 by decide] at hbound
  induction calls using List.reverseRecOn with
  | nil =>
    rw [show sinceReset [] = 0 from rfl, Schedule.after, foldl_nil, hstart,
      show (0 : Int64).toInt = 0 by decide]
    omega
  | append_singleton calls c ih =>
    have hmax := (sameConfig_after A e calls).maxRetries
    rw [Schedule.after_concat]
    generalize (Exponential.schedule A).after e calls = e' at ih hmax ⊢
    cases c with
    | reset =>
      rw [sinceReset_reset]
      show (0 : Int64).toInt = _
      rw [show (0 : Int64).toInt = 0 by decide]
      omega
    | next =>
      rw [sinceReset_next]
      show (e'.next A).2.count.toInt = _
      by_cases hend : e'.maxRetries ≤ e'.count
      · rw [next_of_exhausted ⟨hmax ▸ hpos, hend⟩]
        rw [hmax, Int64.le_iff_toInt_le] at hend
        push_cast
        omega
      · obtain ⟨d, hnext, -⟩ := next_of_not_exhausted (A := A) (e := e') fun h => hend h.2
        rw [hnext]
        show (e'.count + 1).toInt = _
        have hlt := Int64.not_le.1 hend
        rw [toInt_succ hlt]
        rw [hmax, Int64.lt_iff_toInt_lt] at hlt
        push_cast
        omega

private theorem next_ok_iff (hpos : 0 < e.maxRetries) :
    (e.next A).1.2 = true ↔ e.count < e.maxRetries := by
  by_cases hend : e.maxRetries ≤ e.count
  · rw [next_of_exhausted ⟨hpos, hend⟩]
    exact iff_of_false Bool.false_ne_true (Int64.not_lt.2 hend)
  · obtain ⟨d, hnext, -⟩ := next_of_not_exhausted (A := A) fun h => hend h.2
    rw [hnext]
    exact iff_of_true rfl (Int64.not_le.1 hend)

/-- A schedule yields as many delays as its bound has left. The induction is on their number. -/
theorem exists_yields (A : Floats F) (hpos : 0 < e.maxRetries) (n : Nat)
    (hn : n = (e.maxRetries.toInt - e.count.toInt).toNat) :
    ∃ ds, ds.length = n ∧ (∀ d ∈ ds, 0 < e.cap → firstDelay e.initial ≤ e.cap → d ≤ e.cap) ∧
      (Exponential.schedule A).Yields e ds := by
  induction n generalizing e with
  | zero =>
    refine ⟨[], rfl, nofun, Bool.eq_false_iff.2 fun hok => ?_⟩
    have hlt := Int64.lt_iff_toInt_lt.1 ((next_ok_iff hpos).1 hok)
    omega
  | succ n ih =>
    have hlt : e.count < e.maxRetries := Int64.lt_iff_toInt_lt.2 (by omega)
    obtain ⟨d, hnext, -⟩ := next_of_not_exhausted (A := A) (e := e) fun h =>
      Int64.not_lt.2 h.2 hlt
    have hcount := toInt_succ hlt
    obtain ⟨ds, hlength, hall, hyields⟩ := ih (e := { e with current := d, count := e.count + 1 })
      hpos (by simp only; omega)
    refine ⟨d :: ds, congrArg (· + 1) hlength, forall_mem_cons.2 ⟨?_, hall⟩,
      congrArg Prod.fst hnext, ?_⟩
    · exact fun hcap hfirst => next_le_cap hcap hfirst (congrArg Prod.fst hnext)
    · show (Exponential.schedule A).Yields (e.next A).2 ds
      rw [hnext]
      exact hyields

/-- The delays of a new schedule stay within its cap if the first one does; and of the calls
since the last reset as many succeed as there are retries. -/
theorem exponential_within_cap_iff (A : Floats F) (initial : Int64) (factor : F)
    (cap maxRetries : Int64) (hcap : 0 < cap) :
    let e : Exponential F := { initial, factor, cap, maxRetries }
    ((∀ calls d, (((Exponential.schedule A).after e calls).next A).1 = (d, true) → d ≤ cap) ∧
        (0 < maxRetries → ∀ calls,
          (((Exponential.schedule A).after e calls).next A).1.2 = true ↔
            (sinceReset calls : Int) < maxRetries.toInt)) ↔
      firstDelay initial ≤ cap := by
  intro e
  constructor
  · rintro ⟨hall, -⟩
    have hstart : ¬ (0 < e.maxRetries ∧ e.maxRetries ≤ e.count) := fun h =>
      Int64.not_lt.2 h.2 h.1
    obtain ⟨d, hnext, hzero, -⟩ := next_of_not_exhausted (A := A) hstart
    have hle := hall [] d (congrArg Prod.fst hnext)
    rwa [hzero rfl] at hle
  · intro hfirst
    constructor
    · intro calls d hd
      have hsame := sameConfig_after A e calls
      have hle := next_le_cap (by rw [hsame.cap]; exact hcap)
        (by rw [hsame.cap, hsame.initial]; exact hfirst) hd
      rwa [hsame.cap] at hle
    · intro hpos calls
      have hsame := sameConfig_after A e calls
      have hcount := count_after A (e := e) rfl hpos calls
      have hmax : ((Exponential.schedule A).after e calls).maxRetries = maxRetries :=
        hsame.maxRetries
      rw [next_ok_iff (by rw [hmax]; exact hpos), Int64.lt_iff_toInt_lt, hcount, hmax]
      show min _ maxRetries.toInt < _ ↔ _
      omega

/-- A schedule of the tests, with delays of 100 ms, 200 ms, and 300 ms from then on. -/
theorem small_initial_within_cap :
    let e : Exponential Rat :=
      { initial := 100000000, factor := 2, cap := 300000000, maxRetries := 3 }
    (0 : Int64) < 300000000 ∧
      ∀ calls d, (((Exponential.schedule .finite).after e calls).next .finite).1 = (d, true) →
        d ≤ 300000000 :=
  ⟨by decide, ((exponential_within_cap_iff .finite 100000000 2 300000000 3 (by decide)).2
    (by decide)).1⟩

/-- The first delay is above the cap, and the default delay as well. -/
theorem first_delay_above_cap :
    ((Exponential.next Floats.finite
        { initial := 10000000000, factor := 2, cap := 1000000000, maxRetries := 0 }).1 =
      (10000000000, true)) ∧
      ((Exponential.next Floats.finite
          { initial := 0, factor := 2, cap := 300000000, maxRetries := 0 }).1 =
        (1000000000, true)) :=
  ⟨rfl, rfl⟩

end

/-- What a retry does to the world. -/
inductive Event where
  | call
  | sleep (d : Int64)
  deriving DecidableEq

section

variable {σ E : Type}

/-- The loop of `Retry` from the given call of the operation on; `backoff.go:124-135`. A schedule
may have no end, so that the number of rounds is bounded. -/
def retryLoop (S : Schedule σ) (outcomes : Nat → Option E) :
    Nat → Nat → σ → Option (List Event × Option E)
  | 0, _, _ => none
  | rounds + 1, i, s =>
    match outcomes i with
    | none => some ([.call], none)
    | some last =>
      if (S.next s).1.2 then
        (retryLoop S outcomes rounds (i + 1) (S.next s).2).map fun r =>
          (.call :: .sleep (S.next s).1.1 :: r.1, r.2)
      else some ([.call], some last)

/-- `Retry`; `backoff.go:112-136`. The outcome of a call is its error, or none. -/
def retry (s : Option (Schedule σ × σ)) (outcomes : Nat → Option E) (rounds : Nat) :
    Option (List Event × Option E) :=
  match s with
  | none => some ([.call], outcomes 0)
  | some (S, s) => retryLoop S outcomes rounds 0 (S.reset s)

/-- The position of the first success, or that of the last call if there is none before it. -/
structure Attempts (outcomes : Nat → Option E) (n k : Nat) : Prop where
  pos : 0 < k
  le : k ≤ n + 1
  failed : ∀ i, i + 1 < k → outcomes i ≠ none
  last : outcomes (k - 1) = none ∨ k = n + 1

private theorem Attempts.succ (outcomes : Nat → Option E) {n k : Nat}
    (h : Attempts (fun i => outcomes (i + 1)) n k) (hfirst : outcomes 0 ≠ none) :
    Attempts outcomes (n + 1) (k + 1) where
  pos := Nat.succ_pos k
  le := Nat.succ_le_succ h.le
  failed i hi := by
    cases i with
    | zero => exact hfirst
    | succ i => exact h.failed i (by omega)
  last := by
    have hk : k + 1 - 1 = k - 1 + 1 := by
      have := h.pos
      omega
    rw [hk]
    exact h.last.imp id (congrArg (· + 1))

private theorem retryLoop_yields {S : Schedule σ} (outcomes : Nat → Option E) {s : σ}
    {ds : List Int64} (h : S.Yields s ds) {rounds : Nat} (hrounds : ds.length < rounds) (i : Nat) :
    ∃ k, Attempts (fun j => outcomes (i + j)) ds.length k ∧
      retryLoop S outcomes rounds i s =
        some ((ds.take (k - 1)).flatMap (fun d => [.call, .sleep d]) ++ [.call],
          outcomes (i + (k - 1))) := by
  induction ds generalizing s rounds i with
  | nil =>
    obtain ⟨rounds, rfl⟩ := Nat.exists_eq_succ_of_ne_zero (Nat.ne_of_gt hrounds)
    refine ⟨1, ⟨Nat.one_pos, Nat.le_refl _, fun j hj => by omega, .inr rfl⟩, ?_⟩
    have hend : (S.next s).1.2 = false := h
    cases hout : outcomes i <;> simp [retryLoop, hout, hend]
  | cons d ds ih =>
    obtain ⟨rounds, rfl⟩ := Nat.exists_eq_succ_of_ne_zero (Nat.ne_of_gt (Nat.lt_of_le_of_lt
      (Nat.zero_le _) hrounds))
    obtain ⟨hnext, hrest⟩ := h
    cases hout : outcomes i with
    | none =>
      refine ⟨1, ⟨Nat.one_pos, by omega, fun j hj => by omega, .inl hout⟩, ?_⟩
      simp [retryLoop, hout]
    | some err =>
      obtain ⟨k, hk, hloop⟩ := ih hrest (Nat.lt_of_succ_lt_succ hrounds) (i + 1)
      have hshift : (fun j => outcomes (i + 1 + j)) = fun j => outcomes (i + (j + 1)) := by
        funext j
        rw [Nat.add_assoc, Nat.add_comm 1]
      rw [hshift] at hk
      refine ⟨k + 1, Attempts.succ (fun j => outcomes (i + j)) hk (by simp [hout]), ?_⟩
      obtain ⟨k, rfl⟩ := Nat.exists_eq_succ_of_ne_zero (Nat.ne_of_gt hk.pos)
      have hindex : i + 1 + (k + 1 - 1) = i + (k + 1 + 1 - 1) := by omega
      simp only [retryLoop, hout, hnext, if_true, hloop, Option.map_some, hindex]
      simp

/-- The contract of `Retry`: as many calls as the delays allow, a delay of the schedule after
each but the last, and the outcome of the last call. -/
theorem retry_contract (S : Schedule σ) (s : σ) (ds : List Int64)
    (h : S.Yields (S.reset s) ds) (outcomes : Nat → Option E) (rounds : Nat)
    (hrounds : ds.length < rounds) :
    (∃ k, Attempts outcomes ds.length k ∧
      retry (some (S, s)) outcomes rounds =
        some ((ds.take (k - 1)).flatMap (fun d => [.call, .sleep d]) ++ [.call],
          outcomes (k - 1))) ∧
      retry (none : Option (Schedule σ × σ)) outcomes rounds = some ([.call], outcomes 0) := by
  refine ⟨?_, rfl⟩
  obtain ⟨k, hk, hloop⟩ := retryLoop_yields outcomes h hrounds 0
  simp only [Nat.zero_add] at hk hloop
  exact ⟨k, hk, hloop⟩

/-- Two failures and then a success, with a schedule that had been used before. -/
theorem retry_contract_constant :
    let c : Constant := { delay := 1000000, maxRetries := 2, count := 2 }
    let outcomes : Nat → Option Nat := fun i => if i < 2 then some i else none
    (Constant.schedule.Yields c.reset [1000000, 1000000] ∧ 2 < 3) ∧
      ∃ k, Attempts outcomes 2 k ∧ retry (some (Constant.schedule, c)) outcomes 3 =
        some (([1000000, 1000000].take (k - 1)).flatMap (fun d => [.call, .sleep d]) ++ [.call],
          outcomes (k - 1)) :=
  ⟨⟨⟨rfl, rfl, rfl⟩, by decide⟩,
    (retry_contract Constant.schedule ⟨1000000, 2, 2⟩ [1000000, 1000000] ⟨rfl, rfl, rfl⟩ _ 3
      (by decide)).1⟩

example : retry (some (Constant.schedule, ⟨1000000, 2, 2⟩))
    (fun i => if i < 2 then some i else none) 3 =
      some ([.call, .sleep 1000000, .call, .sleep 1000000, .call], none) := by
  decide

/-- `Retry` with an exponential schedule, used before or not, stops at the first success and
otherwise after one call more than there are retries, and never waits longer than the cap. -/
theorem retry_exponential {F : Type} (A : Floats F) (e : Exponential F) (hpos : 0 < e.maxRetries)
    (hcap : 0 < e.cap) (hfirst : firstDelay e.initial ≤ e.cap) (outcomes : Nat → Option E)
    (rounds : Nat) (hrounds : e.maxRetries.toInt.toNat < rounds) :
    ∃ (k : Nat) (delays : List Int64), Attempts outcomes e.maxRetries.toInt.toNat k ∧
      delays.length = k - 1 ∧ (∀ d ∈ delays, d ≤ e.cap) ∧
      retry (some (Exponential.schedule A, e)) outcomes rounds =
        some (delays.flatMap (fun d => [.call, .sleep d]) ++ [.call], outcomes (k - 1)) := by
  obtain ⟨ds, hlength, hle, hyields⟩ := exists_yields A (e := e.reset) hpos
    e.maxRetries.toInt.toNat (congrArg Int.toNat (Int.sub_zero _).symm)
  rw [← hlength] at hrounds ⊢
  obtain ⟨k, hk, hloop⟩ := retryLoop_yields outcomes hyields hrounds 0
  simp only [Nat.zero_add] at hk hloop
  have htake : (ds.take (k - 1)).length = k - 1 := by
    rw [length_take]
    have hbound := hk.le
    omega
  exact ⟨k, ds.take (k - 1), hk, htake, fun d hd => hle d (mem_of_mem_take hd) hcap hfirst,
    hloop⟩

/-- Three waits, of which the last is cut to the cap, and the error of the fourth try. -/
theorem retry_exponential_failing :
    let e : Exponential Rat := { initial := 4, factor := 2, cap := 10, maxRetries := 3 }
    ∃ (k : Nat) (delays : List Int64), Attempts (fun _ => some ()) 3 k ∧ delays.length = k - 1 ∧
      (∀ d ∈ delays, d ≤ 10) ∧
      retry (some (Exponential.schedule .finite, e)) (fun _ => some ()) 4 =
        some (delays.flatMap (fun d => [.call, .sleep d]) ++ [.call], some ()) :=
  retry_exponential .finite ⟨4, 2, 10, 3, 0, 0⟩ (by decide) (by decide) (by decide) _ 4 (by decide)

end

end Athos.Backoff
