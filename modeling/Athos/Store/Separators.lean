import Athos.Store.Entries
import Mathlib.Algebra.GroupWithZero.Nat
import Mathlib.Algebra.Order.BigOperators.Group.List
import Mathlib.Algebra.Order.Group.Nat
import Mathlib.Data.List.Nodup
import Mathlib.Data.List.Perm.Subperm

/-!
# The signs of a DSN

From the first entry that is not read as it was written, later entries may be split anywhere. What
can still be said of the tokens is how many signs `=` they take: each one for itself and those of
its value. The text has no more than its entries put there.
-/

namespace Athos.Store

open Base List

/-- The signs `=` of a text after another text. If `skip` is set, those of a key `host` after a
blank are left out. -/
def separatorsAfter (skip : Bool) : GoString → GoString → Nat
  | _, [] => 0
  | before, b :: s =>
    (if b = 0x3D ∧ ¬ (skip = true ∧ lit " host" <:+ before) then 1 else 0) +
      separatorsAfter skip (before ++ [b]) s

/-- The signs `=` of a text. -/
def separators (skip : Bool) (s : GoString) : Nat := separatorsAfter skip [] s

section Counting

variable {skip : Bool}

private theorem separatorsAfter_append (before s t : GoString) :
    separatorsAfter skip before (s ++ t) =
      separatorsAfter skip before s + separatorsAfter skip (before ++ s) t := by
  induction s generalizing before with
  | nil => simp [separatorsAfter]
  | cons b s ih => simp [separatorsAfter, ih, Nat.add_assoc]

private theorem host_suffix_append_cons {c : UInt8} (hc : c ∉ lit "host") (x y : GoString) :
    lit " host" <:+ x ++ c :: y ↔ lit " host" <:+ c :: y := by
  constructor
  · rintro ⟨t, ht⟩
    rcases append_eq_append_iff.1 ht with ⟨u, -, hu⟩ | ⟨u, -, hu⟩
    · cases u with
      | nil => exact ⟨[], hu⟩
      | cons a u =>
        -- the byte would stand inside the word
        have hword : lit "host" = u ++ c :: y := (List.cons.inj hu).2
        refine absurd ?_ hc
        rw [hword]
        simp
    · exact ⟨u, hu.symm⟩
  · exact fun h => h.trans (suffix_append x _)

private theorem host_suffix_cons {c : UInt8} (hc : c ∉ lit " host") (y : GoString) :
    lit " host" <:+ c :: y ↔ lit " host" <:+ y := by
  rw [suffix_cons_iff, or_iff_right]
  intro heq
  apply hc
  rw [heq]
  exact mem_cons_self

private theorem separatorsAfter_append_cons {c : UInt8} (hc : c ∉ lit "host") (x y s : GoString) :
    separatorsAfter skip (x ++ c :: y) s = separatorsAfter skip (c :: y) s := by
  induction s generalizing y with
  | nil => rfl
  | cons b s ih =>
    simp only [separatorsAfter, host_suffix_append_cons hc, append_assoc, cons_append, ih]

private theorem separatorsAfter_cons {c : UInt8} (hc : c ∉ lit " host") (y s : GoString) :
    separatorsAfter skip (c :: y) s = separatorsAfter skip y s := by
  induction s generalizing y with
  | nil => rfl
  | cons b s ih => simp only [separatorsAfter, host_suffix_cons hc, cons_append, ih]

/-- Without an equals sign nothing separates. -/
theorem separatorsAfter_of_not_mem {s : GoString} (h : 0x3D ∉ s) (before : GoString) :
    separatorsAfter skip before s = 0 := by
  induction s generalizing before with
  | nil => rfl
  | cons b s ih =>
    rw [mem_cons, not_or] at h
    rw [separatorsAfter, if_neg (fun hb => h.1 hb.1.symm), ih h.2]

private theorem separators_append_cons {c : UInt8} (hc : c ∉ lit "host=") (s t : GoString) :
    separators skip (s ++ c :: t) = separators skip s + separators skip (c :: t) := by
  have hhost : c ∉ lit "host" := fun h => hc (mem_append_left [0x3D] h)
  have hsign : c ≠ 0x3D := by
    rintro rfl
    exact hc (by decide)
  simp only [separators, separatorsAfter_append, separatorsAfter, hsign, false_and, if_false,
    nil_append, separatorsAfter_append_cons hhost s []]

private theorem separators_cons {c : UInt8} (hc : c ∉ lit " host=") (s : GoString) :
    separators skip (c :: s) = separators skip s := by
  have hhost : c ∉ lit " host" := fun h => hc (mem_append_left [0x3D] h)
  have hsign : c ≠ 0x3D := by
    rintro rfl
    exact hc (by decide)
  simp only [separators, separatorsAfter, hsign, false_and, if_false, nil_append,
    separatorsAfter_cons hhost, Nat.zero_add]

private theorem separators_assign {before : GoString} (h : 0x3D ∉ before) (s : GoString) :
    separators skip (before ++ 0x3D :: s) =
      (if skip = true ∧ lit " host" <:+ before then 0 else 1) + separators skip s := by
  have hrest : separatorsAfter skip (before ++ [0x3D]) s = separatorsAfter skip [] s := by
    rw [separatorsAfter_append_cons (by decide), separatorsAfter_cons (by decide)]
  simp only [separators, separatorsAfter_append, separatorsAfter_of_not_mem h, separatorsAfter,
    nil_append, hrest, true_and, ite_not, Nat.zero_add]

private theorem separators_le_append (s t : GoString) :
    separators skip s ≤ separators skip (s ++ t) := by
  rw [separators, separators, separatorsAfter_append]
  exact Nat.le_add_right _ _

private theorem separators_replaceByte (v : GoString) :
    separators skip (replaceByte 0x27 [0x5C, 0x27] v) = separators skip v := by
  by_cases hmem : 0x27 ∈ v
  · have hcut := cutByte_append hmem
    have ih := separators_replaceByte (cutByte 0x27 v).2
    rw [hcut, replaceByte_append, replaceByte_of_not_mem (not_mem_cutByte_fst _ _)]
    change separators skip ((cutByte 0x27 v).1 ++
      0x5C :: 0x27 :: replaceByte 0x27 [0x5C, 0x27] (cutByte 0x27 v).2) = _
    rw [separators_append_cons (by decide), separators_cons (by decide),
      separators_cons (by decide), ih, separators_append_cons (by decide),
      separators_cons (by decide)]
  · rw [replaceByte_of_not_mem hmem]
termination_by v.length
decreasing_by
  have hlen := congrArg List.length (cutByte_append hmem)
  rw [length_append, length_cons] at hlen
  omega

private theorem separators_valueText (v : GoString) :
    separators skip (valueText v) = separators skip v := by
  rw [valueText]
  split_ifs
  · rw [separators_cons (by decide), separators_append_cons (by decide), separators_replaceByte,
      separators_cons (by decide)]
    rfl
  · rfl

private theorem Entry.Written.separators_le {e : Entry} (h : e.Written) :
    separators skip e.text ≤ separators skip e.value := by
  unfold Entry.Written at h
  split_ifs at h with hneeds
  · rw [h, separators_valueText]
  · obtain ⟨u, hu⟩ := h
    rw [hu]
    exact separators_le_append _ _

private theorem trimSpace_host {s : GoString} (h : lit " host" <:+ s) :
    trimSpace s = lit "host" ∨ 0x20 ∈ trimSpace s := by
  obtain ⟨x, rfl⟩ := h
  have hdecode : decode (x ++ lit " host") =
      (decode x ++ (0x20, [0x20]) :: [(0x68, [0x68]), (0x6F, [0x6F]), (0x73, [0x73])]) ++
        [(0x74, [0x74])] := by
    have hword : decode (lit " host") = (0x20, [0x20]) ::
        [(0x68, [0x68]), (0x6F, [0x6F]), (0x73, [0x73]), (0x74, [0x74])] := by decide
    rw [show lit " host" = 0x20 :: lit "host" from rfl, decode_append_cons (by decide)]
    rw [show 0x20 :: lit "host" = lit " host" from rfl, hword]
    simp
  rw [trimSpace, hdecode, append_assoc, dropWhile_append]
  split_ifs with hspace
  · exact .inl (by decide)
  · right
    rw [← append_assoc, rdropWhile_concat_neg _ _ _ (by decide)]
    simp

private theorem trimSpace_append_of_isDsnSpace {s : GoString} (h : ∀ b ∈ s, isDsnSpace b = true)
    (t : GoString) : trimSpace (s ++ t) = trimSpace t := by
  induction s with
  | nil => rfl
  | cons b s ih =>
    rw [forall_mem_cons] at h
    have hb : b = 0x20 ∨ b = 0x09 ∨ b = 0x0A ∨ b = 0x0D := by
      simpa [isDsnSpace, or_assoc] using h.1
    rw [cons_append, trimSpace_cons, ih h.2]
    · rcases hb with rfl | rfl | rfl | rfl <;> decide
    · rcases hb with rfl | rfl | rfl | rfl <;> decide

private theorem separators_readValue {T : RuneTables} {key s v rest : GoString}
    (h : readValue T key s = .ok (v, rest)) :
    separators skip s = separators skip v + separators skip rest := by
  rcases readValue_eq_ok h with ⟨rfl, -⟩ | ⟨rfl, -, -, rfl | ⟨b, t, rfl, hb⟩⟩
  · rw [separators_cons (by decide), separators_append_cons (by decide),
      separators_cons (by decide)]
  · rw [append_nil]
    rfl
  · apply separators_append_cons
    intro hmem
    have hspace : ∀ c ∈ lit "host=", isDsnSpace c = false := forall_mem_of_all rfl
    rw [hspace b hmem] at hb
    cases hb

/-- Each token takes a sign `=` for itself, and those of its value. -/
theorem separators_tokens {T : RuneTables} {s : GoString} {ts : List (GoString × GoString)}
    (h : tokens T s = .ok ts) (hkeys : skip = true → ∀ p ∈ ts, p.1 ≠ lit "host" ∧ 0x20 ∉ p.1) :
    separators skip s = (ts.map fun p => 1 + separators skip p.2).sum := by
  have hs : s = s.takeWhile isDsnSpace ++ s.dropWhile isDsnSpace :=
    takeWhile_append_dropWhile.symm
  have hspace : ∀ b ∈ s.takeWhile isDsnSpace, isDsnSpace b = true :=
    fun b hb => mem_takeWhile_imp hb
  have hfree : 0x3D ∉ s.takeWhile isDsnSpace := fun hmem => absurd (hspace _ hmem) (by decide)
  rcases tokens_eq_ok h with ⟨hnil, rfl⟩ | ⟨p, rest, ts', hread, hrest, rfl⟩
  · rw [hs, hnil, append_nil]
    exact separatorsAfter_of_not_mem hfree []
  · obtain ⟨before, after, hd, hbefore, hkey, hvalue⟩ := readToken_eq_ok hread
    have hsign : ¬ (skip = true ∧ lit " host" <:+ s.takeWhile isDsnSpace ++ before) := by
      rintro ⟨hskip, hhost⟩
      have hp := hkeys hskip p mem_cons_self
      rw [hkey, ← trimSpace_append_of_isDsnSpace hspace before] at hp
      rcases trimSpace_host hhost with heq | hblank
      · exact hp.1 heq
      · exact hp.2 hblank
    have ih := separators_tokens hrest fun hskip q hq => hkeys hskip q (mem_cons_of_mem _ hq)
    rw [hs, hd, ← append_assoc, separators_assign (by simp [hfree, hbefore]), if_neg hsign,
      separators_readValue hvalue, ih, map_cons, sum_cons, Nat.add_assoc]
termination_by s.length
decreasing_by
  exact Nat.lt_of_lt_of_le (length_readToken hread) (dropWhile_sublist _).length_le

private theorem separators_following (l : List Entry) :
    separators skip (following l) = separators skip (0x20 :: joined l) := by
  cases l with
  | nil => rfl
  | cons e l => rfl

/-- The text of entries has no more signs than their keys and values. -/
theorem separators_joined_le {l : List Entry} (hkey : ∀ e ∈ l, IsKey e.key)
    (hwritten : ∀ e ∈ l, e.Written)
    (hhost : skip = true → ∀ e ∈ l, e.key = lit "host" → e.value = []) :
    separators skip (0x20 :: joined l) ≤
      ((l.filter fun e => !(skip && e.key == lit "host")).map
        fun e => 1 + separators skip e.value).sum := by
  induction l with
  | nil => exact Nat.zero_le _
  | cons e l ih =>
    rw [forall_mem_cons] at hkey hwritten
    have hrest := ih hkey.2 hwritten.2
      fun hskip e' he' => hhost hskip e' (mem_cons_of_mem _ he')
    have htext : separators skip e.text ≤ separators skip e.value := hwritten.1.separators_le
    have hsplit : separators skip (e.text ++ following l) =
        separators skip e.text + separators skip (0x20 :: joined l) := by
      rw [← separators_following]
      rcases following_cases l with hnil | ⟨t, ht⟩
      · rw [hnil, append_nil]
        rfl
      · rw [ht, separators_append_cons (by decide)]
    have hblank : 0x3D ∉ 0x20 :: e.key := by simp [hkey.1.no_equals]
    rw [joined_cons, ← cons_append, separators_assign hblank, hsplit, filter_cons]
    by_cases hskip : skip = true ∧ e.key = lit "host"
    · have hsuffix : lit " host" <:+ 0x20 :: e.key := by
        rw [hskip.2]
        exact suffix_rfl
      have hvalue := hhost hskip.1 e mem_cons_self hskip.2
      rw [hvalue] at htext
      rw [if_pos ⟨hskip.1, hsuffix⟩, if_neg (by simp [hskip])]
      have hzero : separators skip [] = 0 := rfl
      omega
    · have hkeep : (!(skip && e.key == lit "host")) = true := by
        by_contra hne
        exact hskip (by simpa using hne)
      rw [if_pos hkeep, map_cons, sum_cons]
      split_ifs <;> omega

end Counting

/-- Tokens with a value for each entry and one more have a larger sum. -/
theorem sum_add_le_sum (w : GoString → Nat) (get : GoString → GoString) (l : List Entry)
    {ts : List (GoString × GoString)} (hnodup : (l.map Entry.key).Nodup)
    (hmem : ∀ e ∈ l, (e.key, get e.key) ∈ ts) (hle : ∀ e ∈ l, w e.value ≤ w (get e.key))
    {k v : GoString} (hkv : (k, v) ∈ ts) (hv : v ≠ get k) :
    w v + (l.map fun e => w e.value).sum ≤ (ts.map fun p => w p.2).sum := by
  have hfresh : (k, v) ∉ l.map fun e => (e.key, get e.key) := by
    intro hin
    obtain ⟨e, -, heq⟩ := mem_map.1 hin
    obtain ⟨rfl, rfl⟩ := Prod.mk.inj heq
    exact hv rfl
  have hnodup' : ((k, v) :: l.map fun e => (e.key, get e.key)).Nodup := by
    refine nodup_cons.2 ⟨hfresh, List.Nodup.of_map Prod.fst ?_⟩
    rw [map_map]
    exact hnodup
  have hsubset : (k, v) :: (l.map fun e => (e.key, get e.key)) ⊆ ts := by
    rw [cons_subset]
    refine ⟨hkv, fun p hp => ?_⟩
    obtain ⟨e, he, rfl⟩ := mem_map.1 hp
    exact hmem e he
  obtain ⟨l', hperm, hsublist⟩ := hnodup'.subperm hsubset
  calc w v + (l.map fun e => w e.value).sum
      ≤ w v + (l.map fun e => w (get e.key)).sum :=
        Nat.add_le_add_left (sum_le_sum hle) _
    _ = (((k, v) :: l.map fun e => (e.key, get e.key)).map fun p => w p.2).sum := by
        simp [Function.comp_def]
    _ = (l'.map fun p => w p.2).sum := (hperm.map _).sum_eq.symm
    _ ≤ (ts.map fun p => w p.2).sum := (hsublist.map _).sum_le_sum fun _ _ => Nat.zero_le _

end Athos.Store
