import Athos.Base.GoMap
import Athos.Base.Transducer

/-!
# Connection strings of keywords and values

How libpq reads a connection string that is not a URI: keywords and values with an equals sign
between them. Blanks around the equals sign are skipped. A value ends at a blank or stands in single
quotes, and a backslash takes the next byte as it is. Where a keyword is given twice the later value
counts; an unknown keyword makes the string wrong. Which keywords are known differs between versions
and is a parameter.
-/

namespace Athos.Libpq.Conninfo

open Base List

/-- A keyword and its value. -/
abbrev Pair := GoString × GoString

/-- The keywords of a version of libpq. -/
structure Keywords where
  known : GoString → Bool
  connection : ∀ keyword ∈ [lit "host", lit "port", lit "user", lit "password",
    lit "application_name"], known keyword = true

/-- Reader states. Accumulators hold the bytes read so far, last byte first. -/
inductive Mode where
  | start
  | keyword (acc : GoString)
  | afterKeyword (keyword : GoString)
  | assigned (keyword : GoString)
  | bare (keyword acc : GoString)
  | bareEscape (keyword acc : GoString)
  | quoted (keyword acc : GoString)
  | quotedEscape (keyword acc : GoString)
  | failed
  deriving DecidableEq

/-- One byte of input. -/
def step : Mode → UInt8 → Mode × List Pair
  | .start, b =>
    (if isCSpace b then .start else if b = 0x3D then .assigned [] else .keyword [b], [])
  | .keyword acc, b =>
    (if b = 0x3D then .assigned acc.reverse
      else if isCSpace b then .afterKeyword acc.reverse else .keyword (b :: acc), [])
  | .afterKeyword k, b =>
    (if isCSpace b then .afterKeyword k else if b = 0x3D then .assigned k else .failed, [])
  | .assigned k, b =>
    (if isCSpace b then .assigned k else if b = 0x27 then .quoted k []
      else if b = 0x5C then .bareEscape k [] else .bare k [b], [])
  | .bare k acc, b =>
    if isCSpace b then (.start, [(k, acc.reverse)])
    else (if b = 0x5C then .bareEscape k acc else .bare k (b :: acc), [])
  | .bareEscape k acc, b => (.bare k (b :: acc), [])
  | .quoted k acc, b =>
    if b = 0x27 then (.start, [(k, acc.reverse)])
    else (if b = 0x5C then .quotedEscape k acc else .quoted k (b :: acc), [])
  | .quotedEscape k acc, b => (.quoted k (b :: acc), [])
  | .failed, _ => (.failed, [])

/-- The end of the string may not come within a keyword or quotes. -/
def finish : Mode → Option (List Pair)
  | .start => some []
  | .assigned k => some [(k, [])]
  | .bare k acc | .bareEscape k acc => some [(k, acc.reverse)]
  | .keyword _ | .afterKeyword _ | .quoted .. | .quotedEscape .. | .failed => none

/-- The pairs of a string in order. -/
def pairs (text : GoString) : Option (List Pair) :=
  (finish (transduce step .start text).1).map ((transduce step .start text).2 ++ ·)

/-- The options of a connection string. -/
def parse (K : Keywords) (text : GoString) : Option (GoMap GoString) :=
  (pairs text).bind fun ps => if ps.all (K.known ·.1) then some (collect ps) else none

/-- Bytes that stand for themselves in a value without quotes. -/
def isPlain (b : UInt8) : Bool := !isCSpace b && b != 0x27 && b != 0x5C

section Plain

variable {k v : GoString}

private theorem transduces_bare (h : ∀ b ∈ v, isPlain b = true) (acc : GoString) :
    Transduces step (.bare k acc) v (.bare k (v.reverse ++ acc)) [] := by
  apply Transduces.collect
  intro b hb acc
  have hplain := h b hb
  simp only [isPlain, Bool.and_eq_true, Bool.not_eq_true', bne_iff_ne, ne_eq] at hplain
  simp only [step, hplain.1.1, hplain.2, Bool.false_eq_true, ↓reduceIte]

private theorem transduces_assigned (h : ∀ b ∈ v, isPlain b = true) (hne : v ≠ []) :
    Transduces step (.assigned k) v (.bare k v.reverse) [] := by
  cases v with
  | nil => exact absurd rfl hne
  | cons b v =>
    have hb := h b mem_cons_self
    simp only [isPlain, Bool.and_eq_true, Bool.not_eq_true', bne_iff_ne, ne_eq] at hb
    have hopen : step (.assigned k) b = (.bare k [b], []) := by
      simp only [step, hb.1.1, hb.1.2, hb.2, Bool.false_eq_true, ↓reduceIte]
    have hrest := transduces_bare (k := k) (fun c hc => h c (mem_cons_of_mem b hc)) [b]
    rw [reverse_cons]
    exact Transduces.silent hopen hrest

/-- A value and the blank after it. -/
theorem transduces_value (h : ∀ b ∈ v, isPlain b = true) (hne : v ≠ []) :
    Transduces step (.assigned k) (v ++ [0x20]) .start [(k, v)] := by
  have hblank : Transduces step (.bare k v.reverse) [0x20] .start [(k, v)] := by
    simp [Transduces, transduce, step, isCSpace]
  exact (transduces_assigned h hne).append hblank

/-- A string is read to its end if the rest of it is one value, which may be empty. -/
theorem pairs_of_transduces {text : GoString} {ps : List Pair}
    (h : Transduces step .start text (.assigned k) ps) (hv : ∀ b ∈ v, isPlain b = true) :
    pairs (text ++ v) = some (ps ++ [(k, v)]) := by
  by_cases hne : v = []
  · subst hne
    unfold Transduces at h
    rw [append_nil, pairs, h]
    rfl
  · have hrun := h.append (transduces_assigned hv hne)
    unfold Transduces at hrun
    rw [pairs, hrun, append_nil]
    simp [finish]

end Plain

/-- The bytes that a pair takes, with the equals sign and the blank after it. -/
def cost (p : Pair) : Nat := p.1.length + p.2.length + 2

/-- The bytes that were read for the pending pair. -/
private def pending : Mode → Nat
  | .start | .failed => 0
  | .keyword acc | .afterKeyword acc => acc.length
  | .assigned k => k.length + 1
  | .bare k acc | .bareEscape k acc => k.length + acc.length + 1
  | .quoted k acc | .quotedEscape k acc => k.length + acc.length + 2

private theorem pending_step (m : Mode) (b : UInt8) :
    pending (step m b).1 + ((step m b).2.map cost).sum ≤ pending m + 1 := by
  cases m with
  | bareEscape | quotedEscape | failed =>
    simp [step, pending, ← Nat.add_assoc]
  | _ =>
    simp only [step]
    split_ifs <;> simp [pending, cost] <;> omega

/-- The pairs of a string fit into it, each with a blank or quotes. -/
theorem cost_pairs_le {text : GoString} {ps : List Pair} (h : pairs text = some ps) :
    (ps.map cost).sum ≤ text.length + 1 := by
  have hfinish : ∀ m fs, finish m = some fs → (fs.map cost).sum ≤ pending m + 1 := by
    intro m fs hfs
    cases m <;> simp only [finish, Option.some.injEq, reduceCtorEq] at hfs <;>
      subst hfs <;> simp [pending, cost]
  have hle := finished_weight_le (transduce_weight_le pending_step .start text) hfinish h
  rw [map_const', sum_replicate_nat] at hle
  have hstart : pending .start = 0 := rfl
  omega

/-- The bytes that a pair takes in a string without quotes, without blanks. -/
def size (p : Pair) : Nat := p.1.length + p.2.length + 1

/-- The bytes other than blanks. -/
def solid (s : GoString) : Nat := s.countP (!isCSpace ·)

/-- The reader is neither in quotes nor behind a backslash. -/
private def plain : Mode → Bool
  | .bareEscape .. | .quoted .. | .quotedEscape .. => false
  | .start | .keyword _ | .afterKeyword _ | .assigned _ | .bare .. | .failed => true

private theorem plain_step {m : Mode} (hm : plain m = true) {b : UInt8} (hquote : b ≠ 0x27)
    (hslash : b ≠ 0x5C) :
    plain (step m b).1 = true ∧
      pending (step m b).1 + ((step m b).2.map size).sum ≤ pending m + solid [b] := by
  have hequals : isCSpace 0x3D = false := rfl
  cases m with
  | bareEscape | quoted | quotedEscape => cases hm
  | failed => simp [step, plain, pending]
  | _ =>
    simp only [step, if_neg hquote, if_neg hslash]
    split_ifs <;> simp_all [plain, pending, size, solid] <;> omega

/-- In a string without quotes and backslashes the pairs fit between the blanks. -/
theorem size_pairs_le {text : GoString} {ps : List Pair} (h : pairs text = some ps)
    (hquote : 0x27 ∉ text) (hslash : 0x5C ∉ text) : (ps.map size).sum ≤ solid text := by
  have hrun : pending (transduce step .start text).1 +
      ((transduce step .start text).2.map size).sum ≤
        pending .start + (text.map fun b => solid [b]).sum := by
    apply transduce_weight_le_of_invariant (I := fun m => plain m = true) _ rfl
    intro m hm b hb
    exact plain_step hm (fun he => hquote (he ▸ hb)) (fun he => hslash (he ▸ hb))
  have hfinish : ∀ m fs, finish m = some fs → (fs.map size).sum ≤ pending m + 0 := by
    intro m fs hfs
    cases m <;> simp only [finish, Option.some.injEq, reduceCtorEq] at hfs <;>
      subst hfs <;> simp [pending, size]
  have hle := finished_weight_le hrun hfinish h
  have hread : (text.map fun b => solid [b]).sum = solid text := sum_countP_singleton _ text
  have hstart : pending .start = 0 := rfl
  omega

end Athos.Libpq.Conninfo
