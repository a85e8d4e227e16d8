import Athos.Base.GoMap
import Athos.Base.Transducer

/-!
# PgBouncer user lists

How PgBouncer reads its `auth_file`: on each line two fields in double quotes, a double quote inside
a field written twice and nothing else escaped; what stands between the fields and after them is
skipped. A line that does not start with a quote, and a field that is not closed, make the file
broken. Where a user is listed twice the later line counts.
-/

namespace Athos.Server.AuthFile

open Base List

/-- A user name and a password. -/
abbrev Entry := GoString × GoString

/-- Reader states. Accumulators hold the bytes of a field read so far, last byte first. -/
inductive Mode where
  | start
  | user (acc : GoString)
  | userQuote (acc : GoString)
  | between (user : GoString)
  | password (user acc : GoString)
  | passwordQuote (user acc : GoString)
  | rest
  | failed
  deriving DecidableEq

/-- One byte of input. -/
def step : Mode → UInt8 → Mode × List Entry
  | .start, b => (if isCSpace b then .start else if b = 0x22 then .user [] else .failed, [])
  | .user acc, b => (if b = 0x22 then .userQuote acc else .user (b :: acc), [])
  | .userQuote acc, b => (if b = 0x22 then .user (b :: acc) else .between acc.reverse, [])
  | .between user, b => (if b = 0x22 then .password user [] else .between user, [])
  | .password user acc, b =>
    (if b = 0x22 then .passwordQuote user acc else .password user (b :: acc), [])
  | .passwordQuote user acc, b =>
    if b = 0x22 then (.password user (b :: acc), [])
    else (if b = 0x0A then .start else .rest, [(user, acc.reverse)])
  | .rest, b => (if b = 0x0A then .start else .rest, [])
  | .failed, _ => (.failed, [])

/-- The end of the file can only come between lines and after two fields. -/
def finish : Mode → Option (List Entry)
  | .start | .rest => some []
  | .passwordQuote user acc => some [(user, acc.reverse)]
  | _ => none

/-- The entries of a file in order, `none` if it is broken. -/
def entries (text : GoString) : Option (List Entry) :=
  (finish (transduce step .start text).1).map ((transduce step .start text).2 ++ ·)

/-- The users of a file; a later line of a user replaces an earlier one. -/
def parse (text : GoString) : Option (GoMap GoString) := (entries text).map collect

/-- A line with two fields as they are. -/
def line (e : Entry) : GoString := 0x22 :: (e.1 ++ [0x22, 0x20, 0x22] ++ (e.2 ++ [0x22, 0x0A]))

variable {s text : GoString}

private theorem ne_of_not_mem (h : 0x22 ∉ s) : ∀ b ∈ s, b ≠ 0x22 := by
  rintro b hb rfl
  exact h hb

private theorem transduces_user (h : 0x22 ∉ s) (acc : GoString) :
    Transduces step (.user acc) s (.user (s.reverse ++ acc)) [] :=
  Transduces.collect (fun b hb acc => by simp only [step, if_neg (ne_of_not_mem h b hb)]) acc

private theorem transduces_password (h : 0x22 ∉ s) (user acc : GoString) :
    Transduces step (.password user acc) s (.password user (s.reverse ++ acc)) [] :=
  Transduces.collect (fun b hb acc => by simp only [step, if_neg (ne_of_not_mem h b hb)]) acc

private theorem transduces_line {e : Entry} (huser : 0x22 ∉ e.1) (hpassword : 0x22 ∉ e.2) :
    Transduces step .start (line e) .start [e] := by
  have hu := transduces_user huser []
  have hp := transduces_password hpassword e.1 []
  rw [append_nil] at hu hp
  have hgap : Transduces step (.user e.1.reverse) [0x22, 0x20, 0x22] (.password e.1 []) [] := by
    simp [Transduces, transduce, step]
  have hend : Transduces step (.password e.1 e.2.reverse) [0x22, 0x0A] .start [e] := by
    simp [Transduces, transduce, step]
  exact Transduces.silent rfl ((hu.append hgap).append (hp.append hend))

/-- A file of such lines is read as its entries. -/
theorem entries_lines {es : List Entry} (h : ∀ e ∈ es, 0x22 ∉ e.1 ∧ 0x22 ∉ e.2) :
    entries (es.flatMap line) = some es := by
  have hrun : Transduces step .start (es.flatMap line) .start es := by
    induction es with
    | nil => rfl
    | cons e es ih =>
      obtain ⟨huser, hpassword⟩ := h e mem_cons_self
      exact (transduces_line huser hpassword).append
        (ih fun e' he' => h e' (mem_cons_of_mem e he'))
  unfold Transduces at hrun
  rw [entries, hrun]
  exact congrArg some (append_nil es)

/-- The number of double quotes. -/
def quotes (s : GoString) : Nat := s.count 0x22

/-- The quotes that an entry takes in a file: four around its fields, two for one inside. -/
def weight (e : Entry) : Nat := 4 + 2 * (quotes e.1 + quotes e.2)

/-- The quotes that were read for the pending entry. -/
private def pending : Mode → Nat
  | .user acc => 1 + 2 * quotes acc
  | .userQuote acc => 2 + 2 * quotes acc
  | .between user => 2 + 2 * quotes user
  | .password user acc => 3 + 2 * (quotes user + quotes acc)
  | .passwordQuote user acc => 4 + 2 * (quotes user + quotes acc)
  | .start | .rest | .failed => 0

private theorem pending_step (m : Mode) (b : UInt8) :
    pending (step m b).1 + ((step m b).2.map weight).sum ≤ pending m + quotes [b] := by
  by_cases hb : b = 0x22
  · subst hb
    cases m <;> simp [step, pending, quotes, isCSpace] <;> omega
  · cases m with
    | start =>
      simp only [step, if_neg hb, map_nil, sum_nil]
      split <;> exact Nat.zero_le _
    | passwordQuote user acc =>
      simp only [step, if_neg hb, map_singleton, sum_singleton]
      split <;> simp [pending, weight, quotes]
    | rest =>
      simp only [step, map_nil, sum_nil]
      split <;> exact Nat.zero_le _
    | _ => simp [step, pending, quotes, hb]

private theorem weight_entries_le {es : List Entry} (h : entries text = some es) :
    (es.map weight).sum ≤ quotes text := by
  have hfinish : ∀ m fs, finish m = some fs → (fs.map weight).sum ≤ pending m + 0 := by
    intro m fs hfs
    cases m with
    | start | rest =>
      obtain rfl := Option.some.inj hfs
      exact Nat.zero_le _
    | passwordQuote user acc =>
      obtain rfl := Option.some.inj hfs
      simp [weight, pending, quotes]
    | _ => cases hfs
  have hle := finished_weight_le (transduce_weight_le pending_step .start text) hfinish h
  have hread : (text.map fun b => quotes [b]).sum = quotes text := sum_countP_singleton _ text
  have hstart : pending .start = 0 := rfl
  omega

/-- Four quotes on every line, and those inside the fields. -/
theorem quotes_flatMap_line (es : List Entry) :
    quotes (es.flatMap line) = 4 * es.length + (es.map fun e => quotes e.1 + quotes e.2).sum := by
  induction es with
  | nil => rfl
  | cons e es ih =>
    have hline : quotes (line e) = 4 + (quotes e.1 + quotes e.2) := by
      simp [line, quotes, count_append]
      omega
    rw [flatMap_cons, quotes, count_append, ← quotes, ← quotes, ih, hline,
      map_cons, sum_cons, length_cons]
    omega

private theorem sum_weight (es : List Entry) :
    (es.map weight).sum = 4 * es.length + 2 * (es.map fun e => quotes e.1 + quotes e.2).sum := by
  induction es with
  | nil => rfl
  | cons e es ih =>
    rw [map_cons, sum_cons, ih, weight, map_cons, sum_cons, length_cons]
    omega

/-- A file with as many quotes as the unescaped lines of a map has is read as that map only if
there are no quotes in the map: each of them would have to stand twice. -/
theorem not_mem_of_parse {m : GoMap GoString} {keys : List GoString} (h : Ranges m keys)
    (htext : quotes text = quotes ((listing m keys).flatMap line)) (hparse : parse text = some m) :
    ∀ e ∈ listing m keys, 0x22 ∉ e.1 ∧ 0x22 ∉ e.2 := by
  obtain ⟨es, hes, hcollect⟩ := Option.map_eq_some_iff.1 hparse
  have hread := weight_entries_le hes
  have hlisted := sum_le_of_subperm (subperm_listing h hcollect) weight
  rw [htext, quotes_flatMap_line] at hread
  rw [sum_weight] at hlisted
  have hzero : ¬ 0 < ((listing m keys).map fun e : Entry => quotes e.1 + quotes e.2).sum := by
    omega
  rw [List.sum_pos_iff_exists_pos_nat] at hzero
  intro e he
  have hquotes : quotes e.1 + quotes e.2 = 0 :=
    Nat.eq_zero_of_not_pos fun hpos => hzero ⟨_, mem_map.2 ⟨e, he, rfl⟩, hpos⟩
  exact ⟨count_eq_zero.1 (Nat.eq_zero_of_add_eq_zero_right hquotes),
    count_eq_zero.1 (Nat.eq_zero_of_add_eq_zero_left hquotes)⟩

end Athos.Server.AuthFile
