import Athos.Base.Calendar
import Athos.Base.Decimal

/-!
# Formatting and parsing times

`Time.Format` and `time.Parse` of Go for layouts made of the fields below. The two are not inverse:
years outside of four digits are written but not read, fractions of a second are read without being
asked for, and a zone is written and read as an abbreviation. How abbreviations other than `UTC` are
read depends on the machine and is a parameter.
-/

namespace Athos.Base

open List

/-- A `time.Time` in a location: the time at zero offset, and the abbreviation and offset, in
seconds, of the zone in use there at that time. -/
structure ZonedTime where
  utc : GoTime
  zone : GoString
  offset : Int
  deriving DecidableEq

namespace ZonedTime

/-- `Time.UTC`. -/
def toUTC (z : ZonedTime) : ZonedTime := ⟨z.utc, lit "UTC", 0⟩

/-- What clock and calendar show. -/
def civil (z : ZonedTime) : GoTime := { z.utc with sec := z.utc.sec + Int64.ofInt z.offset }

/-- In UTC a time is the civil time of its instant. -/
theorem civil_toUTC (z : ZonedTime) : z.toUTC.civil = z.utc := by
  have hzero : z.utc.sec + Int64.ofInt 0 = z.utc.sec := Int64.add_zero _
  rw [civil, toUTC, hzero]

end ZonedTime

namespace TimeLayout

/-- The fields of a layout, each as it is written there, and the bytes between them. -/
inductive Item where
  /-- `2006` -/
  | longYear
  /-- `01` -/
  | zeroMonth
  /-- `02` -/
  | zeroDay
  /-- `15` -/
  | hour
  /-- `04` -/
  | zeroMinute
  /-- `05` -/
  | zeroSecond
  /-- `MST` -/
  | zone
  | literal (b : UInt8)
  deriving DecidableEq

/-- The text of an item. -/
def formatItem (z : ZonedTime) : Item → GoString
  | .longYear => appendInt 4 z.civil.date.year
  | .zeroMonth => appendInt 2 z.civil.date.month
  | .zeroDay => appendInt 2 z.civil.date.day
  | .hour => appendInt 2 z.civil.hour
  | .zeroMinute => appendInt 2 z.civil.minute
  | .zeroSecond => appendInt 2 z.civil.second
  | .zone => z.zone
  | .literal b => [b]

/-- `Time.Format`. -/
def format (layout : List Item) (z : ZonedTime) : GoString := layout.flatMap (formatItem z)

/-- How zone abbreviations are read: how long the one at the beginning of a text is, and how many
seconds east of UTC it is at the time on the clock. -/
structure Zones where
  scan : GoString → Option Nat
  offset : GoString → GoTime → Int

/-- What has been read so far. -/
structure Parsed where
  year : Nat := 0
  month : Nat := 1
  day : Nat := 1
  hour : Nat := 0
  minute : Nat := 0
  second : Nat := 0
  nsec : Nat := 0
  zone : Option GoString := none
  deriving DecidableEq

/-- `getnum`: two digits, or one if that is allowed. -/
def getnum (fixed : Bool) : GoString → Option (Nat × GoString)
  | [] => none
  | [a] => if isDigitByte a && !fixed then some (a.toNat - 0x30, []) else none
  | a :: b :: s =>
    if !isDigitByte a then none
    else if isDigitByte b then some (10 * (a.toNat - 0x30) + (b.toNat - 0x30), s)
    else if fixed then none
    else some (a.toNat - 0x30, b :: s)

/-- Four digits. -/
def getYear (s : GoString) : Option (Nat × GoString) :=
  if 4 ≤ s.length ∧ (s.take 4).all isDigitByte then some (digitsValue (s.take 4), s.drop 4)
  else none

/-- A number below a bound. -/
def getBelow (fixed : Bool) (bound : Nat) (s : GoString) : Option (Nat × GoString) :=
  (getnum fixed s).filter fun p => p.1 < bound

/-- A fraction of a second that the layout does not ask for: nine digits count. -/
def getFraction : GoString → Nat × GoString
  | [] => (0, [])
  | p :: s =>
    let digits := s.takeWhile isDigitByte
    if (p = 0x2E ∨ p = 0x2C) ∧ digits ≠ [] then
      (digitsValue (digits.take 9) * 10 ^ (9 - digits.length), s.dropWhile isDigitByte)
    else (0, p :: s)

/-- Read an item. -/
def parseItem (Z : Zones) (p : Parsed) (s : GoString) : Item → Option (Parsed × GoString)
  | .longYear => (getYear s).map fun (n, s) => ({ p with year := n }, s)
  | .zeroMonth =>
    ((getBelow true 13 s).filter fun q => q.1 ≠ 0).map fun (n, s) => ({ p with month := n }, s)
  | .zeroDay => (getnum true s).map fun (n, s) => ({ p with day := n }, s)
  | .hour => (getBelow false 24 s).map fun (n, s) => ({ p with hour := n }, s)
  | .zeroMinute => (getBelow true 60 s).map fun (n, s) => ({ p with minute := n }, s)
  | .zeroSecond => (getBelow true 60 s).map fun (n, s) =>
      ({ p with second := n, nsec := (getFraction s).1 }, (getFraction s).2)
  | .zone =>
    if (lit "UTC").isPrefixOf s then some ({ p with zone := none }, s.drop 3)
    else (Z.scan s).map fun n => ({ p with zone := some (s.take n) }, s.drop n)
  | .literal b =>
    -- A blank of the layout stands for any number of them, or for the end of the text.
    if b = 0x20 then
      if s ≠ [] ∧ s.head? ≠ some 0x20 then none
      else some (p, s.dropWhile (· == 0x20))
    else if s.head? = some b then some (p, s.tail)
    else none

/-- The loop over the fields. -/
def parseItems (Z : Zones) : List Item → Parsed → GoString → Option (Parsed × GoString)
  | [], p, s => some (p, s)
  | item :: items, p, s => (parseItem Z p s item).bind fun (p, s) => parseItems Z items p s

/-- `daysIn`. -/
def daysIn (month : Nat) (year : Int) : Nat :=
  Date.daysBefore (Date.isLeap year) month - Date.daysBefore (Date.isLeap year) (month - 1)

/-- The time that was read. -/
def Parsed.time (Z : Zones) (p : Parsed) : GoTime :=
  let t := GoTime.ofDate p.year p.month p.day p.hour p.minute p.second p.nsec
  match p.zone with
  | none => t
  | some zone => { t with sec := GoTime.addSec t.sec (Int64.ofInt (-Z.offset zone t)) }

/-- `time.Parse`; `none` is any error. -/
def parse (Z : Zones) (layout : List Item) (s : GoString) : Option GoTime :=
  match parseItems Z layout {} s with
  | some (p, []) => if 1 ≤ p.day ∧ p.day ≤ daysIn p.month p.year then some (p.time Z) else none
  | _ => none

section

variable {Z : Zones} {z : ZonedTime} {p : Parsed} {item : Item} {layout : List Item}
  {s : GoString} {n : Nat}

private theorem getnum_padded (fixed : Bool) (hn : n < 100) (s : GoString) :
    getnum fixed (padded 2 n ++ s) = some (n, s) := by
  obtain ⟨a, b, hab⟩ := length_eq_two.1 (length_padded (n := n) (by decide : 0 < 2) hn)
  have hdigit : ∀ c ∈ [a, b], isDigitByte c = true := fun c hc =>
    isDigitByte_of_mem_padded (hab ▸ hc)
  have hvalue := digitsValue_padded 2 n
  rw [hab] at hvalue
  have ha := hdigit a (by simp)
  have hb := hdigit b (by simp)
  simp only [hab, cons_append, nil_append, getnum, ha, hb]
  simpa [digitsValue] using hvalue

private theorem getBelow_padded (fixed : Bool) {bound : Nat} (hn : n < bound) (hbound : bound ≤ 100)
    (s : GoString) : getBelow fixed bound (padded 2 n ++ s) = some (n, s) := by
  rw [getBelow, getnum_padded fixed (by omega)]
  simp [hn]

private theorem getYear_padded (hn : n < 10000) (s : GoString) :
    getYear (padded 4 n ++ s) = some (n, s) := by
  have hlength : (padded 4 n).length = 4 := length_padded (by decide) hn
  have htake : (padded 4 n ++ s).take 4 = padded 4 n := take_left' hlength
  have hdrop : (padded 4 n ++ s).drop 4 = s := drop_left' hlength
  have hall : (padded 4 n).all isDigitByte = true :=
    all_eq_true.2 fun b hb => isDigitByte_of_mem_padded hb
  rw [getYear, htake, hdrop, digitsValue_padded, if_pos ⟨by simp [hlength], hall⟩]

/-- A text after which no more of an item can follow. -/
def Ends (s : GoString) : Item → Prop
  | .zeroSecond => s.head? ≠ some 0x2E ∧ s.head? ≠ some 0x2C
  | .literal b => b = 0x20 → s.head? ≠ some 0x20
  | _ => True

/-- A layout whose items are told apart. -/
def Separated (z : ZonedTime) : List Item → Prop
  | [] => True
  | item :: layout => Ends (format layout z) item ∧ Separated z layout

/-- What an item says about a time. -/
def Parsed.read (z : ZonedTime) (p : Parsed) : Item → Parsed
  | .longYear => { p with year := z.civil.date.year.toNat }
  | .zeroMonth => { p with month := z.civil.date.month }
  | .zeroDay => { p with day := z.civil.date.day }
  | .hour => { p with hour := z.civil.hour }
  | .zeroMinute => { p with minute := z.civil.minute }
  | .zeroSecond => { p with second := z.civil.second, nsec := 0 }
  | .zone => { p with zone := none }
  | .literal _ => p

/-- The years that are read as they are written. -/
def FourDigits (year : Int) : Prop := 0 ≤ year ∧ year ≤ 9999

instance (year : Int) : Decidable (FourDigits year) := inferInstanceAs (Decidable (_ ∧ _))

private theorem getFraction_of_ends (h : Ends s .zeroSecond) : getFraction s = (0, s) := by
  cases s with
  | nil => rfl
  | cons b s =>
    simp only [Ends, head?_cons, ne_eq, Option.some.injEq] at h
    rw [getFraction, if_neg (by simp [h.1, h.2])]

private theorem parseItem_literal {b : UInt8} (h : Ends s (.literal b)) :
    parseItem Z p (b :: s) (.literal b) = some (p, s) := by
  rw [parseItem]
  by_cases hblank : b = 0x20
  · rw [if_pos hblank, if_neg (by simp [hblank]), dropWhile_cons_of_pos (by simp [hblank])]
    cases s with
    | nil => rfl
    | cons c s =>
      have hc : c ≠ 0x20 := by simpa using h hblank
      rw [dropWhile_cons_of_neg (by simpa using hc)]
  · rw [if_neg hblank, if_pos head?_cons, tail_cons]

private theorem parseItem_formatItem (hyear : FourDigits z.civil.date.year)
    (hzone : z.zone = lit "UTC") (h : Ends s item) :
    parseItem Z p (formatItem z item ++ s) item = some (p.read z item, s) := by
  obtain ⟨yday, hdate, -⟩ := Date.inYear_ofDays z.civil.dayNumber
  have hmonth : z.civil.date.month < 13 := Nat.lt_succ_of_le hdate.month_le
  have hmonth' : z.civil.date.month ≠ 0 := Nat.pos_iff_ne_zero.1 hdate.month_pos
  have hday : z.civil.date.day ≤ 31 := Date.day_ofDays_le _
  cases item with
  | longYear =>
    obtain ⟨y, hy⟩ := Int.eq_ofNat_of_zero_le hyear.1
    have hlt : y < 10000 := by
      have := hyear.2
      omega
    simp only [formatItem, parseItem, Parsed.read, hy, appendInt_natCast, getYear_padded hlt,
      Option.map_some, Int.toNat_natCast]
  | zeroMonth =>
    simp [formatItem, parseItem, Parsed.read, appendInt_natCast,
      getBelow_padded true hmonth (by decide), hmonth']
  | zeroDay =>
    simp [formatItem, parseItem, Parsed.read, appendInt_natCast,
      getnum_padded true (by omega : z.civil.date.day < 100)]
  | hour =>
    simp [formatItem, parseItem, Parsed.read, appendInt_natCast,
      getBelow_padded false z.civil.hour_lt (by decide)]
  | zeroMinute =>
    simp [formatItem, parseItem, Parsed.read, appendInt_natCast,
      getBelow_padded true z.civil.minute_lt (by decide)]
  | zeroSecond =>
    simp [formatItem, parseItem, Parsed.read, appendInt_natCast,
      getBelow_padded true z.civil.second_lt (by decide), getFraction_of_ends h]
  | zone =>
    rw [formatItem, hzone, parseItem, if_pos ( isPrefixOf_iff_prefix.2 (by simp))]
    rfl
  | literal b =>
    exact parseItem_literal h

/-- A layout is written item by item. -/
theorem format_cons (item : Item) (layout : List Item) (z : ZonedTime) :
    format (item :: layout) z = formatItem z item ++ format layout z := flatMap_cons

private theorem parseItems_format (hyear : FourDigits z.civil.date.year)
    (hzone : z.zone = lit "UTC") (h : Separated z layout) (p : Parsed) :
    parseItems Z layout p (format layout z) = some (layout.foldl (Parsed.read z) p, []) := by
  induction layout generalizing p with
  | nil => rfl
  | cons item layout ih =>
    rw [format_cons, parseItems, parseItem_formatItem hyear hzone h.1]
    exact ih h.2 _

private theorem daysIn_civil (t : GoTime) : t.date.day ≤ daysIn t.date.month t.date.year := by
  obtain ⟨yday, hdate, -⟩ := Date.inYear_ofDays t.dayNumber
  have heq := hdate.yday_eq
  have hlt := hdate.yday_lt
  rw [daysIn, GoTime.date]
  omega

/-- A layout with date and clock: the time is read as it was written, without nanoseconds. -/
theorem parse_format (hyear : FourDigits z.civil.date.year) (hzone : z.zone = lit "UTC")
    (h : Separated z layout) (hfields : ∀ p, layout.foldl (Parsed.read z) p =
      { year := z.civil.date.year.toNat, month := z.civil.date.month, day := z.civil.date.day,
        hour := z.civil.hour, minute := z.civil.minute, second := z.civil.second }) :
    parse Z layout (format layout z) =
      some { z.civil with nsec := 0, nsec_lt := Nat.succ_pos _ } := by
  have hcast : ((z.civil.date.year.toNat : Nat) : Int) = z.civil.date.year :=
    Int.toNat_of_nonneg hyear.1
  obtain ⟨yday, hdate, -⟩ := Date.inYear_ofDays z.civil.dayNumber
  simp only [parse, parseItems_format hyear hzone h, hfields, hcast]
  rw [if_pos ⟨hdate.day_pos, daysIn_civil z.civil⟩]
  simp only [Parsed.time, hcast]
  exact congrArg some (GoTime.ofDate_fields z.civil)

private theorem digit_of_getYear {year : Int} (hyear : ¬ FourDigits year) {rest : GoString}
    (h : getYear (appendInt 4 year ++ s) = some (n, rest)) :
    ∃ c rest', rest = c :: rest' ∧ isDigitByte c = true := by
  rw [getYear] at h
  split_ifs at h with hdigits
  obtain rfl : (appendInt 4 year ++ s).drop 4 = rest := congrArg Prod.snd (Option.some.inj h)
  by_cases hneg : year < 0
  · -- The sign is no digit.
    rw [appendInt, if_pos hneg] at hdigits
    exact absurd hdigits.2 (by simp [isDigitByte])
  · obtain ⟨y, rfl⟩ := Int.eq_ofNat_of_zero_le (Int.not_lt.1 hneg)
    have hlong : 10 ^ 4 ≤ y := by
      rw [FourDigits] at hyear
      omega
    have hlength := lt_length_padded (by decide) hlong
    obtain ⟨c, rest, hdrop⟩ := exists_cons_of_length_pos
      (l := (padded 4 y).drop 4) (by rw [length_drop]; omega)
    refine ⟨c, rest ++ s, ?_, ?_⟩
    · rw [appendInt_natCast, drop_append_of_le_length (Nat.le_of_lt hlength), hdrop, cons_append]
    · have hmem : c ∈ (padded 4 y).drop 4 := hdrop ▸ mem_cons_self
      exact isDigitByte_of_mem_padded (mem_of_mem_drop hmem)

/-- Other years are not read where a byte follows that is no digit. -/
theorem parse_format_eq_none (hyear : ¬ FourDigits z.civil.date.year) {b : UInt8}
    (hb : isDigitByte b = false) (hblank : b ≠ 0x20) :
    parse Z (.longYear :: .literal b :: layout) (format (.longYear :: .literal b :: layout) z) =
      none := by
  rw [format_cons, formatItem, parse, parseItems, parseItem]
  cases hget : getYear (appendInt 4 z.civil.date.year ++ format (.literal b :: layout) z) with
  | none => rfl
  | some q =>
    obtain ⟨c, rest, hrest, hc⟩ := digit_of_getYear hyear hget
    have hne : c ≠ b := by
      rintro rfl
      rw [hb] at hc
      cases hc
    simp [parseItems, parseItem, hrest, hblank, hne]

end

end TimeLayout

end Athos.Base
