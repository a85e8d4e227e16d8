import Athos.Base.Strings

/-!
# Names that the API server accepts

The name formats of `k8s.io/apimachinery/pkg/util/validation`: subdomains for the names of most
objects, the two kinds of labels for pods' host names and for Services, and the values of labels.
-/

namespace Athos.Kube

open Base List

/-- Lowercase ASCII letters. -/
def isLower (b : UInt8) : Bool := 0x61 ≤ b && b ≤ 0x7A

/-- Lowercase letters and digits. -/
def isLowerAlnum (b : UInt8) : Bool := isLower b || isDigitByte b

/-- Letters and digits. -/
def isAlnum (b : UInt8) : Bool := isLowerAlnum b || (0x41 ≤ b && b ≤ 0x5A)

/-- `[a-z0-9]([-a-z0-9]*[a-z0-9])?` -/
structure IsDnsWord (s : GoString) : Prop where
  first : s.head?.any isLowerAlnum = true
  last : s.getLast?.any isLowerAlnum = true
  chars : ∀ b ∈ s, isLowerAlnum b = true ∨ b = 0x2D

/-- `IsDNS1123Label`. -/
structure IsDns1123Label (s : GoString) : Prop where
  word : IsDnsWord s
  length : s.length ≤ 63

/-- `IsDNS1035Label`: the first character is a letter. -/
structure IsDns1035Label (s : GoString) : Prop where
  letter : s.head?.any isLower = true
  last : s.getLast?.any isLowerAlnum = true
  chars : ∀ b ∈ s, isLowerAlnum b = true ∨ b = 0x2D
  length : s.length ≤ 63

/-- `IsDNS1123Subdomain`: words with dots between them. -/
structure IsDns1123Subdomain (s : GoString) : Prop where
  words : ∀ part ∈ s.splitOn 0x2E, IsDnsWord part
  length : s.length ≤ 253

/-- `IsValidLabelValue`. -/
structure IsLabelValue (s : GoString) : Prop where
  ends : s = [] ∨ s.head?.any isAlnum = true ∧ s.getLast?.any isAlnum = true
  chars : ∀ b ∈ s, isAlnum b = true ∨ b = 0x2D ∨ b = 0x5F ∨ b = 0x2E
  length : s.length ≤ 63

/-- `IsQualifiedName`, the keys of labels: a label value that is not empty, and perhaps a
subdomain and a slash before it. -/
def IsQualifiedName (s : GoString) : Prop :=
  (s ≠ [] ∧ IsLabelValue s) ∨
    ∃ domain name, s = domain ++ 0x2F :: name ∧ IsDns1123Subdomain domain ∧ name ≠ [] ∧
      IsLabelValue name

instance (s : GoString) : Decidable (IsDnsWord s) :=
  decidable_of_iff (s.head?.any isLowerAlnum = true ∧ s.getLast?.any isLowerAlnum = true ∧
      s.all (fun b => decide (isLowerAlnum b = true ∨ b = 0x2D)) = true)
    ⟨fun h => ⟨h.1, h.2.1, forall_mem_of_all h.2.2⟩,
      fun h => ⟨h.first, h.last, all_eq_true.2 fun b hb => decide_eq_true (h.chars b hb)⟩⟩

instance (s : GoString) : Decidable (IsDns1123Subdomain s) :=
  decidable_of_iff ((s.splitOn 0x2E).all (fun part => decide (IsDnsWord part)) = true ∧
      s.length ≤ 253)
    ⟨fun h => ⟨forall_mem_of_all h.1, h.2⟩,
      fun h => ⟨all_eq_true.2 fun p hp => decide_eq_true (h.words p hp), h.length⟩⟩

section

variable {s t : GoString}

private theorem isAlnum_of_isLowerAlnum {b : UInt8} (h : isLowerAlnum b = true) :
    isAlnum b = true := by
  rw [isAlnum, h, Bool.true_or]

private theorem lt_of_isAlnum {b : UInt8} (h : isAlnum b = true) : b < 0x80 := by
  simp only [isAlnum, isLowerAlnum, isLower, isDigitByte, Bool.or_eq_true, Bool.and_eq_true,
    decide_eq_true_eq, UInt8.le_iff_toNat_le, UInt8.lt_iff_toNat_lt, UInt8.reduceToNat] at h ⊢
  omega

/-- Label values are ASCII. -/
theorem IsLabelValue.ascii (h : IsLabelValue s) : ∀ b ∈ s, b < 0x80 := by
  intro b hb
  rcases h.chars b hb with halnum | rfl | rfl | rfl
  · exact lt_of_isAlnum halnum
  all_goals decide

/-- Words of DNS names are ASCII. -/
theorem IsDnsWord.ascii (h : IsDnsWord s) : ∀ b ∈ s, b < 0x80 := by
  intro b hb
  rcases h.chars b hb with halnum | rfl
  · exact lt_of_isAlnum (isAlnum_of_isLowerAlnum halnum)
  · decide

/-- Words of DNS names are not empty. -/
theorem IsDnsWord.ne_nil (h : IsDnsWord s) : s ≠ [] := by
  rintro rfl
  exact absurd h.first (by decide)

/-- A subdomain without a dot is one word. -/
theorem IsDns1123Subdomain.word (h : IsDns1123Subdomain s) (hdot : 0x2E ∉ s) : IsDnsWord s := by
  apply h.words
  rw [splitOn_eq_singleton hdot]
  exact mem_singleton_self s

/-- The bytes of a subdomain. -/
theorem IsDns1123Subdomain.chars (h : IsDns1123Subdomain s) :
    ∀ b ∈ s, isLowerAlnum b = true ∨ b = 0x2D ∨ b = 0x2E := by
  rw [← forall_mem_splitOn (.inr (.inr rfl))]
  intro part hpart b hb
  exact ((h.words part hpart).chars b hb).imp id .inl

/-- A subdomain is not empty. -/
theorem IsDns1123Subdomain.ne_nil (h : IsDns1123Subdomain s) : s ≠ [] := by
  rintro rfl
  exact (h.word not_mem_nil).ne_nil rfl

/-- A word with a suffix that starts with a dash, or is a word itself, is a word. -/
theorem IsDnsWord.append (h : IsDnsWord s) (hlast : t.getLast?.any isLowerAlnum = true)
    (hchars : ∀ b ∈ t, isLowerAlnum b = true ∨ b = 0x2D) : IsDnsWord (s ++ t) where
  first := by
    rw [head?_append_of_ne_nil _ h.ne_nil]
    exact h.first
  last := by
    have hne : t ≠ [] := by
      rintro rfl
      exact absurd hlast (by decide)
    rw [getLast?_append_of_ne_nil _ hne]
    exact hlast
  chars b hb := (mem_append.1 hb).elim (h.chars b) (hchars b)

/-- A word that starts with a letter is a label for a Service if it is short enough. -/
theorem IsDnsWord.dns1035 (h : IsDnsWord s) (hletter : s.head?.any isLower = true)
    (hlen : s.length ≤ 63) : IsDns1035Label s := ⟨hletter, h.last, h.chars, hlen⟩

/-- A word that is short enough is a label value. -/
theorem IsDnsWord.labelValue (h : IsDnsWord s) (hlen : s.length ≤ 63) : IsLabelValue s where
  ends := by
    have hany (o : Option UInt8) (ho : o.any isLowerAlnum = true) : o.any isAlnum = true := by
      cases o with
      | none => exact ho
      | some b => exact isAlnum_of_isLowerAlnum ho
    exact .inr ⟨hany _ h.first, hany _ h.last⟩
  chars b hb := (h.chars b hb).imp isAlnum_of_isLowerAlnum .inl
  length := hlen

end

end Athos.Kube
