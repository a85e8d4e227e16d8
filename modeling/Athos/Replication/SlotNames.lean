import Athos.Base.Decimal
import Athos.Kube.DnsNames

/-!
# Names of replication slots

`ReplicationSlotName` of `src/internal/replication/replication.go`. A cluster name may have dots and
up to 253 characters; the name of a slot has no dots and at most 63. Different standbys have
different slots nevertheless.
-/

namespace Athos.Replication

open Base Kube List

/-- `ReplicationSlotName`; `replication.go:148-153`. -/
def replicationSlotName (clusterName : GoString) (ordinal : Int) : GoString :=
  replaceByte 0x2D [0x5F] clusterName ++ lit "_slot_" ++ decimal ordinal

/-- The bytes of a slot name: lowercase letters, digits and underscores. -/
def isSlotByte (b : UInt8) : Bool := isLowerAlnum b || b == 0x5F

/-- A name that PostgreSQL accepts for a slot, `ReplicationSlotValidateName`. -/
structure IsSlotName (s : GoString) : Prop where
  ne_nil : s ≠ []
  length : s.length ≤ 63
  chars : ∀ b ∈ s, isSlotByte b = true

section

variable {name : GoString} {n : Int}

private theorem not_mem_underscore (h : IsDns1123Subdomain name) : 0x5F ∉ name := by
  intro hmem
  rcases h.chars _ hmem with halnum | hdash | hdot
  · exact absurd halnum (by decide)
  · exact absurd hdash (by decide)
  · exact absurd hdot (by decide)

private theorem replaceByte_replaceByte (h : 0x5F ∉ name) :
    replaceByte 0x5F [0x2D] (replaceByte 0x2D [0x5F] name) = name := by
  rw [replaceByte_singleton, replaceByte_singleton, map_map]
  refine (map_congr_left fun b hb => ?_).trans (map_id name)
  have hb' : b ≠ 0x5F := fun he => h (he ▸ hb)
  by_cases hdash : b = 0x2D
  · simp [hdash]
  · simp [hdash, hb']

/-- The slot name can be read from its end: the digits, the fixed part, and the cluster. -/
theorem replicationSlotName_injective {name' : GoString} {n' : Int}
    (h : IsDns1123Subdomain name) (h' : IsDns1123Subdomain name')
    (heq : replicationSlotName name' n' = replicationSlotName name n) : name' = name ∧ n' = n := by
  have hcut : ∀ (name : GoString) (n : Int),
      cutByte 0x5F (replicationSlotName name n).reverse =
        ((decimal n).reverse, (replaceByte 0x2D [0x5F] name ++ lit "_slot").reverse) := by
    intro name n
    have hslot : lit "_slot_" = lit "_slot" ++ [0x5F] := by decide
    have hdigits : 0x5F ∉ (decimal n).reverse := by
      rw [mem_reverse]
      exact not_mem_decimal (by decide) (by decide) n
    rw [replicationSlotName, hslot, ← append_assoc, append_assoc, singleton_append, reverse_append,
      reverse_cons, append_assoc, singleton_append, cutByte_append_cons hdigits]
  have hparts := hcut name' n'
  rw [heq, hcut name n, Prod.mk.injEq, reverse_inj, reverse_inj] at hparts
  refine ⟨?_, (decimal_injective hparts.1).symm⟩
  have hname := congrArg (replaceByte 0x5F [0x2D]) (append_cancel_right hparts.2)
  rw [replaceByte_replaceByte (not_mem_underscore h),
    replaceByte_replaceByte (not_mem_underscore h')] at hname
  exact hname.symm

private theorem length_replicationSlotName (name : GoString) (n : Int) :
    (replicationSlotName name n).length = name.length + 6 + (decimal n).length := by
  rw [replicationSlotName, replaceByte_singleton, length_append, length_append, length_map]
  rfl

private theorem slotBytes_iff (h : IsDns1123Subdomain name) (hn : 0 ≤ n) :
    (∀ b ∈ replicationSlotName name n, isSlotByte b = true) ↔ 0x2E ∉ name := by
  have hfixed : ∀ b ∈ lit "_slot_", isSlotByte b = true := forall_mem_of_all (by decide)
  have hdigits : ∀ b ∈ decimal n, isSlotByte b = true := by
    obtain ⟨m, rfl⟩ := Int.eq_ofNat_of_zero_le hn
    intro b hb
    simp [isSlotByte, isLowerAlnum, isDigitByte_of_mem_decimalNat hb]
  rw [replicationSlotName, replaceByte_singleton, forall_mem_append, forall_mem_append,
    and_iff_left hdigits, and_iff_left hfixed, forall_mem_map]
  constructor
  · intro hall hdot
    exact absurd (hall _ hdot) (by decide)
  · intro hdot b hb
    rcases h.chars b hb with halnum | rfl | rfl
    · have hdash : b ≠ 0x2D := by
        rintro rfl
        exact absurd halnum (by decide)
      rw [if_neg hdash, isSlotByte, halnum, Bool.true_or]
    · decide
    · exact absurd hb hdot

/-- A standby has a legal slot name of its own if the cluster name has no dots and is short. -/
theorem replicationSlotName_exact_iff (name : GoString) (n : Int) (h : IsDns1123Subdomain name)
    (hn : 0 ≤ n) :
    (IsSlotName (replicationSlotName name n) ∧
        ∀ name' n', IsDns1123Subdomain name' → 0 ≤ n' →
          replicationSlotName name' n' = replicationSlotName name n → name' = name ∧ n' = n) ↔
      0x2E ∉ name ∧ name.length + (decimal n).length ≤ 57 := by
  have hlength := length_replicationSlotName name n
  rw [and_iff_left fun name' n' h' _ heq => replicationSlotName_injective h h' heq]
  constructor
  · rintro ⟨-, hle, hchars⟩
    exact ⟨(slotBytes_iff h hn).1 hchars, by omega⟩
  · rintro ⟨hdot, hle⟩
    refine ⟨?_, by omega, (slotBytes_iff h hn).2 hdot⟩
    intro hnil
    rw [hnil, length_nil] at hlength
    omega

/-- A dash becomes an underscore. -/
theorem short_name_has_slot :
    (IsDns1123Subdomain (lit "my-cluster") ∧ (0 : Int) ≤ 2) ∧
      IsSlotName (replicationSlotName (lit "my-cluster") 2) :=
  have hname : IsDns1123Subdomain (lit "my-cluster") := by decide
  ⟨⟨hname, by decide⟩,
    ((replicationSlotName_exact_iff (lit "my-cluster") 2 hname (by decide)).2 (by decide)).1⟩

/-- A dot stays in the name of the slot. -/
theorem dotted_name_has_no_slot :
    IsDns1123Subdomain (lit "shop.orders") ∧
      replicationSlotName (lit "shop.orders") 0 = lit "shop.orders_slot_0" ∧
      ¬ IsSlotName (lit "shop.orders_slot_0") := by
  refine ⟨by decide, by decide, fun h => ?_⟩
  exact absurd (h.chars 0x2E (by decide)) (by decide)

end

end Athos.Replication
