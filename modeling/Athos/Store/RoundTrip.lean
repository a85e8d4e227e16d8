import Athos.Store.Separators

/-!
# Reading a DSN back

When `ParseDSN` gives back the parameters that `DSN` wrote: exactly if each entry is read as it was
written. A wrong value is never made good by a later token, as that would take one more sign `=`
than the DSN has.
-/

namespace Athos.Store

open Base Kube Postgres List Std.ExtTreeMap ConnParams

namespace ConnParams

/-- The parameters of the round trip: an `int` as port, and further parameters under keys of
their own. -/
structure WellFormed (c : ConnParams) : Prop where
  port_low : -(2 ^ 63) ≤ c.port
  port_high : c.port < 2 ^ 63
  extra_key : ∀ p ∈ c.extra.toList, IsKey p.1 ∧ p.1 ∉ standardKeys

/-- The reader finds the end of every value, and no space is lost at the end of the DSN. -/
def Readable (c : ConnParams) : Prop :=
  (∀ p ∈ c.baseKV.toList, Plain p.2) ∧
    ∀ p, c.baseKV.toList.getLast? = some p → needsQuote p.2 = false → trimTrailing p.2 = p.2

private theorem nodup_standardKV (c : ConnParams) : (c.standardKV.map Prod.fst).Nodup := by
  rw [standardKV]
  split_ifs
  · exact (by decide : [lit "host", lit "port", lit "user", lit "dbname", lit "sslmode",
      lit "password"].Nodup)
  · exact (by decide : [lit "host", lit "port", lit "user", lit "dbname", lit "sslmode"].Nodup)

private theorem mem_standardKeys {c : ConnParams} {k v : GoString} (h : (k, v) ∈ c.standardKV) :
    k ∈ standardKeys := by
  have hkeys : ∀ p ∈ c.standardKV, p.1 ∈ standardKeys := by
    rw [standardKV]
    split_ifs <;> simp [standardKeys]
  exact hkeys _ h

private theorem getElem?_baseKV_extra {c : ConnParams} {k : GoString} (hk : k ∉ standardKeys) :
    c.baseKV[k]? = c.extra[k]? := by
  have hnone : (mapOf c.standardKV)[k]? = none := by
    cases hv : (mapOf c.standardKV)[k]? with
    | none => rfl
    | some v => exact absurd (mem_standardKeys (mem_of_getElem?_mapOf hv)) hk
  rw [baseKV, getElem?_mergeMaps, hnone, Option.or_none]

section Lookup

variable {c : ConnParams} (hwf : c.WellFormed) {k v : GoString}

include hwf

private theorem WellFormed.getElem?_extra (hk : k ∈ standardKeys) : c.extra[k]? = none := by
  cases hv : c.extra[k]? with
  | none => rfl
  | some v =>
    have hmem := mem_toList_iff_getElem?_eq_some.2 hv
    exact absurd hk (hwf.extra_key _ hmem).2

private theorem WellFormed.getElem?_baseKV (hk : k ∈ standardKeys) :
    c.baseKV[k]? = some v ↔ (k, v) ∈ c.standardKV := by
  rw [baseKV, getElem?_mergeMaps, hwf.getElem?_extra hk, Option.none_or,
    getElem?_mapOf c.nodup_standardKV]

private theorem WellFormed.isKey (hk : (k, v) ∈ c.baseKV.toList) : IsKey k := by
  by_cases hstd : k ∈ standardKeys
  · exact (by decide : ∀ k ∈ standardKeys, IsKey k) k hstd
  · rw [mem_toList_iff_getElem?_eq_some, getElem?_baseKV_extra hstd] at hk
    exact (hwf.extra_key _ (mem_toList_iff_getElem?_eq_some.2 hk)).1

end Lookup

end ConnParams

variable {k v : GoString} {c : ConnParams}

private theorem getElem?_extra_tokens {m : StringMap} :
    (mapOf (m.toList.filter fun p => !standardKeys.contains p.1))[k]? = some v ↔
      k ∉ standardKeys ∧ m[k]? = some v := by
  have hnodup : ((m.toList.filter fun p => !standardKeys.contains p.1).map Prod.fst).Nodup :=
    (nodup_keys_toList m).sublist (filter_sublist.map _)
  rw [getElem?_mapOf hnodup, List.mem_filter, mem_toList_iff_getElem?_eq_some, and_comm]
  simp

private theorem isGraphic_of_mem_decimal {n : Int} {b : UInt8} (h : b ∈ decimal n) :
    IsGraphic b := by
  have hdigit : ∀ m, b ∈ decimalNat m → IsGraphic b := by
    intro m hb
    have := isDigitByte_of_mem_decimalNat hb
    grind [isDigitByte, IsGraphic]
  cases n with
  | ofNat m => exact hdigit m h
  | negSucc m =>
    rcases mem_cons.1 h with rfl | hb
    · decide
    · exact hdigit _ hb

private theorem sscanfInt_decimal (T : RuneTables) {n : Int} (hlow : -(2 ^ 63) ≤ n)
    (hhigh : n < 2 ^ 63) :
    sscanfInt T (decimal n) = .ok n := by
  have hspace : ∀ p ∈ decode (decimal n), isSpace p.1 = false := fun p hp =>
    not_isSpace_runes_of_isGraphic (fun b hb => isGraphic_of_mem_decimal hb) p.1
      (mem_map_of_mem hp)
  have hdrop : (decode (decimal n)).dropWhile (fun p => isSpace p.1 && p.1 != 0x0A) =
      decode (decimal n) := by
    apply dropWhile_eq_self_iff.2
    intro hlen
    simp only [hspace _ (getElem_mem hlen), Bool.false_and, Bool.false_eq_true, not_false_eq_true]
  have hline : (decode (decimal n)).head?.map Prod.fst ≠ some 0x0A := by
    intro h
    obtain ⟨p, hp, hline⟩ := Option.map_eq_some_iff.1 h
    have := hspace p (mem_of_head? hp)
    rw [hline] at this
    cases this
  have htake : ∀ m, (decimalNat m).takeWhile isDigitByte = decimalNat m := fun m =>
    takeWhile_eq_self_iff.2 fun b hb => isDigitByte_of_mem_decimalNat hb
  have hread := atoi_decimal hlow hhigh
  simp only [sscanfInt, hdrop, if_neg hline, flatMap_decode]
  cases n with
  | ofNat m =>
    have hminus := head_decimalNat_ne (b := 0x2D) rfl m
    have hplus := head_decimalNat_ne (b := 0x2B) rfl m
    rw [decimal] at hread ⊢
    simp only [hminus, hplus, or_self, if_false, length_nil, drop_zero, htake,
      decimalNat_ne_nil, nil_append, hread]
  | negSucc m =>
    rw [decimal] at hread ⊢
    simp only [head?_cons, true_or, if_true, take_succ_cons, take_zero, length_singleton,
      drop_succ_cons, drop_zero, htake, decimalNat_ne_nil, if_false, singleton_append, hread]

private theorem mem_standardKV :
    (k, v) ∈ c.standardKV ↔
      (k = lit "host" ∧ v = c.host) ∨ (k = lit "port" ∧ v = decimal c.portOrDefault) ∨
      (k = lit "user" ∧ v = c.userOrDefault) ∨ (k = lit "dbname" ∧ v = c.databaseOrDefault) ∨
      (k = lit "sslmode" ∧ v = c.sslModeOrDefault) ∨
      (k = lit "password" ∧ v = c.password ∧ c.password ≠ []) := by
  rw [standardKV]
  split_ifs with hne
  · simp [hne]
  · simp [not_not.1 hne]

private theorem eq_of_mem_standardKV {w : GoString} (hv : (k, v) ∈ c.standardKV)
    (hw : (k, w) ∈ c.standardKV) : v = w := by
  rw [← getElem?_mapOf c.nodup_standardKV] at hv hw
  exact Option.some.inj (hv.symm.trans hw)

private theorem host_of_mem_standardKV (h : (k, []) ∈ c.standardKV) (hport : k ≠ lit "port") :
    k = lit "host" := by
  have hdefault : ∀ s d : GoString, d ≠ [] → [] ≠ if s = [] then d else s := by
    intro s d hd
    split_ifs with hs
    · exact hd.symm
    · exact Ne.symm hs
  rcases mem_standardKV.1 h with ⟨rfl, -⟩ | ⟨rfl, -⟩ | ⟨-, hv⟩ | ⟨-, hv⟩ | ⟨-, hv⟩ | ⟨-, hv, hne⟩
  · rfl
  · exact absurd rfl hport
  · exact absurd hv (hdefault c.user _ (by decide))
  · exact absurd hv (hdefault c.database _ (by decide))
  · exact absurd hv (hdefault c.sslMode _ (by decide))
  · exact absurd hv.symm hne

/-- The entries that are left of the DSN of parameters when space is trimmed off. -/
def ConnParams.entries (c : ConnParams) : List Entry := trimLast (entriesOf c.baseKV)

private theorem ConnParams.mem_baseKV_of_mem_entries {e : Entry} (he : e ∈ c.entries) :
    (e.key, e.value) ∈ c.baseKV.toList := by
  rw [← map_entriesOf]
  exact mem_map_of_mem he

private theorem ConnParams.nodup_entries (c : ConnParams) : (c.entries.map Entry.key).Nodup := by
  have hkeys := nodup_keys_toList c.baseKV
  rwa [← map_entriesOf, List.map_map] at hkeys

section RoundTrip

variable {T : RuneTables} {c : ConnParams} (hwf : c.WellFormed)

include hwf

private theorem portOrDefault_range : -(2 ^ 63) ≤ c.portOrDefault ∧ c.portOrDefault < 2 ^ 63 := by
  rw [portOrDefault]
  split_ifs
  · decide
  · exact ⟨hwf.port_low, hwf.port_high⟩

private theorem getD_baseKV_password : c.baseKV[lit "password"]?.getD [] = c.password := by
  have hiff : ∀ v, c.baseKV[lit "password"]? = some v ↔ (lit "password", v) ∈ c.standardKV :=
    fun v => hwf.getElem?_baseKV (by decide)
  cases hv : c.baseKV[lit "password"]? with
  | none =>
    by_contra hne
    have hget := (hiff c.password).2
      (mem_standardKV.2 (by simp [show c.password ≠ [] from Ne.symm hne]))
    rw [hv] at hget
    cases hget
  | some v =>
    rcases mem_standardKV.1 ((hiff v).1 hv) with ⟨hk, -⟩ | ⟨hk, -⟩ | ⟨hk, -⟩ | ⟨hk, -⟩ |
      ⟨hk, -⟩ | ⟨-, rfl, -⟩
    case inr.inr.inr.inr.inr => rfl
    all_goals exact absurd hk (by decide)

private theorem extra_baseKV :
    mapOf (c.baseKV.toList.filter fun p => !standardKeys.contains p.1) = c.extra := by
  apply Std.ExtTreeMap.ext_getElem?
  intro k
  apply Option.ext
  intro v
  rw [getElem?_extra_tokens]
  by_cases hk : k ∈ standardKeys
  · simp [hk, hwf.getElem?_extra hk]
  · simp [hk, getElem?_baseKV_extra hk]

private theorem fromTokens_baseKV : fromTokens T c.baseKV = .ok c.withDefaults := by
  have hget : ∀ k v : GoString, k ∈ standardKeys → (k, v) ∈ c.standardKV →
      c.baseKV[k]? = some v := fun k v hk hv => (hwf.getElem?_baseKV hk).2 hv
  have hhost := hget (lit "host") c.host (by decide) (by simp [mem_standardKV])
  have hport := hget (lit "port") (decimal c.portOrDefault) (by decide) (by simp [mem_standardKV])
  have huser := hget (lit "user") c.userOrDefault (by decide) (by simp [mem_standardKV])
  have hdatabase := hget (lit "dbname") c.databaseOrDefault (by decide) (by simp [mem_standardKV])
  have hsslMode := hget (lit "sslmode") c.sslModeOrDefault (by decide) (by simp [mem_standardKV])
  obtain ⟨hlow, hhigh⟩ := portOrDefault_range hwf
  have hread : readPort T c.baseKV = .ok c.portOrDefault := by
    simp only [readPort, hport, sscanfInt_decimal T hlow hhigh]
  simp only [fromTokens, hread, Except.map, hhost, huser, hdatabase, hsslMode,
    getD_baseKV_password hwf, extra_baseKV hwf, Option.getD_some]
  rfl

omit hwf in
private theorem getElem?_tokens {m : StringMap} (h : fromTokens T m = .ok c.withDefaults) :
    (∀ k ∉ standardKeys, m[k]? = c.extra[k]?) ∧ (∃ v, m[lit "port"]? = some v) ∧
      ∀ k v, (k, v) ∈ c.standardKV → k ≠ lit "port" → m[k]?.getD [] = v := by
  obtain ⟨port, hport, hfields⟩ := map_eq_ok.1 h
  simp only [withDefaults, ConnParams.mk.injEq] at hfields
  obtain ⟨hhost, rfl, huser, hpassword, hdatabase, hsslMode, hextra⟩ := hfields
  refine ⟨fun k hk => ?_, ?_, fun k v hmem hk => ?_⟩
  · apply Option.ext
    intro v
    rw [← hextra, getElem?_extra_tokens]
    simp [hk]
  · cases hv : m[lit "port"]? with
    | none =>
      -- without a port the result has port 0, which no DSN has
      rw [readPort, hv] at hport
      have hzero := Except.ok.inj hport
      rw [portOrDefault] at hzero
      split_ifs at hzero with hne
      · cases hzero
      · exact absurd hzero.symm hne
    | some v => exact ⟨v, rfl⟩
  · rcases mem_standardKV.1 hmem with ⟨rfl, rfl⟩ | ⟨rfl, rfl⟩ | ⟨rfl, rfl⟩ | ⟨rfl, rfl⟩ |
      ⟨rfl, rfl⟩ | ⟨rfl, rfl, -⟩
    · exact hhost
    · exact absurd rfl hk
    · exact huser
    · exact hdatabase
    · exact hsslMode
    · exact hpassword

private theorem getElem?_of_mem_baseKV {m : StringMap} (h : fromTokens T m = .ok c.withDefaults)
    {k v : GoString} (hmem : (k, v) ∈ c.baseKV.toList) :
    m[k]? = some v ∨ (k = lit "port" ∧ v = decimal c.portOrDefault) ∨
      (k = lit "host" ∧ v = []) := by
  obtain ⟨hextra, -, hstandard⟩ := getElem?_tokens h
  rw [mem_toList_iff_getElem?_eq_some] at hmem
  by_cases hk : k ∈ standardKeys
  · rw [hwf.getElem?_baseKV hk] at hmem
    by_cases hport : k = lit "port"
    · subst hport
      exact .inr (.inl ⟨rfl, eq_of_mem_standardKV hmem (by simp [mem_standardKV])⟩)
    · have hv := hstandard k v hmem hport
      cases hget : m[k]? with
      | none =>
        rw [hget, Option.getD_none] at hv
        subst hv
        exact .inr (.inr ⟨host_of_mem_standardKV hmem hport, rfl⟩)
      | some v' =>
        rw [hget, Option.getD_some] at hv
        exact .inl (congrArg some hv)
  · left
    rw [hextra k hk, ← getElem?_baseKV_extra hk, hmem]

omit hwf in
private theorem reads_of_decimal {kv : StringMap} {e : Entry} (he : e ∈ trimLast (entriesOf kv))
    {n : Int} (hvalue : e.value = decimal n) : e.Reads := by
  have hgraphic : ∀ b ∈ decimal n, IsGraphic b := fun b hb => isGraphic_of_mem_decimal hb
  apply reads_trimLast he
  · have hbyte : ∀ b, isDigitByte b = false → b ≠ 0x2D → (decimal n).contains b = false := by
      intro b hd hm
      rw [contains_eq_mem, decide_eq_false_iff_not]
      exact not_mem_decimal hd hm n
    rw [hvalue, needsQuote, hbyte 0x20 rfl (by decide), hbyte 0x27 rfl (by decide),
      hbyte 0x5C rfl (by decide)]
    rfl
  · intro b hb
    rw [hvalue] at hb
    have hg := hgraphic b hb
    grind [IsGraphic, isDsnSpace]
  · rw [hvalue]
    exact trimTrailing_of_not_isSpace (not_isSpace_runes_of_isGraphic hgraphic)

private theorem no_blank_of_mem_tokens {ts : List (GoString × GoString)}
    (h : fromTokens T (mapOf ts) = .ok c.withDefaults) {p : GoString × GoString} (hp : p ∈ ts) :
    0x20 ∉ p.1 := by
  by_cases hk : p.1 ∈ standardKeys
  · exact (by decide : ∀ k ∈ standardKeys, 0x20 ∉ k) p.1 hk
  · obtain ⟨v, hv⟩ := exists_getElem?_mapOf hp
    rw [(getElem?_tokens h).1 p.1 hk, ← mem_toList_iff_getElem?_eq_some] at hv
    intro hblank
    exact absurd ((hwf.extra_key _ hv).1.not_isDsnSpace _ hblank) (by decide)

private theorem tokens_dsn : tokens T (trimSpace c.dsn) = tokens T (joined c.entries) := by
  rw [dsn, trimSpace_kvString fun p hp => hwf.isKey hp]
  rfl

private theorem isKey_of_mem_entries {e : Entry} (he : e ∈ c.entries) : IsKey e.key :=
  hwf.isKey (mem_baseKV_of_mem_entries he)

omit hwf in
/-- No token assigns the host. -/
def lacksHost (ts : List (GoString × GoString)) : Bool := (mapOf ts)[lit "host"]?.isNone

omit hwf in
/-- The entries whose sign `=` counts. -/
def counted (c : ConnParams) (ts : List (GoString × GoString)) : List Entry :=
  c.entries.filter fun e => !(lacksHost ts && e.key == lit "host")

section Count

variable {ts : List (GoString × GoString)} (h : fromTokens T (mapOf ts) = .ok c.withDefaults)

include h

private theorem separators_joined_tokens (hts : tokens T (joined c.entries) = .ok ts) :
    separators (lacksHost ts) (0x20 :: joined c.entries) =
      (ts.map fun p => 1 + separators (lacksHost ts) p.2).sum := by
  rw [← tokens_blank] at hts
  refine separators_tokens hts fun hskip p hp => ⟨?_, no_blank_of_mem_tokens hwf h hp⟩
  intro hhost
  obtain ⟨x, hx⟩ := exists_getElem?_mapOf hp
  rw [hhost] at hx
  simp [lacksHost, hx] at hskip

private theorem separators_joined_entries :
    separators (lacksHost ts) (0x20 :: joined c.entries) ≤
      ((counted c ts).map fun e => 1 + separators (lacksHost ts) e.value).sum := by
  apply separators_joined_le
  · exact fun e he => isKey_of_mem_entries hwf he
  · exact fun e he => written_trimLast he
  · intro hskip e he hhost
    rcases getElem?_of_mem_baseKV hwf h (mem_baseKV_of_mem_entries he) with hx |
      ⟨hport, -⟩ | ⟨-, hvalue⟩
    · rw [hhost] at hx
      simp [lacksHost, hx] at hskip
    · rw [hhost] at hport
      exact absurd hport (by decide)
    · exact hvalue

private theorem exists_getElem?_tokens {e : Entry} (he : e ∈ counted c ts) :
    ∃ x, (mapOf ts)[e.key]? = some x ∧
      separators (lacksHost ts) e.value ≤ separators (lacksHost ts) x := by
  obtain ⟨he, hkeep⟩ := List.mem_filter.1 he
  rcases getElem?_of_mem_baseKV hwf h (mem_baseKV_of_mem_entries he) with hx |
    ⟨hport, hvalue⟩ | ⟨hhost, hvalue⟩
  · exact ⟨_, hx, Nat.le_refl _⟩
  · obtain ⟨x, hx⟩ := (getElem?_tokens h).2.1
    refine ⟨x, hport ▸ hx, ?_⟩
    rw [hvalue, separators, separatorsAfter_of_not_mem (not_mem_decimal rfl (by decide) _)]
    exact Nat.zero_le _
  · cases hx : (mapOf ts)[lit "host"]? with
    | none => simp [lacksHost, hx, hhost] at hkeep
    | some x =>
      refine ⟨x, hhost ▸ hx, ?_⟩
      rw [hvalue]
      exact Nat.zero_le _

private theorem getElem?_of_not_reads {e : Entry} (he : e ∈ c.entries) (hbad : ¬ e.Reads) :
    (mapOf ts)[e.key]? = some e.value := by
  rcases getElem?_of_mem_baseKV hwf h (mem_baseKV_of_mem_entries he) with hx |
    ⟨-, hvalue⟩ | ⟨-, hvalue⟩
  · exact hx
  · exact absurd (reads_of_decimal he hvalue) hbad
  · refine absurd (reads_trimLast he ?_ ?_ ?_) hbad
    · rw [hvalue]
      rfl
    · rw [hvalue]
      exact forall_mem_nil _
    · rw [hvalue]
      rfl

end Count

private theorem reads_of_parseDSN (h : parseDSN T c.dsn = .ok c.withDefaults) :
    ∀ e ∈ c.entries, e.Reads := by
  obtain ⟨m, hm, hfields⟩ := bind_eq_ok.1 h
  obtain ⟨ts, hts, rfl⟩ := map_eq_ok.1 hm
  rw [tokens_dsn hwf] at hts
  rcases exists_misread (fun e he => isKey_of_mem_entries hwf he)
    (fun e he => written_trimLast he) hts with hall | ⟨e, he, hbad, v, hv, hwrong⟩
  · exact hall
  -- the wrong value is one token more than there are signs for
  exfalso
  have hright := getElem?_of_not_reads hwf hfields he hbad
  have hcount := separators_joined_tokens hwf hfields hts
  have hbound := separators_joined_entries hwf hfields
  have hsum := sum_add_le_sum (fun v => 1 + separators (lacksHost ts) v)
    (fun k => (mapOf ts)[k]?.getD []) (counted c ts)
    (c.nodup_entries.sublist (filter_sublist.map _)) (fun e' he' => ?_) (fun e' he' => ?_)
    hwrong (by simpa [hright] using hv)
  · omega
  · obtain ⟨x, hx, -⟩ := exists_getElem?_tokens hwf hfields he'
    rw [hx]
    exact mem_of_getElem?_mapOf hx
  · obtain ⟨x, hx, hle⟩ := exists_getElem?_tokens hwf hfields he'
    simpa [hx] using hle

private theorem parseDSN_of_reads (h : ∀ e ∈ c.entries, e.Reads) :
    parseDSN T c.dsn = .ok c.withDefaults := by
  have htokens : tokens T (trimSpace c.dsn) = .ok c.baseKV.toList := by
    rw [tokens_dsn hwf, tokens_joined (fun e he => isKey_of_mem_entries hwf he)
      (fun e he => written_trimLast he) h]
    exact congrArg _ (map_entriesOf c.baseKV)
  rw [parseDSN, tokenizeDSN, htokens]
  change fromTokens T (mapOf c.baseKV.toList) = _
  rw [mapOf_toList, fromTokens_baseKV hwf]

omit hwf in
private theorem reads_entries_iff : (∀ e ∈ c.entries, e.Reads) ↔ c.Readable := by
  have htext : ∀ e ∈ entriesOf c.baseKV, e.text = valueText e.value := by
    intro e he
    obtain ⟨p, -, rfl⟩ := List.mem_map.1 he
    rfl
  rw [entries, forall_reads_trimLast htext, Readable, entriesOf, forall_mem_map, getLast?_map]
  refine and_congr_right fun _ => ⟨fun h p hp => ?_, fun h e he => ?_⟩
  · exact h { key := p.1, value := p.2, text := valueText p.2 } (by rw [hp]; rfl)
  · obtain ⟨p, hp, rfl⟩ := Option.map_eq_some_iff.1 he
    exact h p hp

end RoundTrip

/-- A DSN is read as the parameters it was written from, with their defaults, exactly if each
value is found by its end. -/
theorem dsn_round_trip_iff (T : RuneTables) {c : ConnParams} (hwf : c.WellFormed) :
    parseDSN T c.dsn = .ok c.withDefaults ↔ c.Readable := by
  rw [← reads_entries_iff]
  exact ⟨reads_of_parseDSN hwf, parseDSN_of_reads hwf⟩

/-- A password with a blank is quoted and read back. -/
theorem dsn_round_trip_blanks :
    parseDSN .basic (dsn
        { host := lit "db-rw.prod.svc", port := 6432, password := lit "correct horse"
          database := lit "app"
          extra := mapOf [(lit "sslrootcert", lit "C:\\pki\\ca.crt"), (lit "options", [])] }) =
      .ok
        { host := lit "db-rw.prod.svc", port := 6432, user := lit "postgres"
          password := lit "correct horse", database := lit "app", sslMode := lit "require"
          extra := mapOf [(lit "sslrootcert", lit "C:\\pki\\ca.crt"), (lit "options", [])] } := by
  refine (dsn_round_trip_iff .basic ⟨by decide, by decide, by decide +kernel⟩).2
    ⟨by decide +kernel, fun p hp _ => ?_⟩
  have hlast : p = (lit "user", lit "postgres") :=
    (Option.some.inj (hp.symm.trans (by decide +kernel)))
  subst hlast
  decide

/-- A quote in a value ends it, and what follows is split anew: the password `it's` is read as
`it` and a backslash, the port is lost and a parameter appears that nobody set. A tab in a
user name splits it without any quote, and the DSN is refused. -/
theorem dsn_round_trip_fails :
    parseDSN .basic (dsn { host := lit "h", port := 5432, password := lit "it's" }) =
        .ok
          { host := lit "h", user := lit "postgres", password := lit "it\\"
            database := lit "postgres", sslMode := lit "require"
            extra := mapOf [(lit "s' port", lit "5432")] } ∧
      parseDSN .basic (dsn { host := lit "h", port := 5432, user := lit "a\tb" }) =
        .error (lit "malformed DSN near \"b\": missing '='") := by
  constructor
  · decide +kernel
  · decide +kernel

end Athos.Store
