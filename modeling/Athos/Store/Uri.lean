import Athos.Libpq.Uri
import Athos.Store.Connstr

/-!
# Connection URIs with escapes

`URI` of `src/internal/store/connstr.go` and what libpq reads from it. User and password come back
for all strings. The database is escaped twice, by `url.PathEscape` and again by `URL.String`, and
blanks of the query are written as `+`, which libpq takes literally.
-/

namespace Athos.Store

open Base Kube Libpq Postgres List Std.ExtTreeMap

/-- The values of the query; `connstr.go:82-86`. -/
def ConnParams.query (c : ConnParams) : StringMap :=
  mergeMaps (mapOf [(lit "sslmode", c.sslModeOrDefault)]) c.extra

/-- `URI`; `connstr.go:68-90`. -/
def ConnParams.uri (c : ConnParams) : GoString :=
  Url.string
    { scheme := lit "postgresql"
      user :=
        { username := c.userOrDefault
          password := if c.password ≠ [] then some c.password else none }
      host := c.host ++ lit ":" ++ decimal c.portOrDefault
      path := lit "/" ++ pathEscape c.databaseOrDefault
      rawQuery := encodeValues c.query.toList }

section Query

variable {l : List (GoString × GoString)}

private theorem readParam_queryEscape {k v : GoString} (hk : 0 ∉ k) (hv : 0 ∉ v) :
    readParam (queryEscape k ++ 0x3D :: queryEscape v) = some (plusForBlank k, plusForBlank v) := by
  have hsign : ∀ s, 0x3D ∉ queryEscape s := fun s =>
    not_mem_queryEscape rfl (by decide) (by decide) rfl s
  rw [readParam, cutByte_append_cons (hsign k), if_pos ⟨by simp, hsign v⟩,
    unescape_queryEscape hk, unescape_queryEscape hv]
  rfl

private theorem encodeValues_cons (p : GoString × GoString) (l : List (GoString × GoString)) :
    encodeValues (p :: l) = (queryEscape p.1 ++ 0x3D :: queryEscape p.2) ++
      if l = [] then [] else 0x26 :: encodeValues l := by
  cases l with
  | nil => simp [encodeValues]
  | cons q l => simp [encodeValues, intercalate_cons_cons]

private theorem readParams_encodeValues (h : ∀ p ∈ l, 0 ∉ p.1 ∧ 0 ∉ p.2) :
    readParams (encodeValues l) = some (l.map fun p => (plusForBlank p.1, plusForBlank p.2)) := by
  induction l with
  | nil => rw [encodeValues, readParams]; rfl
  | cons p l ih =>
    rw [forall_mem_cons] at h
    have hamp : 0x26 ∉ queryEscape p.1 ++ 0x3D :: queryEscape p.2 := by
      have hfree : ∀ s, 0x26 ∉ queryEscape s := fun s =>
        not_mem_queryEscape rfl (by decide) (by decide) rfl s
      simp [hfree]
    have hcut : cutByte 0x26 (encodeValues (p :: l)) =
        (queryEscape p.1 ++ 0x3D :: queryEscape p.2, encodeValues l) := by
      rw [encodeValues_cons]
      split_ifs with hl
      · rw [hl, append_nil, cutByte_of_not_mem hamp]
        rfl
      · exact cutByte_append_cons hamp _
    have hne : encodeValues (p :: l) ≠ [] := by simp [encodeValues_cons]
    rw [readParams, dif_neg hne, hcut, readParam_queryEscape h.1.1 h.1.2, ih h.2]
    rfl

end Query

private theorem isUnreserved_of_mem_decimal {n : Int} {b : UInt8} (h : b ∈ decimal n) :
    isUnreserved b = true := by
  have hdigit : ∀ m, b ∈ decimalNat m → isUnreserved b = true := by
    intro m hb
    have hd := isDigitByte_of_mem_decimalNat hb
    rw [isUnreserved, isAlphanumeric, show (0x30 ≤ b && b ≤ 0x39) = true from hd, Bool.or_true,
      Bool.true_or]
  cases n with
  | ofNat m => exact hdigit m h
  | negSucc m =>
    rcases mem_cons.1 h with rfl | hb
    · decide
    · exact hdigit _ hb

namespace ConnParams

/-- No string of the parameters contains the byte 0. -/
structure NulFree (c : ConnParams) : Prop where
  user : 0 ∉ c.user
  password : 0 ∉ c.password
  database : 0 ∉ c.database
  sslMode : 0 ∉ c.sslMode
  extra : ∀ p ∈ c.extra.toList, 0 ∉ p.1 ∧ 0 ∉ p.2

/-- User information as it stands in the URI. -/
def credentials (c : ConnParams) : GoString :=
  escape inUserinfo c.userOrDefault ++
    if c.password = [] then [] else 0x3A :: escape inUserinfo c.password

private theorem userOrDefault_ne_nil (c : ConnParams) : c.userOrDefault ≠ [] := by
  rw [userOrDefault]
  split_ifs with h
  · decide
  · exact h

variable {c : ConnParams}

private theorem getElem?_query {k v : GoString} :
    c.query[k]? = some v ↔ c.extra[k]? = some v ∨
      (c.extra[k]? = none ∧ k = lit "sslmode" ∧ v = c.sslModeOrDefault) := by
  have hd : ([(lit "sslmode", c.sslModeOrDefault)].map Prod.fst).Nodup :=
    pairwise_singleton _ _
  rw [query, getElem?_mergeMaps, Option.or_eq_some_iff, getElem?_mapOf hd, mem_singleton,
    Prod.mk.injEq]

private theorem encodeValues_query_ne_nil (c : ConnParams) : encodeValues c.query.toList ≠ [] := by
  obtain ⟨v, hv⟩ : ∃ v, c.query[lit "sslmode"]? = some v := by
    cases hget : c.extra[lit "sslmode"]? with
    | some v => exact ⟨v, getElem?_query.2 (.inl hget)⟩
    | none => exact ⟨_, getElem?_query.2 (.inr ⟨hget, rfl, rfl⟩)⟩
  have hmem := mem_toList_iff_getElem?_eq_some.2 hv
  obtain ⟨p, l, hl⟩ := exists_cons_of_ne_nil (ne_nil_of_mem hmem)
  rw [hl, encodeValues_cons]
  simp

private theorem uri_eq (hhost : IsHostName c.host) :
    c.uri = lit "postgresql://" ++ (c.credentials ++ 0x40 :: (c.host ++ 0x3A ::
      (decimal c.portOrDefault ++ 0x2F :: (escape inPath (pathEscape c.databaseOrDefault) ++
        0x3F :: encodeValues c.query.toList)))) := by
  have huser : Userinfo.string
      { username := c.userOrDefault
        password := if c.password ≠ [] then some c.password else none } = c.credentials := by
    rw [Userinfo.string, if_pos (.inl c.userOrDefault_ne_nil), credentials]
    by_cases hp : c.password = []
    · simp [hp]
    · simp [hp]
  have hkeep : escape inHost (c.host ++ lit ":" ++ decimal c.portOrDefault) =
      c.host ++ lit ":" ++ decimal c.portOrDefault := by
    rw [escape_eq_self_iff]
    intro b hb
    simp only [append_assoc, mem_append] at hb
    rcases hb with hb | hb | hb
    · rw [inHost, hhost b hb, Bool.true_or]
    · rw [mem_singleton.1 hb]
      decide
    · rw [inHost, isUnreserved_of_mem_decimal hb, Bool.true_or]
  have hpath : escape inPath (lit "/" ++ pathEscape c.databaseOrDefault) =
      0x2F :: escape inPath (pathEscape c.databaseOrDefault) := escape_cons _ _
  simp only [uri, Url.string, huser, hkeep, hpath, if_pos c.encodeValues_query_ne_nil]
  rw [show lit "postgresql://" = lit "postgresql" ++ lit "://" from rfl]
  simp only [append_assoc]
  rfl

private theorem not_mem_credentials {b : UInt8} (hb : b ∈ lit "@/") : b ∉ c.credentials := by
  have hstop : ∀ b ∈ lit "@/", inUserinfo b = false ∧ b ≠ 0x25 ∧ hexValue b = none ∧ b ≠ 0x3A :=
    forall_mem_of_all rfl
  obtain ⟨hkeep, hpercent, hhex, hcolon⟩ := hstop b hb
  have hescape := fun s => not_mem_escape hkeep hpercent hhex s
  rw [credentials]
  split_ifs <;> simp [hescape, hcolon]

private theorem cutByte_credentials (c : ConnParams) :
    cutByte 0x3A c.credentials =
      (escape inUserinfo c.userOrDefault, escape inUserinfo c.password) := by
  have hcolon : 0x3A ∉ escape inUserinfo c.userOrDefault := not_mem_escape rfl (by decide) rfl _
  rw [credentials]
  split_ifs with hp
  · rw [hp, append_nil, cutByte_of_not_mem hcolon]
    rfl
  · exact cutByte_append_cons hcolon _

section NulFree

variable {c : ConnParams} (hc : c.NulFree)

include hc

private theorem NulFree.userOrDefault : 0 ∉ c.userOrDefault := by
  rw [ConnParams.userOrDefault]
  split_ifs
  · decide
  · exact hc.user

private theorem NulFree.query : ∀ p ∈ c.query.toList, 0 ∉ p.1 ∧ 0 ∉ p.2 := by
  rintro ⟨k, v⟩ hp
  rw [mem_toList_iff_getElem?_eq_some, getElem?_query] at hp
  rcases hp with hextra | ⟨-, rfl, rfl⟩
  · exact hc.extra (k, v) (mem_toList_iff_getElem?_eq_some.2 hextra)
  · refine ⟨(by decide : 0 ∉ lit "sslmode"), ?_⟩
    rw [sslModeOrDefault]
    split_ifs
    · decide
    · exact hc.sslMode

private theorem readUri_uri (hhost : IsHostName c.host) :
    readUri c.uri = some
      { user := c.userOrDefault
        password := c.password
        host := c.host
        port := decimal c.portOrDefault
        dbname := pathEscape c.databaseOrDefault
        params := c.query.toList.map fun p => (plusForBlank p.1, plusForBlank p.2) } := by
  have hport : IsHostName (decimal c.portOrDefault) := fun b hb => isUnreserved_of_mem_decimal hb
  have hstops : ∀ b ∈ decimal c.portOrDefault, b ∉ lit "/?," := by
    intro b hb hmem
    have hstop : ∀ b ∈ lit "/?,", b ∈ hostStops := forall_mem_of_all rfl
    exact hport.no_stop b hb (hstop b hmem)
  have hpercent : ∀ s, IsHostName s → 0x25 ∉ s := fun s hs hmem =>
    hs.no_stop 0x25 hmem (by decide)
  have hdatabase : 0x3F ∉ escape inPath (pathEscape c.databaseOrDefault) :=
    not_mem_escape rfl (by decide) rfl _
  rw [uri_eq hhost, readUri_text (fun b hb hmem => not_mem_credentials hmem hb) hhost.no_stop
    hstops, cutByte_credentials, cutByte_append_cons hdatabase, decodeParts_eq_some]
  exact ⟨unescape_escape rfl hc.userOrDefault, unescape_escape rfl hc.password,
    unescape_of_not_mem (hpercent _ hhost), unescape_of_not_mem (hpercent _ hport),
    unescape_escape rfl (not_mem_escape rfl (by decide) rfl _), readParams_encodeValues hc.query⟩

end NulFree

/-- A URI denotes the parameters: it has their components, and as further options their
`sslmode` and `Extra`. -/
def DenotedBy (c : ConnParams) (u : Uri) : Prop :=
  u.user = c.userOrDefault ∧ u.password = c.password ∧ u.host = c.host ∧
    u.port = decimal c.portOrDefault ∧ u.dbname = c.databaseOrDefault ∧
    ∀ k v, (k, v) ∈ u.params ↔
      (k = lit "sslmode" ∧ v = c.sslModeOrDefault) ∨ c.extra[k]? = some v

/-- The parameters whose URI is read back: the database needs no escape, no option contains a
blank, and `Extra` leaves `sslmode` alone. -/
structure UriReadable (c : ConnParams) : Prop where
  database : ∀ b ∈ c.databaseOrDefault, inPathSegment b = true
  sslMode : 0x20 ∉ c.sslModeOrDefault
  extra : ∀ p ∈ c.extra.toList, 0x20 ∉ p.1 ∧ 0x20 ∉ p.2
  extra_sslMode : ∀ v, c.extra[lit "sslmode"]? = some v → v = c.sslModeOrDefault

private theorem mem_params_of_readable (h : c.UriReadable) (k v : GoString) :
    (k, v) ∈ c.query.toList.map (fun p => (plusForBlank p.1, plusForBlank p.2)) ↔
      (k = lit "sslmode" ∧ v = c.sslModeOrDefault) ∨ c.extra[k]? = some v := by
  have hplain : ∀ p ∈ c.query.toList, (plusForBlank p.1, plusForBlank p.2) = p := by
    rintro ⟨k, v⟩ hp
    rw [mem_toList_iff_getElem?_eq_some, getElem?_query] at hp
    rcases hp with hextra | ⟨-, rfl, rfl⟩
    · have hfree := h.extra (k, v) (mem_toList_iff_getElem?_eq_some.2 hextra)
      simp only [plusForBlank_of_not_mem hfree.1, plusForBlank_of_not_mem hfree.2]
    · simp only [plusForBlank_of_not_mem (by decide : 0x20 ∉ lit "sslmode"),
        plusForBlank_of_not_mem h.sslMode]
  rw [map_congr_left hplain, map_id', mem_toList_iff_getElem?_eq_some, getElem?_query]
  constructor
  · rintro (hextra | ⟨-, hk, hv⟩)
    · exact .inr hextra
    · exact .inl ⟨hk, hv⟩
  · rintro (⟨rfl, rfl⟩ | hextra)
    · cases hget : c.extra[lit "sslmode"]? with
      | none => exact .inr ⟨rfl, rfl, rfl⟩
      | some v => exact .inl (congrArg some (h.extra_sslMode v hget))
    · exact .inl hextra

private theorem readable_of_mem_params
    (h : ∀ k v, (k, v) ∈ c.query.toList.map (fun p => (plusForBlank p.1, plusForBlank p.2)) ↔
      (k = lit "sslmode" ∧ v = c.sslModeOrDefault) ∨ c.extra[k]? = some v)
    (hdatabase : ∀ b ∈ c.databaseOrDefault, inPathSegment b = true) : c.UriReadable := by
  have hfree : ∀ k v, (k, v) ∈ c.query.toList.map (fun p => (plusForBlank p.1, plusForBlank p.2)) →
      0x20 ∉ k ∧ 0x20 ∉ v := by
    intro k v hmem
    obtain ⟨p, -, hp⟩ := List.mem_map.1 hmem
    obtain ⟨rfl, rfl⟩ := Prod.mk.inj hp
    exact ⟨not_mem_plusForBlank _, not_mem_plusForBlank _⟩
  have hextra : ∀ p ∈ c.extra.toList, 0x20 ∉ p.1 ∧ 0x20 ∉ p.2 := by
    rintro ⟨k, v⟩ hp
    exact hfree k v ((h k v).2 (.inr (mem_toList_iff_getElem?_eq_some.1 hp)))
  have hsslMode := (h (lit "sslmode") c.sslModeOrDefault).2 (.inl ⟨rfl, rfl⟩)
  refine ⟨hdatabase, (hfree _ _ hsslMode).2, hextra, fun v hv => ?_⟩
  -- the option that is read as `sslmode` is the one of `Extra`
  obtain ⟨⟨k', v'⟩, hmem, hp⟩ := List.mem_map.1 hsslMode
  rw [mem_toList_iff_getElem?_eq_some, getElem?_query] at hmem
  rcases hmem with hget | ⟨hnone, rfl, -⟩
  · have hblank := hextra (k', v') (mem_toList_iff_getElem?_eq_some.2 hget)
    rw [plusForBlank_of_not_mem hblank.1, plusForBlank_of_not_mem hblank.2] at hp
    obtain ⟨rfl, rfl⟩ := Prod.mk.inj hp
    rw [hget] at hv
    exact (Option.some.inj hv).symm
  · rw [hnone] at hv
    cases hv

/-- A connection URI is read back exactly under these conditions. -/
theorem denotedBy_uri_iff (hc : c.NulFree) (hhost : IsHostName c.host) :
    (∃ u, readUri c.uri = some u ∧ c.DenotedBy u) ↔ c.UriReadable := by
  rw [readUri_uri hc hhost]
  constructor
  · rintro ⟨u, hu, -, -, -, -, hdbname, hparams⟩
    obtain rfl := Option.some.inj hu
    exact readable_of_mem_params hparams (escape_eq_self_iff.1 hdbname)
  · intro h
    exact ⟨_, rfl, rfl, rfl, rfl, rfl, escape_eq_self_iff.2 h.database, mem_params_of_readable h⟩

end ConnParams

end Athos.Store
