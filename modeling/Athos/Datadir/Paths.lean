import Athos.Base.Path

/-!
# Paths of the data directory

The path helpers of `src/internal/datadir/datadir.go`. The guard compares texts where it means
elements, and the helpers that join follow every double dot upwards.
-/

namespace Athos.Datadir

open Base Base.Path List

/-- `Root`; `datadir.go:33`. -/
def root : GoString := lit "/var/lib/postgresql"

/-- `PGData`; `datadir.go:35`. -/
def pgData : GoString := root ++ lit "/data"

/-- `WAL`; `datadir.go:37`. -/
def wal : GoString := root ++ lit "/wal"

/-- `Config`; `datadir.go:45`. -/
def config : GoString := lit "/etc/postgresql"

/-- `strings.TrimPrefix`. -/
def trimPrefix (s start : GoString) : GoString :=
  if start.isPrefixOf s then s.drop start.length else s

/-- The path of a directory and a relative one. -/
def pathIn (dir rel : GoString) : GoString :=
  if rel = [] then dir else joinPath [dir, trimPrefix rel (lit "/")]

/-- `PGDataPath`; `datadir.go:48-54`. -/
def pgDataPath (rel : GoString) : GoString := pathIn pgData rel

/-- `WALPath`; `datadir.go:56-62`. -/
def walPath (rel : GoString) : GoString := pathIn wal rel

/-- `ConfigPath`; `datadir.go:64-70`. -/
def configPath (rel : GoString) : GoString := pathIn config rel

/-- `IsInsidePGData`; `datadir.go:72-75`. -/
def isInsidePGData (path : GoString) : Bool := pgData.isPrefixOf (clean path)

section

variable {dir path rel : GoString}

/-- The path goes through a directory beside the data directory whose name only begins as its
name does. -/
def ThroughSibling (path : GoString) : Prop :=
  isAbs path = true ∧ ∃ name rest, elements (clean path) = elements root ++ name :: rest ∧
    lit "data" <+: name ∧ name ≠ lit "data"

private theorem pgData_eq : pgData = slash :: join (elements root ++ [lit "data"]) := by decide

private theorem isInsidePGData_iff :
    isInsidePGData path = true ↔
      isAbs path = true ∧ ∃ name rest, elements (clean path) = elements root ++ name :: rest ∧
        lit "data" <+: name := by
  rw [isInsidePGData, isPrefixOf_iff_prefix, pgData_eq]
  by_cases habs : isAbs path = true
  · have hroot : ∀ c ∈ elements root, IsElement c := by
      intro c hc
      obtain ⟨hsplit, hne⟩ := mem_filter.1 hc
      exact ⟨of_decide_eq_true hne, not_mem_of_mem_splitOn hsplit⟩
    rw [elements_clean habs, clean_of_isAbs habs, cons_prefix_cons,
      join_prefix_join_iff ⟨by decide, by decide⟩ hroot (isElement_down path)]
    simp [habs]
  · refine iff_of_false (fun h => ?_) (fun h => habs h.1)
    have hclean : isAbs (clean path) = true := by
      obtain ⟨rest, hrest⟩ := h
      rw [← hrest]
      rfl
    exact habs (isAbs_clean path ▸ hclean)

private theorem atOrBelow_pgData_iff :
    AtOrBelow pgData (clean path) ↔
      isAbs path = true ∧ ∃ rest, elements (clean path) = elements root ++ lit "data" :: rest := by
  have hdata : elements pgData = elements root ++ [lit "data"] := by decide
  rw [AtOrBelow, isAbs_clean, hdata]
  refine and_congr Iff.rfl ⟨?_, ?_⟩
  · rintro ⟨rest, hrest⟩
    exact ⟨rest, by rw [← hrest, append_assoc, singleton_append]⟩
  · rintro ⟨rest, hrest⟩
    exact ⟨rest, by rw [hrest, append_assoc, singleton_append]⟩

/-- The guard is right but for such siblings. -/
theorem isInsidePGData_exact_iff (path : GoString) :
    (isInsidePGData path = true ↔ AtOrBelow pgData (clean path)) ↔ ¬ ThroughSibling path := by
  rw [isInsidePGData_iff, atOrBelow_pgData_iff, ThroughSibling]
  constructor
  · rintro h ⟨habs, name, rest, helements, hstart, hne⟩
    obtain ⟨-, rest', helements'⟩ := h.1 ⟨habs, name, rest, helements, hstart⟩
    rw [helements, append_cancel_left_eq, List.cons.injEq] at helements'
    exact hne helements'.1
  · intro hnot
    constructor
    · rintro ⟨habs, name, rest, helements, hstart⟩
      by_cases hne : name = lit "data"
      · exact ⟨habs, rest, hne ▸ helements⟩
      · exact absurd ⟨habs, name, rest, helements, hstart, hne⟩ hnot
    · rintro ⟨habs, rest, helements⟩
      exact ⟨habs, lit "data", rest, helements, prefix_refl _⟩

/-- A directory beside the data directory whose name starts like it. -/
theorem old_copy_counted_inside :
    isInsidePGData (lit "/var/lib/postgresql/data-old/base") = true ∧
      ¬ AtOrBelow pgData (clean (lit "/var/lib/postgresql/data-old/base")) := by
  refine ⟨by decide, ?_⟩
  rintro ⟨-, h⟩
  exact absurd ( isPrefixOf_iff_prefix.2 h) (by decide)

/-- What a relative path climbs above its start it comes down again by the same names. -/
def ReturnsTo (dir rel : GoString) : Prop :=
  (elements dir).drop ((elements dir).length - (route rel).up) <+: (route rel).down

/-- A relative path in its shortest form, without double dots. -/
structure IsPlain (rel : GoString) : Prop where
  clean : clean rel = rel
  relative : isAbs rel = false
  ne_nil : rel ≠ []
  ne_dot : rel ≠ dot
  no_dotdot : dotdot ∉ elements rel

/-- A directory that paths are joined to: clean, absolute and not the root of all. -/
structure IsRoot (dir : GoString) : Prop where
  abs : isAbs dir = true
  clean : clean dir = dir
  ne_nil : elements dir ≠ []

private theorem isRoot_pgData : IsRoot pgData := ⟨by decide, by decide, by decide⟩

private theorem isRoot_wal : IsRoot wal := ⟨by decide, by decide, by decide⟩

private theorem isRoot_config : IsRoot config := ⟨by decide, by decide, by decide⟩

private theorem IsRoot.elements_eq (h : IsRoot dir) : elements dir = (route dir).down := by
  rw [← elements_clean h.abs, h.clean]

private theorem IsRoot.eq_join (h : IsRoot dir) : dir = slash :: join (elements dir) := by
  rw [h.elements_eq, ← clean_of_isAbs h.abs, h.clean]

private theorem route_trimPrefix (rel : GoString) :
    route (trimPrefix rel (lit "/")) = route rel := by
  unfold trimPrefix
  split_ifs with hstart
  · obtain ⟨rest, rfl⟩ := isPrefixOf_iff_prefix.1 hstart
    exact (route_slash_cons rest).symm
  · rfl

private theorem pathIn_eq (h : IsRoot dir) (rel : GoString) :
    pathIn dir rel = slash :: join ((elements dir).take
      ((elements dir).length - (route rel).up) ++ (route rel).down) := by
  unfold pathIn
  split_ifs with hrel
  · rw [hrel, route_nil, Nat.sub_zero, take_length, append_nil]
    exact h.eq_join
  · have habs : isAbs (dir ++ slash :: trimPrefix rel (lit "/")) = true := by
      rw [h.eq_join]
      rfl
    have hne : dir ≠ [] := by
      rw [h.eq_join]
      exact cons_ne_nil _ _
    rw [joinPath_pair hne, clean_of_isAbs habs, route_append, route_trimPrefix, h.elements_eq]

private theorem clean_pathIn (h : IsRoot dir) (rel : GoString) :
    clean (pathIn dir rel) = pathIn dir rel := by
  unfold pathIn
  split_ifs with hrel
  · exact h.clean
  · rw [joinPath_pair (by rw [h.eq_join]; exact cons_ne_nil _ _), clean_clean]

private theorem atOrBelow_pathIn_iff (h : IsRoot dir) (rel : GoString) :
    AtOrBelow dir (pathIn dir rel) ↔ ReturnsTo dir rel := by
  have helement : ∀ c ∈ (elements dir).take ((elements dir).length - (route rel).up) ++
      (route rel).down, IsElement c := by
    intro c hc
    rcases mem_append.1 hc with hc | hc
    · exact isElement_down dir c (h.elements_eq ▸ mem_of_mem_take hc)
    · exact isElement_down rel c hc
  rw [AtOrBelow, pathIn_eq h, isAbs_slash_cons, h.abs, elements_slash_cons,
    elements_join helement, and_iff_right rfl, ReturnsTo]
  generalize (elements dir).length - (route rel).up = n
  -- The elements that are left are common to both sides.
  have hleft : (elements dir).take n ++ (elements dir).drop n = elements dir :=
    take_append_drop n _
  nth_rewrite 1 [← hleft]
  exact prefix_append_right_inj _

private theorem IsPlain.route_eq (h : IsPlain rel) :
    (route rel).up = 0 ∧ (route rel).down ≠ [] ∧ rel = join (route rel).down := by
  have hclean := h.clean
  simp only [Path.clean, h.relative, Bool.false_eq_true, if_false] at hclean
  split_ifs at hclean with hdot
  · exact absurd hclean.symm h.ne_dot
  · have helements := elements_join (isElement_normal rel)
    rw [hclean] at helements
    have hup : (route rel).up = 0 := by
      by_contra hne
      apply h.no_dotdot
      rw [helements]
      exact mem_append_left _ (mem_replicate.2 ⟨hne, rfl⟩)
    rw [hup, replicate_zero, nil_append] at hclean
    exact ⟨hup, fun hdown => hdot ⟨hup, hdown⟩, hclean.symm⟩

private theorem pathIn_of_isPlain (h : IsRoot dir) (hrel : IsPlain rel) :
    pathIn dir rel = dir ++ slash :: rel := by
  obtain ⟨hup, hdown, heq⟩ := hrel.route_eq
  rw [pathIn_eq h, hup, Nat.sub_zero, take_length, join_append h.ne_nil hdown, ← heq,
    ← cons_append, ← h.eq_join]

/-- The joined paths are clean; they stay at or below their directory as long as the relative
path leaves it by no other way than it comes back; and a plain path is appended as it is. -/
theorem joined_paths (rel : GoString) :
    (clean (pgDataPath rel) = pgDataPath rel ∧
      (AtOrBelow pgData (pgDataPath rel) ↔ ReturnsTo pgData rel) ∧
      (IsPlain rel → pgDataPath rel = pgData ++ lit "/" ++ rel)) ∧
    (clean (walPath rel) = walPath rel ∧
      (AtOrBelow wal (walPath rel) ↔ ReturnsTo wal rel) ∧
      (IsPlain rel → walPath rel = wal ++ lit "/" ++ rel)) ∧
    (clean (configPath rel) = configPath rel ∧
      (AtOrBelow config (configPath rel) ↔ ReturnsTo config rel) ∧
      (IsPlain rel → configPath rel = config ++ lit "/" ++ rel)) := by
  have hdir : ∀ dir, IsRoot dir → clean (pathIn dir rel) = pathIn dir rel ∧
      (AtOrBelow dir (pathIn dir rel) ↔ ReturnsTo dir rel) ∧
      (IsPlain rel → pathIn dir rel = dir ++ lit "/" ++ rel) := by
    intro dir h
    refine ⟨clean_pathIn h rel, atOrBelow_pathIn_iff h rel, fun hrel => ?_⟩
    rw [pathIn_of_isPlain h hrel, append_assoc]
    rfl
  exact ⟨hdir pgData isRoot_pgData, hdir wal isRoot_wal, hdir config isRoot_config⟩

/-- Two dots lead out of the data directory. -/
theorem pgDataPath_leaves :
    pgDataPath (lit "/../wal/x") = lit "/var/lib/postgresql/wal/x" ∧
      ¬ AtOrBelow pgData (pgDataPath (lit "/../wal/x")) := by
  refine ⟨by decide, ?_⟩
  rintro ⟨-, h⟩
  exact absurd ( isPrefixOf_iff_prefix.2 h) (by decide)

end

end Athos.Datadir
