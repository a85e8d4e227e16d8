import Athos.Base.Strings

/-!
# Slash-separated paths

`filepath.Clean` and `filepath.Join` as they are documented, for paths that slashes separate. What a
path does is the same from every directory: it climbs some levels and then descends by names.
Cleaning writes just that, and nothing climbs above the root.
-/

namespace Athos.Base.Path

open List

/-- What separates the elements of a path. -/
def slash : UInt8 := 0x2F

/-- The element for the directory itself. -/
def dot : GoString := lit "."

/-- The element for the directory above. -/
def dotdot : GoString := lit ".."

/-- What a path does: climb, then descend. -/
structure Route where
  up : Nat
  down : List GoString
  deriving DecidableEq

/-- Take one more element: empty and dot elements stay, and two dots go back. -/
def Route.step (r : Route) (c : GoString) : Route :=
  if c = [] ∨ c = dot then r
  else if c = dotdot then
    if r.down = [] then { r with up := r.up + 1 } else { r with down := r.down.dropLast }
  else { r with down := r.down ++ [c] }

/-- The route along a list of elements. -/
def routeOf (cs : List GoString) : Route := cs.foldl Route.step ⟨0, []⟩

/-- What a path does. -/
def route (path : GoString) : Route := routeOf (path.splitOn slash)

/-- `filepath.IsAbs`. -/
def isAbs (path : GoString) : Bool := path.head? == some slash

/-- The path with the given elements. -/
def join (cs : List GoString) : GoString := List.intercalate [slash] cs

/-- `filepath.Clean`. -/
def clean (path : GoString) : GoString :=
  let r := route path
  if isAbs path then slash :: join r.down
  else if r.up = 0 ∧ r.down = [] then dot
  else join (List.replicate r.up dotdot ++ r.down)

/-- `filepath.Join`. -/
def joinPath (elems : List GoString) : GoString :=
  match elems.dropWhile (· == []) with
  | [] => []
  | es => clean (join es)

/-- The elements of a path that say something. -/
def elements (path : GoString) : List GoString := (path.splitOn slash).filter (· ≠ [])

/-- A path is at or below another, element by element. -/
def AtOrBelow (root path : GoString) : Prop :=
  isAbs path = isAbs root ∧ elements root <+: elements path

section

variable {c : GoString} {cs ds : List GoString} {r : Route} {path s t : GoString}

/-- An element that leads one level down. -/
structure IsName (c : GoString) : Prop where
  ne_nil : c ≠ []
  ne_dot : c ≠ dot
  ne_dotdot : c ≠ dotdot

private theorem Route.step_name (h : IsName c) (r : Route) :
    r.step c = { r with down := r.down ++ [c] } := by
  rw [Route.step, if_neg (not_or.2 ⟨h.ne_nil, h.ne_dot⟩), if_neg h.ne_dotdot]

private theorem Route.step_skip (h : c = [] ∨ c = dot) (r : Route) : r.step c = r := if_pos h

private theorem Route.step_dotdot (r : Route) :
    r.step dotdot =
      if r.down = [] then { r with up := r.up + 1 } else { r with down := r.down.dropLast } := by
  rw [Route.step, if_neg (by decide), if_pos rfl]

private theorem element_cases (c : GoString) : (c = [] ∨ c = dot) ∨ c = dotdot ∨ IsName c := by
  by_cases hskip : c = [] ∨ c = dot
  · exact .inl hskip
  · by_cases hback : c = dotdot
    · exact .inr (.inl hback)
    · rw [not_or] at hskip
      exact .inr (.inr ⟨hskip.1, hskip.2, hback⟩)

private theorem routeOf_append (cs : List GoString) (c : GoString) :
    routeOf (cs ++ [c]) = (routeOf cs).step c := by
  rw [routeOf, foldl_append]
  rfl

private theorem foldl_step_names (h : ∀ c ∈ ds, IsName c) (r : Route) :
    ds.foldl Route.step r = { r with down := r.down ++ ds } := by
  induction ds generalizing r with
  | nil => simp
  | cons d ds ih =>
    obtain ⟨hd, hds⟩ := forall_mem_cons.1 h
    rw [foldl_cons, Route.step_name hd, ih hds]
    simp

private theorem foldl_step_replicate (n u : Nat) :
    (List.replicate n dotdot).foldl Route.step ⟨u, []⟩ = ⟨u + n, []⟩ := by
  induction n generalizing u with
  | zero => rfl
  | succ n ih =>
    rw [replicate_succ, foldl_cons, Route.step_dotdot, if_pos rfl, ih,
      Nat.add_right_comm, Nat.add_assoc]

private theorem routeOf_normal (n : Nat) (h : ∀ c ∈ ds, IsName c) :
    routeOf (List.replicate n dotdot ++ ds) = ⟨n, ds⟩ := by
  rw [routeOf, foldl_append, foldl_step_replicate, foldl_step_names h]
  simp

private theorem isName_of_mem_down : ∀ c ∈ (routeOf cs).down, IsName c ∧ c ∈ cs := by
  induction cs using List.reverseRecOn with
  | nil => simp [routeOf]
  | append_singleton cs d ih =>
    have hold : ∀ c ∈ (routeOf cs).down, IsName c ∧ c ∈ cs ++ [d] := fun c hc =>
      ⟨(ih c hc).1, mem_append_left _ (ih c hc).2⟩
    rw [routeOf_append]
    rcases element_cases d with hskip | rfl | hname
    · rw [Route.step_skip hskip]
      exact hold
    · rw [Route.step_dotdot]
      split_ifs
      · exact hold
      · exact fun c hc => hold c (mem_of_mem_dropLast hc)
    · rw [Route.step_name hname]
      intro c hc
      rcases mem_append.1 hc with hc | hc
      · exact hold c hc
      · rw [mem_singleton.1 hc]
        exact ⟨hname, by simp⟩

private theorem foldl_step_eq (r : Route) (cs : List GoString) :
    cs.foldl Route.step r =
      ⟨r.up + ((routeOf cs).up - r.down.length),
        r.down.take (r.down.length - (routeOf cs).up) ++ (routeOf cs).down⟩ := by
  induction cs using List.reverseRecOn with
  | nil => simp [routeOf]
  | append_singleton cs c ih =>
    rw [foldl_append, ih, routeOf_append, foldl_cons, foldl_nil]
    generalize routeOf cs = q
    rcases element_cases c with hskip | rfl | hname
    · rw [Route.step_skip hskip, Route.step_skip hskip]
    · rw [Route.step_dotdot, Route.step_dotdot]
      by_cases hdown : q.down = []
      · -- Nothing to go back to in the route itself.
        simp only [hdown, append_nil, if_true]
        by_cases hlen : r.down.length ≤ q.up
        · rw [Nat.sub_eq_zero_of_le hlen, Nat.sub_eq_zero_of_le (Nat.le_succ_of_le hlen)]
          simp only [take_zero, if_true]
          congr 1
          omega
        · have hne : r.down.take (r.down.length - q.up) ≠ [] := by
            rw [Ne, take_eq_nil_iff, ← length_eq_zero_iff]
            omega
          rw [if_neg hne, dropLast_eq_take, take_take, length_take]
          congr 2 <;> omega
      · have hne : r.down.take (r.down.length - q.up) ++ q.down ≠ [] := by simp [hdown]
        rw [if_neg hne, if_neg hdown, dropLast_append_of_ne_nil hdown]
    · rw [Route.step_name hname, Route.step_name hname, append_assoc]

/-- An element as it stands between slashes. -/
structure IsElement (c : GoString) : Prop where
  ne_nil : c ≠ []
  slash_not_mem : slash ∉ c

/-- The empty path stays where it is. -/
theorem route_nil : route [] = ⟨0, []⟩ := rfl

private theorem splitOn_slash_cons (s : GoString) :
    (slash :: s).splitOn slash = [] :: s.splitOn slash :=
  splitOn_append_cons_self [] s

/-- A slash in front does not change the way. -/
theorem route_slash_cons (s : GoString) : route (slash :: s) = route s := by
  rw [route, splitOn_slash_cons]
  rfl

/-- A slash in front adds no element. -/
theorem elements_slash_cons (s : GoString) : elements (slash :: s) = elements s := by
  rw [elements, splitOn_slash_cons]
  rfl

/-- A path with a slash in front is absolute. -/
theorem isAbs_slash_cons (s : GoString) : isAbs (slash :: s) = true := rfl

/-- One way after the other: steps up take back steps down. -/
theorem route_append (s t : GoString) :
    route (s ++ slash :: t) =
      ⟨(route s).up + ((route t).up - (route s).down.length),
        (route s).down.take ((route s).down.length - (route t).up) ++ (route t).down⟩ := by
  rw [route, splitOn_append_cons_self, routeOf, foldl_append]
  exact foldl_step_eq _ _

private theorem route_join (h : ∀ c ∈ cs, IsElement c) : route (join cs) = routeOf cs := by
  cases cs with
  | nil => rfl
  | cons c cs =>
    rw [route, join, splitOn_intercalate slash (fun d hd => (h d hd).slash_not_mem) (by simp)]

/-- Elements are read back from the path that joins them. -/
theorem elements_join (h : ∀ c ∈ cs, IsElement c) : elements (join cs) = cs := by
  cases cs with
  | nil => rfl
  | cons c cs =>
    rw [elements, join, splitOn_intercalate slash (fun d hd => (h d hd).slash_not_mem) (by simp),
      filter_eq_self]
    exact fun d hd => decide_eq_true (h d hd).ne_nil

private theorem isAbs_append (h : IsElement c) (s : GoString) : isAbs (c ++ s) = false := by
  obtain ⟨b, c, rfl⟩ := exists_cons_of_ne_nil h.ne_nil
  apply beq_eq_false_iff_ne.2
  intro hb
  exact ne_of_not_mem_cons h.slash_not_mem (Option.some.inj hb).symm

private theorem isAbs_join (h : ∀ c ∈ cs, IsElement c) : isAbs (join cs) = false := by
  match cs with
  | [] => rfl
  | [c] =>
    rw [join, intercalate_singleton, ← append_nil c]
    exact isAbs_append (h c mem_cons_self) []
  | c :: d :: cs =>
    rw [join, intercalate_cons_cons, append_assoc]
    exact isAbs_append (h c mem_cons_self) _

/-- The elements that a cleaned path has when it is relative. -/
theorem isElement_normal (path : GoString) :
    ∀ c ∈ List.replicate (route path).up dotdot ++ (route path).down, IsElement c := by
  intro c hc
  rcases mem_append.1 hc with hc | hc
  · rw [eq_of_mem_replicate hc]
    exact ⟨by decide, by decide⟩
  · obtain ⟨hname, hmem⟩ := isName_of_mem_down c hc
    exact ⟨hname.ne_nil, not_mem_of_mem_splitOn hmem⟩

/-- The steps down are elements. -/
theorem isElement_down (path : GoString) : ∀ c ∈ (route path).down, IsElement c :=
  fun c hc => isElement_normal path c (mem_append_right _ hc)

private theorem isName_down (path : GoString) : ∀ c ∈ (route path).down, IsName c :=
  fun c hc => (isName_of_mem_down c hc).1

/-- `Clean` on an absolute path keeps the steps down. -/
theorem clean_of_isAbs (h : isAbs path = true) : clean path = slash :: join (route path).down :=
  if_pos h

/-- `Clean` keeps absolute paths absolute. -/
theorem isAbs_clean (path : GoString) : isAbs (clean path) = isAbs path := by
  simp only [clean]
  split_ifs with habs hdot
  · exact habs.symm
  · rw [Bool.eq_false_iff.2 habs]
    rfl
  · rw [isAbs_join (isElement_normal path), Bool.eq_false_iff.2 habs]

private theorem route_clean (path : GoString) :
    route (clean path) = ⟨if isAbs path then 0 else (route path).up, (route path).down⟩ := by
  simp only [clean]
  split_ifs with habs hdot
  · rw [route_slash_cons, route_join (isElement_down path)]
    exact routeOf_normal 0 (isName_down path)
  · rw [hdot.1, hdot.2]
    rfl
  · rw [route_join (isElement_normal path), routeOf_normal _ (isName_down path)]

/-- What is clean stays as it is. -/
theorem clean_clean (path : GoString) : clean (clean path) = clean path := by
  rw [clean.eq_1 (clean path), route_clean, isAbs_clean, clean]
  cases isAbs path <;> rfl

/-- The elements of a cleaned absolute path are the steps down. -/
theorem elements_clean (h : isAbs path = true) : elements (clean path) = (route path).down := by
  rw [clean_of_isAbs h, elements_slash_cons, elements_join (isElement_down path)]

private theorem join_singleton (c : GoString) : join [c] = c := intercalate_singleton

private theorem join_cons (h : cs ≠ []) (c : GoString) :
    join (c :: cs) = c ++ slash :: join cs := by
  rw [join, intercalate_cons_of_ne_nil h, append_assoc]
  rfl

/-- Joining in two parts. -/
theorem join_append (hc : cs ≠ []) (hd : ds ≠ []) :
    join (cs ++ ds) = join cs ++ slash :: join ds := by
  induction cs with
  | nil => exact absurd rfl hc
  | cons c cs ih =>
    by_cases hcs : cs = []
    · rw [hcs, singleton_append, join_cons hd, join_singleton]
    · rw [cons_append, join_cons (by simp [hcs]), join_cons hcs, ih hcs, append_assoc, cons_append]

/-- `path.Join` of two paths of which the first is not empty. -/
theorem joinPath_pair (h : s ≠ []) (t : GoString) : joinPath [s, t] = clean (s ++ slash :: t) := by
  have hdrop : [s, t].dropWhile (· == []) = [s, t] := dropWhile_cons_of_neg (by simpa using h)
  rw [joinPath, hdrop]
  exact congrArg clean ((join_cons (by simp) s).trans (by rw [join_singleton]))

private theorem prefix_append_slash_iff (hs : slash ∉ s) : s <+: c ++ slash :: t ↔ s <+: c := by
  refine ⟨fun h => ?_, prefix_append_of_prefix⟩
  induction s generalizing c with
  | nil => exact nil_prefix
  | cons b s ih =>
    rw [mem_cons, not_or] at hs
    cases c with
    | nil => exact absurd (cons_prefix_cons.1 h).1.symm hs.1
    | cons a c =>
      obtain ⟨rfl, htail⟩ := cons_prefix_cons.1 h
      exact cons_prefix_cons.2 ⟨rfl, ih hs.2 htail⟩

private theorem append_slash_prefix_iff (hs : slash ∉ s) (hc : slash ∉ c) {u : GoString} :
    s ++ slash :: u <+: c ++ slash :: t ↔ s = c ∧ u <+: t := by
  refine ⟨fun h => ?_, fun ⟨hsc, h⟩ => ?_⟩
  · have hsc : s <+: c := (prefix_append_slash_iff hs).1 ((prefix_append s _).trans h)
    obtain ⟨d, rfl⟩ := hsc
    rw [append_assoc, prefix_append_right_inj] at h
    cases d with
    | nil => exact ⟨(append_nil s).symm, (cons_prefix_cons.1 h).2⟩
    | cons b d =>
      have hb : slash = b := (cons_prefix_cons.1 h).1
      exact absurd (by simp [hb]) hc
  · rw [hsc, prefix_append_right_inj, cons_prefix_cons]
    exact ⟨rfl, h⟩

/-- A text begins with that of a path if the elements agree, but for the last one, which may go
on. -/
theorem join_prefix_join_iff {last : GoString} (hlast : IsElement last)
    (hcs : ∀ c ∈ cs, IsElement c) (hds : ∀ d ∈ ds, IsElement d) :
    join (cs ++ [last]) <+: join ds ↔ ∃ d rest, ds = cs ++ d :: rest ∧ last <+: d := by
  induction cs generalizing ds with
  | nil =>
    rw [nil_append, join_singleton]
    match ds with
    | [] => simp [join, hlast.ne_nil]
    | d :: rest =>
      have hd : last <+: join (d :: rest) ↔ last <+: d := by
        by_cases hrest : rest = []
        · rw [hrest, join_singleton]
        · rw [join_cons hrest, prefix_append_slash_iff hlast.slash_not_mem]
      simp [hd]
  | cons c cs ih =>
    obtain ⟨hc, hcs⟩ := forall_mem_cons.1 hcs
    rw [cons_append, join_cons (by simp)]
    match ds with
    | [] => simp [join]
    | [d] =>
      rw [join_singleton]
      constructor
      · intro h
        have hmem : slash ∈ d := h.subset (by simp)
        exact absurd hmem (hds d mem_cons_self).slash_not_mem
      · rintro ⟨e, rest, heq, -⟩
        simp at heq
    | d :: e :: rest =>
      obtain ⟨hd, hrest⟩ := forall_mem_cons.1 hds
      rw [join_cons (by simp), append_slash_prefix_iff hc.slash_not_mem hd.slash_not_mem,
        ih hcs hrest]
      grind

end

end Athos.Base.Path
