/-
The client-to-daemon path map (`src/path_map.py`).

The map is a text of comma-separated `client_prefix=daemon_prefix` entries, and a path is translated
by the first entry whose client prefix begins it.  That the prefix begins the path is decided on the
texts, whereas the entries stand for directories: `translate_iff` says for which maps and paths the
two readings lead to the same result.
-/
import PalaceDaemon.Lib.PyText
import PalaceDaemon.Mines.Gate

namespace PalaceDaemon.PathMap

open Mines

/-! ### The map -/

/-- One entry of the map, with `,` taken off. -/
def parseEntry (entry : List Char) : Option (Path × Path) :=
  let entry := PyText.strip entry
  if entry = [] ∨ '=' ∉ entry then none
  else
    let clientPrefix := PyText.strip (entry.takeWhile (· ≠ '='))
    let daemonPrefix := PyText.strip ((entry.dropWhile (· ≠ '=')).drop 1)
    if clientPrefix ≠ [] ∧ daemonPrefix ≠ [] then some (clientPrefix, daemonPrefix) else none

/-- `parse_path_map`; without a text there is no entry. -/
def parsePathMap (raw : Option (List Char)) : List (Path × Path) :=
  let raw := PyText.strip (raw.getD [])
  if raw = [] then [] else (raw.splitOn ',').filterMap parseEntry

/-- The entry whose prefixes `translate_client_path` exchanges. -/
def usedEntry (pathMap : List (Path × Path)) (path : Path) : Option (Path × Path) :=
  pathMap.find? fun pair => pair.1.isPrefixOf path

lemma translateClientPath_eq (pathMap : List (Path × Path)) (path : Path) :
    translateClientPath pathMap path = match usedEntry pathMap path with
      | none => path
      | some (clientPrefix, daemonPrefix) =>
          (daemonPrefix.reverse.dropWhile (· = '/')).reverse ++
            '/' :: (path.drop clientPrefix.length).dropWhile (· = '/') := rfl

lemma ne_nil_of_parseEntry {entry : List Char} {pair : Path × Path}
    (h : parseEntry entry = some pair) : pair.1 ≠ [] ∧ pair.2 ≠ [] := by
  simp only [parseEntry] at h
  split_ifs at h with _ hne
  obtain rfl := Option.some_injective _ h
  exact hne

/-- No prefix of an entry is empty. -/
lemma ne_nil_of_mem {raw : Option (List Char)} {pair : Path × Path}
    (h : pair ∈ parsePathMap raw) : pair.1 ≠ [] ∧ pair.2 ≠ [] := by
  simp only [parsePathMap] at h
  split_ifs at h with hraw
  · cases h
  · obtain ⟨entry, -, hentry⟩ := List.mem_filterMap.1 h
    exact ne_nil_of_parseEntry hentry

/-! ### Paths by their components -/

/-- `dir` is the path itself or one of its ancestor directories. -/
def Ancestor (dir path : Path) : Prop :=
  isAbsolute dir = isAbsolute path ∧ pathParts dir <+: pathParts path

instance (dir path : Path) : Decidable (Ancestor dir path) := inferInstanceAs (Decidable (_ ∧ _))

/-- **Translation by components.** The first entry whose client prefix is the path itself or an
ancestor directory of it is the one that is used, and its daemon prefix takes the place of the
components of the client prefix; without such an entry the path stays as it is. -/
structure ByComponents (pathMap : List (Path × Path)) (path : Path) : Prop where
  used : usedEntry pathMap path = pathMap.find? fun pair => Ancestor pair.1 path
  moved : ∀ clientPrefix daemonPrefix,
    (pathMap.find? fun pair => Ancestor pair.1 path) = some (clientPrefix, daemonPrefix) →
      isAbsolute (translateClientPath pathMap path) = isAbsolute daemonPrefix ∧
      pathParts (translateClientPath pathMap path) =
        pathParts daemonPrefix ++ (pathParts path).drop (pathParts clientPrefix).length
  passed : (pathMap.find? fun pair => Ancestor pair.1 path) = none →
    translateClientPath pathMap path = path

/-- The text of `dir` begins the path, and does not end within a name: it ends with a slash, or the
path ends there or goes on with one. -/
def Boundary (dir path : Path) : Prop :=
  dir <+: path ∧ (dir.getLast? = some '/' ∨ ∀ c ∈ (path.drop dir.length).head?, c = '/')

instance (dir path : Path) : Decidable (Boundary dir path) := inferInstanceAs (Decidable (_ ∧ _))

/-! ### The components of a text -/

/-- The parts of a text between two slashes: none where `pathlib` leaves it out. -/
def partsOf (name : List Char) : List Path := if name ≠ [] ∧ name ≠ ['.'] then [name] else []

@[simp] lemma pathParts_nil : pathParts [] = [] := by simp [pathParts, List.splitOn_nil]

lemma pathParts_name {name : List Char} (h : '/' ∉ name) : pathParts name = partsOf name := by
  have hsplit : name.splitOn '/' = [name] := by
    refine List.splitOnP_eq_singleton fun c hc => ?_
    simpa using fun hslash : c = '/' => h (hslash ▸ hc)
  by_cases hkeep : name ≠ [] ∧ name ≠ ['.'] <;> simp [pathParts, hsplit, partsOf, hkeep]

/-- A slash separates components. -/
lemma pathParts_slash (s t : Path) : pathParts (s ++ '/' :: t) = pathParts s ++ pathParts t := by
  have hsplit : (s ++ '/' :: t).splitOn '/' = s.splitOn '/' ++ t.splitOn '/' :=
    List.splitOnP_append_cons s t (by simp)
  rw [pathParts, hsplit, List.filter_append]
  rfl

lemma pathParts_cons_slash (s : Path) : pathParts ('/' :: s) = pathParts s :=
  (pathParts_slash [] s).trans (by rw [pathParts_nil, List.nil_append])

lemma pathParts_concat_slash (s : Path) : pathParts (s ++ ['/']) = pathParts s :=
  (pathParts_slash s []).trans (by rw [pathParts_nil, List.append_nil])

/-- `lstrip("/")` keeps the components. -/
lemma pathParts_lstrip (s : Path) : pathParts (s.dropWhile (· = '/')) = pathParts s := by
  induction s with
  | nil => rfl
  | cons c s ih =>
    by_cases hc : c = '/'
    · rw [List.dropWhile_cons_of_pos (by simpa using hc), ih, hc, pathParts_cons_slash]
    · rw [List.dropWhile_cons_of_neg (by simpa using hc)]

/-- `rstrip("/")` keeps the components. -/
lemma pathParts_rstrip (s : Path) :
    pathParts (s.reverse.dropWhile (· = '/')).reverse = pathParts s := by
  induction s using List.reverseRecOn with
  | nil => rfl
  | append_singleton s c ih =>
    rw [List.reverse_append, List.reverse_singleton, List.singleton_append]
    by_cases hc : c = '/'
    · rw [List.dropWhile_cons_of_pos (by simpa using hc), ih, hc, pathParts_concat_slash]
    · rw [List.dropWhile_cons_of_neg (by simpa using hc), List.reverse_cons, List.reverse_reverse]

/-- A text ends with a name, empty where it ends with a slash. -/
lemma exists_lastName (s : Path) :
    ∃ dirs name, '/' ∉ name ∧ s = dirs ++ name ∧
      (dirs ≠ [] → dirs.getLast? = some '/') ∧
      ∀ t, '/' ∉ t → pathParts (dirs ++ t) = pathParts dirs ++ partsOf t := by
  induction s using List.reverseRecOn with
  | nil =>
    refine ⟨[], [], List.not_mem_nil, rfl, fun h => absurd rfl h, fun t ht => ?_⟩
    rw [pathParts_nil, List.nil_append, List.nil_append, pathParts_name ht]
  | append_singleton s c ih =>
    obtain ⟨dirs, name, hname, rfl, hlast, hparts⟩ := ih
    by_cases hc : c = '/'
    · refine ⟨dirs ++ name ++ ['/'], [], List.not_mem_nil, by rw [hc, List.append_nil],
        fun _ => List.getLast?_concat, fun t ht => ?_⟩
      rw [List.append_assoc _ ['/'], List.singleton_append, pathParts_slash, pathParts_name ht,
        pathParts_concat_slash]
    · refine ⟨dirs, name ++ [c], ?_, List.append_assoc .., hlast, hparts⟩
      rw [List.mem_append, List.mem_singleton]
      rintro (h | h)
      · exact hname h
      · exact hc h.symm

/-- A text begins with a name, empty where it begins with a slash. -/
lemma exists_firstName (s : Path) :
    ∃ name rest, '/' ∉ name ∧ s = name ++ rest ∧ (∀ c ∈ rest.head?, c = '/') ∧
      ∀ u, pathParts (u ++ rest) = pathParts u ++ pathParts rest := by
  induction s with
  | nil =>
    refine ⟨[], [], List.not_mem_nil, rfl, ?_, fun u => ?_⟩
    · rintro c ⟨⟩
    · rw [pathParts_nil, List.append_nil, List.append_nil]
  | cons c s ih =>
    by_cases hc : c = '/'
    · refine ⟨[], c :: s, List.not_mem_nil, rfl, fun x hx => ?_, fun u => ?_⟩
      · rw [List.head?_cons, Option.mem_some_iff] at hx
        rw [← hx, hc]
      · rw [hc, pathParts_slash, pathParts_cons_slash]
    · obtain ⟨name, rest, hname, rfl, hhead, hparts⟩ := ih
      refine ⟨c :: name, rest, ?_, rfl, hhead, hparts⟩
      rintro (_ | ⟨_, h⟩)
      · exact hc rfl
      · exact hname h

/-! ### Where the text of a prefix ends -/

/-- What the path has after a prefix that ends with a name is after the components of the prefix. -/
lemma Boundary.parts {dir path : Path} (h : Boundary dir path) :
    pathParts path = pathParts dir ++ pathParts (path.drop dir.length) := by
  obtain ⟨⟨s, rfl⟩, hend⟩ := h
  rw [List.drop_left] at hend ⊢
  rcases hend with hslash | hhead
  · obtain ⟨d, rfl⟩ := List.getLast?_eq_some_iff.1 hslash
    rw [List.append_assoc, List.singleton_append, pathParts_slash, pathParts_concat_slash]
  · cases s with
    | nil => rw [List.append_nil, pathParts_nil, List.append_nil]
    | cons c s =>
      rw [hhead c rfl, pathParts_slash, pathParts_cons_slash]

lemma Boundary.ancestor {dir path : Path} (hdir : dir ≠ []) (h : Boundary dir path) :
    Ancestor dir path := by
  refine ⟨?_, h.parts ▸ List.prefix_append ..⟩
  obtain ⟨s, rfl⟩ := h.1
  cases dir with
  | nil => exact absurd rfl hdir
  | cons c dir => rfl

/-- Within a name, the text after the prefix has other components than the path after those of the
prefix: it begins with a piece of a name, and the path with the whole of it. -/
lemma parts_ne_of_not_boundary {dir path : Path} (hdir : dir ≠ []) (hbegins : dir <+: path)
    (hancestor : Ancestor dir path) (h : ¬Boundary dir path) :
    pathParts (path.drop dir.length) ≠ (pathParts path).drop (pathParts dir).length := by
  obtain ⟨s, rfl⟩ := hbegins
  obtain ⟨dirs, l, hl, rfl, hlast, hdirs⟩ := exists_lastName dir
  obtain ⟨m, rest, hm, rfl, hhead, hrest⟩ := exists_firstName s
  have hl0 : l ≠ [] := by
    rintro rfl
    rw [List.append_nil] at hdir h
    exact h ⟨List.prefix_append .., .inl (hlast hdir)⟩
  have hm0 : m ≠ [] := by
    rintro rfl
    refine h ⟨List.prefix_append .., .inr ?_⟩
    rwa [List.drop_left]
  have hlm : '/' ∉ l ++ m := by
    rw [List.mem_append]
    exact fun hor => hor.elim hl hm
  -- the name in which the prefix ends is longer than a dot
  have hlen : 2 ≤ (l ++ m).length := by
    have := List.length_pos_iff.2 hl0
    have := List.length_pos_iff.2 hm0
    rw [List.length_append]
    omega
  have hname : partsOf (l ++ m) = [l ++ m] := by
    refine if_pos ⟨fun hnil => ?_, fun hdot => ?_⟩
    · rw [hnil] at hlen
      cases hlen
    · rw [hdot] at hlen
      exact absurd hlen (by decide)
  have hpath : pathParts (dirs ++ l ++ (m ++ rest)) =
      pathParts dirs ++ (l ++ m) :: pathParts rest := by
    rw [← List.append_assoc, hrest, List.append_assoc, hdirs _ hlm, hname, List.append_assoc,
      List.singleton_append]
  have hsuffix : pathParts (m ++ rest) = partsOf m ++ pathParts rest := by
    rw [hrest, pathParts_name hm]
  have hbelow := hancestor.2
  rw [hpath, hdirs l hl, List.prefix_append_right_inj] at hbelow
  rw [List.drop_left, hsuffix, hpath, hdirs l hl, List.length_append, List.drop_length_add_append]
  intro heq
  by_cases hkeep : l ≠ [] ∧ l ≠ ['.']
  · rw [partsOf, if_pos hkeep, List.cons_prefix_cons] at hbelow
    exact hm0 (List.append_right_eq_self.1 hbelow.1.symm)
  · rw [show partsOf l = [] from if_neg hkeep, List.length_nil, List.drop_zero] at heq
    by_cases hkeep' : m ≠ [] ∧ m ≠ ['.']
    · rw [partsOf, if_pos hkeep', List.singleton_append, List.cons.injEq] at heq
      exact hl0 (List.append_left_eq_self.1 heq.1.symm)
    · rw [show partsOf m = [] from if_neg hkeep', List.nil_append] at heq
      exact absurd (congrArg List.length heq) (by rw [List.length_cons]; omega)

/-! ### The translation -/

section First

variable {α : Type} {p q : α → Bool} {l : List α} {a : α}

lemma find?_left (h : (l.find? fun a => p a || q a) = some a) (hp : p a = true) :
    l.find? p = some a := by
  obtain ⟨-, as, bs, rfl, has⟩ := List.find?_eq_some_iff_append.1 h
  refine List.find?_eq_some_iff_append.2 ⟨hp, as, bs, rfl, fun b hb => ?_⟩
  have := has b hb
  rw [Bool.not_or, Bool.and_eq_true] at this
  exact this.1

lemma find?_right (h : (l.find? fun a => p a || q a) = some a) (hq : q a = true) :
    l.find? q = some a := by
  have hswap : (fun a => p a || q a) = fun a => q a || p a := by
    ext a
    exact Bool.or_comm ..
  rw [hswap] at h
  exact find?_left h hq

/-- Where two searches agree, the first element of either kind is of both kinds. -/
lemma both_of_find?_eq (heq : l.find? p = l.find? q)
    (h : (l.find? fun a => p a || q a) = some a) : p a = true ∧ q a = true := by
  have hor := List.find?_some h
  rw [Bool.or_eq_true] at hor
  rcases hor with hp | hq
  · exact ⟨hp, List.find?_some (heq ▸ find?_left h hp)⟩
  · exact ⟨List.find?_some (heq.symm ▸ find?_right h hq), hq⟩

/-- Two searches agree where the first element of either kind is of both kinds. -/
lemma find?_eq_of_both
    (h : ∀ a, (l.find? fun a => p a || q a) = some a → p a = true ∧ q a = true) :
    l.find? p = l.find? q := by
  rcases hfirst : l.find? (fun a => p a || q a) with _ | a
  · simp only [List.find?_eq_none, Bool.or_eq_true, not_or] at hfirst
    rw [List.find?_eq_none.2 fun a ha => (hfirst a ha).1,
      List.find?_eq_none.2 fun a ha => (hfirst a ha).2]
  · obtain ⟨hp, hq⟩ := h a hfirst
    rw [find?_left hfirst hp, find?_right hfirst hq]

end First

/-- The prefixes of an entry are exchanged so that the components after the client prefix follow
those of the daemon prefix. -/
lemma parts_translate {pathMap : List (Path × Path)} {path clientPrefix daemonPrefix : Path}
    (h : usedEntry pathMap path = some (clientPrefix, daemonPrefix)) :
    pathParts (translateClientPath pathMap path) =
      pathParts daemonPrefix ++ pathParts (path.drop clientPrefix.length) := by
  rw [translateClientPath_eq, h]
  simp only [pathParts_slash, pathParts_rstrip, pathParts_lstrip]

lemma isAbsolute_rstrip {s t : Path} (hs : s ≠ []) :
    isAbsolute ((s.reverse.dropWhile (· = '/')).reverse ++ '/' :: t) = isAbsolute s := by
  have hkept : (s.reverse.dropWhile (· = '/')).reverse <+: s := by
    rw [← List.reverse_suffix, List.reverse_reverse]
    exact List.dropWhile_suffix _
  rcases hr : (s.reverse.dropWhile (· = '/')).reverse with _ | ⟨c, r⟩
  · -- nothing is left of a text of slashes
    obtain ⟨c, s, rfl⟩ := List.exists_cons_of_ne_nil hs
    rw [List.reverse_eq_nil_iff, List.dropWhile_eq_nil_iff] at hr
    have hc : c = '/' := by simpa using hr c (by simp)
    rw [hc]
    rfl
  · rw [hr] at hkept
    obtain ⟨u, rfl⟩ := hkept
    rfl

/-- **Translation by components, and by texts.** A path is translated by components exactly when
the first entry whose client prefix begins its text or is it or an ancestor directory of it begins
its text and does not end within a name. -/
theorem translate_iff (raw : Option (List Char)) (path : Path) :
    ByComponents (parsePathMap raw) path ↔
      ∀ pair, ((parsePathMap raw).find? fun pair =>
          pair.1.isPrefixOf path || Ancestor pair.1 path) = some pair → Boundary pair.1 path := by
  constructor
  · rintro h ⟨clientPrefix, daemonPrefix⟩ hfirst
    have hdir := (ne_nil_of_mem (List.mem_of_find?_eq_some hfirst)).1
    have hboth := both_of_find?_eq h.used hfirst
    have hancestor := find?_right hfirst hboth.2
    have hused := h.used.trans hancestor
    have hmoved := (h.moved _ _ hancestor).2
    rw [parts_translate hused, List.append_cancel_left_eq] at hmoved
    by_contra hboundary
    exact parts_ne_of_not_boundary hdir (List.isPrefixOf_iff_prefix.1 hboth.1)
      (of_decide_eq_true hboth.2) hboundary hmoved
  · intro h
    have hboth : ∀ pair, ((parsePathMap raw).find? fun pair =>
        pair.1.isPrefixOf path || Ancestor pair.1 path) = some pair →
          pair.1.isPrefixOf path = true ∧ decide (Ancestor pair.1 path) = true := by
      intro pair hfirst
      have hdir := (ne_nil_of_mem (List.mem_of_find?_eq_some hfirst)).1
      have hboundary := h pair hfirst
      exact ⟨List.isPrefixOf_iff_prefix.2 hboundary.1,
        decide_eq_true (hboundary.ancestor hdir)⟩
    have hused : usedEntry (parsePathMap raw) path =
        (parsePathMap raw).find? fun pair => Ancestor pair.1 path := find?_eq_of_both hboth
    refine ⟨hused, fun clientPrefix daemonPrefix hancestor => ?_, fun hnone => ?_⟩
    · rw [← hused] at hancestor
      have hdaemon := (ne_nil_of_mem (List.mem_of_find?_eq_some hancestor)).2
      have hboundary : Boundary clientPrefix path := by
        have hmem := List.mem_of_find?_eq_some hancestor
        have htext := List.find?_some hancestor
        rcases hfirst : (parsePathMap raw).find? fun pair =>
            pair.1.isPrefixOf path || Ancestor pair.1 path with _ | pair
        · exact absurd (by rw [htext, Bool.true_or]) (List.find?_eq_none.1 hfirst _ hmem)
        · have hpair := hancestor.symm.trans (find?_left hfirst (hboth pair hfirst).1)
          obtain rfl := Option.some_injective _ hpair
          exact h _ hfirst
      refine ⟨?_, ?_⟩
      · rw [translateClientPath_eq, hancestor]
        exact isAbsolute_rstrip hdaemon
      · rw [parts_translate hancestor, hboundary.parts, List.drop_left]
    · rw [translateClientPath_eq, hused, hnone]

/-- A prefix without its last slash also begins the name of a sibling. -/
theorem translate_sibling_fails :
    ¬∀ (raw : Option (List Char)) (path : Path), isAbsolute path = true →
      ByComponents (parsePathMap raw) path := by
  intro h
  have hpassed := (h (some "/home/u/.claude=/mnt/raid/cc/".toList) "/home/u/.claude-old/x".toList
    (by decide)).passed (by decide +kernel)
  exact absurd hpassed (by decide +kernel)

end PalaceDaemon.PathMap
