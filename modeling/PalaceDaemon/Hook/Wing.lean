/-
The wing a hook files a session under.

`_project_wing` tries four sources in turn: the folder of the transcript, which Claude Code names
after the directory the session was launched in; the working directory in the hook's payload; the
transcript's parent folder read without the file system; and the working directory of the hook
itself.  The first one with a name that has a slug gives the wing, with one exception: a working
directory below `~/Projects` gives the slug of its project even when that is empty.

The folder of a transcript is an encoded path in which every character but letters and digits is
a dash.  `_launch_wing` matches it against the names of the directories that exist, and takes the
target of a symbolic link in `~/Projects` for the link.

What the hook asks the operating system is a `Host`, whatever its directory tree.
-/
import PalaceDaemon.Hook.Slug
import PalaceDaemon.Mines.Gate

namespace PalaceDaemon.Hook

open PalaceDaemon.Wings

/-! ### Paths and the host -/

/-- A path, as `pathlib` holds one: the root, which is empty for a relative path, and the
components. -/
structure FsPath where
  root : Text
  parts : List Text
deriving DecidableEq, Repr

/-- `p / name` -/
def FsPath.child (p : FsPath) (name : Text) : FsPath := { p with parts := p.parts ++ [name] }

/-- `p.name` -/
def FsPath.name (p : FsPath) : Text := p.parts.getLastD []

/-- `str(p)` -/
def FsPath.str (p : FsPath) : Text :=
  match p.root ++ ['/'].intercalate p.parts with
  | [] => ['.']
  | s => s

/-- `p.relative_to(base).parts`, when `base` is `p` or one of its parents. -/
def FsPath.relativeTo (p base : FsPath) : Option (List Text) :=
  if p.root = base.root ∧ base.parts <+: p.parts then some (p.parts.drop base.parts.length)
  else none

/-- The exceptions of Python, as far as a handler tells them apart. -/
inductive Exc
  | osError
  | valueError
  | runtimeError
  | typeError
  | attributeError
deriving DecidableEq, Repr

/-- What the hook asks the operating system. -/
structure Host where
  /-- `Path.home()`; there may be none, which is a `RuntimeError`. -/
  home : Option FsPath
  /-- The names of the children that are directories, in the order of `iterdir`; `none` is an
  `OSError`. -/
  subdirs : FsPath → Option (List Text)
  /-- `link.is_symlink()` -/
  isSymlink : FsPath → Bool
  /-- `Path(os.path.realpath(p))`; `none` is an `OSError` or a `ValueError`. -/
  realpath : FsPath → Option FsPath
  /-- `Path(s).expanduser().resolve()` -/
  resolveUser : Text → Except Exc FsPath
  /-- `p.resolve()` -/
  resolve : FsPath → Except Exc FsPath
  /-- `Path(os.getcwd())` -/
  getcwd : Except Exc FsPath

/-- The field `cwd` of a payload. -/
inductive Cwd
  /-- It is missing, or a value that is false. -/
  | falsy
  /-- A text that is not empty. -/
  | text (s : Text)
  /-- Any other value. -/
  | other
deriving DecidableEq, Repr

/-- `"Projects"` -/
def projectsName : Text := "Projects".toList

/-- `"personal"` -/
def personal : Text := "personal".toList

/-- `a or b` on texts -/
def orElse (a b : Text) : Text := if a = [] then b else a

/-! ### The launch directory -/

/-- What follows the first occurrence of the marker, if there is one. -/
def afterFirst (marker : Text) : Text → Option Text
  | [] => none
  | c :: s =>
      if marker.isPrefixOf (c :: s) then some ((c :: s).drop marker.length)
      else afterFirst marker s

/-- `_decode_project_id` -/
def decodeProjectId (projectId : Text) : Text :=
  let s := projectId.dropWhile (· == '-')
  (afterFirst "Projects-".toList s).getD s

/-- `_encode_like_claude` -/
def encodeLikeClaude (path : Text) : Text := path.map fun c => if c.isAlphanum then c else '-'

/-- One round of the loop of `_longest_dir_match`. -/
def matchDir (rest best name : Text) : Text :=
  let enc := encodeLikeClaude name
  if enc ≠ [] ∧ (rest = enc ∨ (enc ++ ['-']).isPrefixOf rest) ∧
      (encodeLikeClaude best).length < enc.length then name else best

/-- `_longest_dir_match`, with the length of the best match read off the match itself. -/
def longestDirMatch (host : Host) (rest : Text) (parent : FsPath) : Text :=
  match host.subdirs parent with
  | none => []
  | some names => names.foldl (matchDir rest) []

/-- `_resolve_project_alias` -/
def resolveProjectAlias (host : Host) (projects : FsPath) (name : Text) : Text :=
  let link := projects.child name
  if host.isSymlink link then
    match host.realpath link, host.realpath projects with
    | some real, some root =>
        match real.relativeTo root with
        | some (part :: _) => part
        | _ => name
    | _, _ => name
  else name

/-- The folder that `/\.claude/projects/(-[^/]+)/` captures at the beginning of the text. -/
def leadingFolder (s : Text) : Option Text :=
  let marker := "/.claude/projects/".toList
  if marker.isPrefixOf s then
    let tail := s.drop marker.length
    let folder := tail.takeWhile (· ≠ '/')
    if folder.head? = some '-' ∧ 1 < folder.length ∧ folder.length < tail.length then some folder
    else none
  else none

/-- The first match of `/\.claude/projects/(-[^/]+)/`. -/
def searchFolder : Text → Option Text
  | [] => none
  | c :: s => (leadingFolder (c :: s)).or (searchFolder s)

/-- `transcript_path.replace("\\", "/")` -/
def forwardSlashes (s : Text) : Text := s.map fun c => if c = '\\' then '/' else c

/-- The part of `_launch_wing` below the match, for the folder and the home directory. -/
def launchWingAt (host : Host) (encoded : Text) (home : FsPath) : Text :=
  let homeEnc := encodeLikeClaude home.str
  let projects := home.child projectsName
  let projectsEnc := encodeLikeClaude projects.str
  if encoded = homeEnc then slugifyProject home.name
  else if (projectsEnc ++ ['-']).isPrefixOf encoded then
    let name := longestDirMatch host (encoded.drop (projectsEnc.length + 1)) projects
    let name := if name ≠ [] then resolveProjectAlias host projects name else name
    slugifyProject (orElse name (decodeProjectId encoded))
  else if (homeEnc ++ ['-']).isPrefixOf encoded then
    let rest := encoded.drop (homeEnc.length + 1)
    -- a hidden directory: '.' encodes to '-'
    if rest.head? = some '-' then slugifyProject home.name
    else
      slugifyProject (orElse (longestDirMatch host rest home) (rest.takeWhile (· ≠ '-')))
  else slugifyProject (decodeProjectId encoded)

/-- `_launch_wing` -/
def launchWing (host : Host) (transcriptPath : Text) : Text :=
  match searchFolder (forwardSlashes transcriptPath) with
  | none => []
  | some encoded =>
      match host.home with
      | none => slugifyProject (decodeProjectId encoded)
      | some home => launchWingAt host encoded home

/-! ### The other sources -/

/-- A `try` block whose handlers let the next source have its turn. -/
def trying (caught : List Exc) : Except Exc (Option Text) → Except Exc (Option Text)
  | .ok w => .ok w
  | .error e => if e ∈ caught then .ok none else .error e

/-- `Path.home()` outside a handler of its own. -/
def Host.homeDir (host : Host) : Except Exc FsPath :=
  match host.home with
  | none => .error .runtimeError
  | some home => .ok home

/-- `slug`, when it is not empty. -/
def nonempty (slug : Text) : Option Text := if slug = [] then none else some slug

/-- The second source: the working directory of the payload. -/
def cwdWing (host : Host) : Cwd → Except Exc (Option Text)
  | .falsy => .ok none
  | .other => .error .typeError
  | .text cwd => trying [.osError, .valueError] do
      let p ← host.resolveUser cwd
      let home ← host.homeDir
      let homeProjects ← host.resolve (home.child projectsName)
      match p.relativeTo homeProjects with
      | some (part :: _) => pure (some (slugifyProject part))
      | _ => pure (nonempty (slugifyProject p.name))

/-- `Path(s).parent.name` -/
def parentName (s : Text) : Text := (Mines.pathParts s).dropLast.getLastD []

/-- The third source: the parent folder of the transcript. -/
def parentWing (transcriptPath : Text) : Option Text :=
  if transcriptPath = [] then none
  else nonempty (slugifyProject (decodeProjectId (parentName transcriptPath)))

/-- The last source: the working directory of the hook. -/
def hereWing (host : Host) : Except Exc (Option Text) := trying [.osError] do
  let cwd ← host.getcwd
  let here ← host.resolve cwd
  let home ← host.homeDir
  let home ← host.resolve home
  if here = home then pure (some personal) else pure (nonempty (slugifyProject here.name))

/-- `_project_wing` -/
def projectWing (host : Host) (cwd : Cwd) (transcriptPath : Text) : Except Exc Text := do
  let launch := launchWing host transcriptPath
  if launch ≠ [] then pure launch
  else
    match ← cwdWing host cwd with
    | some wing => pure wing
    | none =>
        match parentWing transcriptPath with
        | some wing => pure wing
        | none => pure ((← hereWing host).getD personal)

/-! ### The name a wing is taken from -/

/-- The name, if it has a word. -/
def guardWord (name : Text) : Option Text := if hasWord name then some name else none

/-- The name that `_launch_wing` makes a slug of, for the folder and the home directory: the home
directory's, that of a directory in it, that of a project, or one decoded from the folder. -/
def launchNameAt (host : Host) (encoded : Text) (home : FsPath) : Text :=
  let homeEnc := encodeLikeClaude home.str
  let projects := home.child projectsName
  let projectsEnc := encodeLikeClaude projects.str
  if encoded = homeEnc then home.name
  else if (projectsEnc ++ ['-']).isPrefixOf encoded then
    let name := longestDirMatch host (encoded.drop (projectsEnc.length + 1)) projects
    orElse (if name ≠ [] then resolveProjectAlias host projects name else name)
      (decodeProjectId encoded)
  else if (homeEnc ++ ['-']).isPrefixOf encoded then
    let rest := encoded.drop (homeEnc.length + 1)
    if rest.head? = some '-' then home.name
    else orElse (longestDirMatch host rest home) (rest.takeWhile (· ≠ '-'))
  else decodeProjectId encoded

/-- The name of the launch directory, when the transcript is in a folder of Claude Code. -/
def launchName (host : Host) (transcriptPath : Text) : Option Text :=
  (searchFolder (forwardSlashes transcriptPath)).map fun encoded =>
    match host.home with
    | none => decodeProjectId encoded
    | some home => launchNameAt host encoded home

/-- The name that the payload's working directory gives: that of its project, or its own if that
has a word. -/
def cwdName (host : Host) : Cwd → Except Exc (Option Text)
  | .falsy => .ok none
  | .other => .error .typeError
  | .text cwd => trying [.osError, .valueError] do
      let p ← host.resolveUser cwd
      let home ← host.homeDir
      let homeProjects ← host.resolve (home.child projectsName)
      match p.relativeTo homeProjects with
      | some (part :: _) => pure (some part)
      | _ => pure (guardWord p.name)

/-- The name of the hook's own working directory, if it has a word and is not the home
directory. -/
def hereName (host : Host) : Except Exc (Option Text) := trying [.osError] do
  let cwd ← host.getcwd
  let here ← host.resolve cwd
  let home ← host.homeDir
  let home ← host.resolve home
  if here = home then pure (some personal) else pure (guardWord here.name)

/-- The name the wing is taken from. -/
def wingName (host : Host) (cwd : Cwd) (transcriptPath : Text) : Except Exc Text := do
  match (launchName host transcriptPath).bind guardWord with
  | some name => pure name
  | none =>
      match ← cwdName host cwd with
      | some name => pure name
      | none =>
          if transcriptPath = [] then pure ((← hereName host).getD personal)
          else
            match guardWord (decodeProjectId (parentName transcriptPath)) with
            | some name => pure name
            | none => pure ((← hereName host).getD personal)

lemma launchWingAt_eq (host : Host) (encoded : Text) (home : FsPath) :
    launchWingAt host encoded home = slugifyProject (launchNameAt host encoded home) := by
  simp only [launchWingAt, launchNameAt]
  split_ifs <;> rfl

lemma launchWing_eq (host : Host) (transcriptPath : Text) :
    launchWing host transcriptPath =
      ((launchName host transcriptPath).map slugifyProject).getD [] := by
  rw [launchWing, launchName]
  cases searchFolder (forwardSlashes transcriptPath) with
  | none => rfl
  | some encoded =>
    cases hhome : host.home with
    | none => rfl
    | some home => exact launchWingAt_eq host encoded home

lemma nonempty_slugifyProject (name : Text) :
    nonempty (slugifyProject name) = (guardWord name).map slugifyProject := by
  rw [nonempty, guardWord]
  cases h : hasWord name with
  | true => rw [if_neg (isSlug_slugifyProject h).ne_nil]; rfl
  | false => rw [if_pos (slugifyProject_eq_nil.2 h)]; rfl

lemma trying_map (caught : List Exc) (r : Except Exc (Option Text)) (f : Text → Text) :
    trying caught (r.map (Option.map f)) = (trying caught r).map (Option.map f) := by
  cases r with
  | ok w => rfl
  | error e =>
    simp only [Except.map, trying]
    split_ifs <;> rfl

lemma cwdWing_eq (host : Host) (cwd : Cwd) :
    cwdWing host cwd = (cwdName host cwd).map (Option.map slugifyProject) := by
  cases cwd with
  | falsy => rfl
  | other => rfl
  | text cwd =>
    rw [cwdWing, cwdName, ← trying_map]
    congr 1
    cases host.resolveUser cwd with
    | error e => rfl
    | ok p =>
      cases host.homeDir with
      | error e => rfl
      | ok home =>
        cases hprojects : host.resolve (home.child projectsName) with
        | error e => simp [Except.map, hprojects, bind, Except.bind]
        | ok homeProjects =>
          simp only [hprojects, bind, Except.bind]
          rcases hrel : p.relativeTo homeProjects with _ | _ | ⟨part, rest⟩
          · simp [nonempty_slugifyProject, Except.map, pure, Except.pure]
          · simp [nonempty_slugifyProject, Except.map, pure, Except.pure]
          · rfl

lemma slugifyProject_personal : slugifyProject personal = personal := by decide

lemma hereWing_eq (host : Host) :
    hereWing host = (hereName host).map (Option.map slugifyProject) := by
  rw [hereWing, hereName, ← trying_map]
  congr 1
  cases host.getcwd with
  | error e => rfl
  | ok cwd =>
    cases hcwd : host.resolve cwd with
    | error e => simp [Except.map, hcwd, bind, Except.bind]
    | ok here =>
      cases host.homeDir with
      | error e => simp [Except.map, hcwd, bind, Except.bind]
      | ok home =>
        cases hhome : host.resolve home with
        | error e => simp [Except.map, hcwd, hhome, bind, Except.bind]
        | ok home =>
          simp only [hcwd, hhome, bind, Except.bind]
          split_ifs
          · simp [Except.map, pure, Except.pure, slugifyProject_personal]
          · simp [Except.map, pure, Except.pure, nonempty_slugifyProject]

/-- The wing is the slug of the name it is taken from. -/
lemma projectWing_eq (host : Host) (cwd : Cwd) (transcriptPath : Text) :
    projectWing host cwd transcriptPath =
      (wingName host cwd transcriptPath).map slugifyProject := by
  have hlaunch : nonempty (launchWing host transcriptPath) =
      ((launchName host transcriptPath).bind guardWord).map slugifyProject := by
    rw [launchWing_eq]
    cases launchName host transcriptPath with
    | none => rfl
    | some name => exact nonempty_slugifyProject name
  have hrest : (do pure ((← hereWing host).getD personal) : Except Exc Text) =
      (do pure ((← hereName host).getD personal) : Except Exc Text).map slugifyProject := by
    rw [hereWing_eq]
    cases hereName host with
    | error e => rfl
    | ok name => cases name with
      | none => simp [Except.map, bind, Except.bind, pure, Except.pure, slugifyProject_personal]
      | some name => rfl
  rw [projectWing, wingName]
  rw [nonempty] at hlaunch
  split_ifs at hlaunch with hnil
  · -- no slug of the launch directory: the other sources have their turn
    rw [Option.map_eq_none_iff.1 hlaunch.symm]
    simp only [hnil, ne_eq, not_true_eq_false, if_false, cwdWing_eq]
    cases cwdName host cwd with
    | error e => rfl
    | ok name => cases name with
      | some name => rfl
      | none =>
        simp only [Except.map, Option.map_none, bind, Except.bind, parentWing]
        by_cases hpath : transcriptPath = []
        · rw [if_pos hpath, if_pos hpath]
          exact hrest
        · rw [if_neg hpath, if_neg hpath, nonempty_slugifyProject]
          cases guardWord (decodeProjectId (parentName transcriptPath)) with
          | some name => rfl
          | none => exact hrest
  · obtain ⟨name, hname, hslug⟩ := Option.map_eq_some_iff.1 hlaunch.symm
    rw [hname, if_pos hnil, ← hslug]
    rfl

/-- **The hook's wing is the daemon's.**  `_project_wing` returns a wing that is not empty and that
the daemon keeps as it is, just when no exception ends the search for a name, the name that is
found has a word, and its first word is not `wing` with another one after it. -/
theorem projectWing_fixed_iff (host : Host) (cwd : Cwd) (transcriptPath : Text) :
    (∃ w, projectWing host cwd transcriptPath = .ok w ∧ w ≠ [] ∧ normalizeWingSlug w = w) ↔
      ∃ name, wingName host cwd transcriptPath = .ok name ∧ hasWord name = true ∧
        ¬ WingFirst name := by
  rw [projectWing_eq]
  constructor
  · rintro ⟨w, hw, hfixed⟩
    cases hname : wingName host cwd transcriptPath with
    | error e => rw [hname] at hw; cases hw
    | ok name =>
      rw [hname] at hw
      cases hw
      exact ⟨name, rfl, (slugifyProject_fixed_iff name).1 hfixed⟩
  · rintro ⟨name, hname, hfits⟩
    rw [hname]
    exact ⟨_, rfl, (slugifyProject_fixed_iff name).2 hfits⟩

/-- A home directory with the projects `palace-daemon` and `wing-tools`. -/
def Host.ofJp : Host where
  home := some ⟨['/'], ["home".toList, "jp".toList]⟩
  subdirs p := some (if p.name = projectsName then ["palace-daemon".toList, "wing-tools".toList]
    else [projectsName])
  isSymlink _ := false
  realpath := some
  resolveUser s := .ok ⟨['/'], Mines.pathParts s⟩
  resolve := .ok
  getcwd := .ok ⟨['/'], []⟩

example : projectWing Host.ofJp .falsy
    "/home/jp/.claude/projects/-home-jp-Projects-palace-daemon-src/s.jsonl".toList =
      .ok "palace_daemon".toList := by decide +kernel

/-- A session launched in `wing-tools` has the wing `wing_tools`, which the daemon stores as
`tools`; a working directory whose project slugs to nothing gives an empty wing; and a `cwd` that
is not a text raises. -/
theorem projectWing_fixed_fails :
    (¬ ∃ w, projectWing Host.ofJp .falsy
        "/home/jp/.claude/projects/-home-jp-Projects-wing-tools/s.jsonl".toList = .ok w ∧
          w ≠ [] ∧ normalizeWingSlug w = w) ∧
    projectWing Host.ofJp (.text "/home/jp/Projects/...".toList) [] = .ok [] ∧
    projectWing Host.ofJp .other [] = .error .typeError := by
  have hwing : projectWing Host.ofJp .falsy
      "/home/jp/.claude/projects/-home-jp-Projects-wing-tools/s.jsonl".toList =
        .ok "wing_tools".toList := by decide +kernel
  refine ⟨?_, by decide +kernel, by decide +kernel⟩
  rintro ⟨w, hw, -, hfixed⟩
  obtain rfl : w = "wing_tools".toList := Except.ok.inj (hw.symm.trans hwing)
  exact absurd hfixed (by decide)

end PalaceDaemon.Hook
