import Torii.Go.Url
import Torii.Lib.LinkedTree

/-!
# Static files

`guardedFileSystem` of `static_file_server_middleware.go` refuses dotfiles, opens the file through
`http.Dir`, and then compares the place to which the path resolves with the root. The links of the
root itself are not resolved, and a slash is put behind it even when it is `/`.
-/

namespace Torii.Middleware

open Go.Url

/-- An absolute path, by its names. -/
abbrev FilePath := List (List Char)

/-- A file system. Every name of an entry can stand between two slashes. -/
structure FileSystem where
  entry : FilePath → Option (TreeEntry (List Char))
  root_dir : entry [] = some .dir
  valid : ∀ p name, entry (p ++ [name]) ≠ none → name ≠ [] ∧ '/' ∉ name

namespace FileSystem

def tree (fs : FileSystem) : LinkedTree (List Char) := ⟨['.', '.'], fs.entry⟩

/-- `filepath.EvalSymlinks`, and the file that is opened under a path: 255 links at most. -/
def evalSymlinks (fs : FileSystem) (p : FilePath) : Option FilePath := fs.tree.resolve 255 [] p

end FileSystem

/-- `filepath.Clean` of an absolute path. -/
def cleanPath (elems : List (List Char)) : FilePath :=
  elems.foldl (fun p e =>
    if e = [] ∨ e = ['.'] then p else if e = ['.', '.'] then p.dropLast else p ++ [e]) []

def absPath (cwd root : String) : FilePath :=
  if root.toList.head? = some '/' then cleanPath (root.toList.splitOn '/')
  else cleanPath (cwd.toList.splitOn '/' ++ root.toList.splitOn '/')

/-- The text of an absolute path. -/
def pathText (p : FilePath) : List Char := if p = [] then ['/'] else slashed p

structure GuardedFileSystem where
  fs : FileSystem
  root : FilePath
  allowDotFiles : Bool
  indexFile : String

/-- `os.ErrNotExist` and `os.ErrPermission`. -/
inductive OpenError where
  | notExist
  | permission
deriving DecidableEq

/-- A segment that makes a dotfile of a name. -/
def isDotFile (seg : List Char) : Bool :=
  seg.head? = some '.' && seg ≠ ['.'] && seg ≠ ['.', '.']

/-- The symlink containment test of `Open`. -/
def GuardedFileSystem.contains (g : GuardedFileSystem) (realPath : FilePath) : Bool :=
  (pathText g.root ++ ['/']).isPrefixOf (pathText realPath) || pathText realPath = pathText g.root

/-- `Open`, with the place of the file that is opened. -/
def GuardedFileSystem.openFile (g : GuardedFileSystem) (name : String) :
    Except OpenError FilePath :=
  let segs := name.toList.splitOn '/'
  if ! g.allowDotFiles && segs.any isDotFile then .error .notExist
  else
    -- `http.Dir` cleans the name before it is joined to the root
    match g.fs.evalSymlinks (g.root ++ cleanPath segs) with
    | none => .error .notExist
    | some f =>
      let fullPath := cleanPath (g.root ++ segs)
      match g.fs.evalSymlinks fullPath with
      | none => .error .notExist
      | some realPath =>
        if ! g.contains realPath then .error .permission
        else
          match g.fs.entry f with
          | some .dir =>
            let indexPath := cleanPath (fullPath ++ g.indexFile.toList.splitOn '/')
            if (g.fs.evalSymlinks indexPath).isNone then .error .notExist else .ok f
          | _ => .ok f

/-- The file system that `StaticFileServerMiddleware` makes when dotfiles are not allowed. -/
def guardedFileSystem (fs : FileSystem) (cwd root indexFile : String) : GuardedFileSystem :=
  ⟨fs, absPath cwd root, false, indexFile⟩

/-! ## Clean paths -/

/-- The names of a clean path. -/
def CleanPath (p : FilePath) : Prop :=
  ∀ seg ∈ p, seg ≠ [] ∧ seg ≠ ['.'] ∧ seg ≠ ['.', '.'] ∧ '/' ∉ seg

variable {p : FilePath}

theorem cleanPath_append (hp : CleanPath p) (elems : List (List Char)) :
    cleanPath (elems ++ p) = cleanPath elems ++ p := by
  rw [cleanPath, List.foldl_append, ← cleanPath]
  induction p generalizing elems with
  | nil => simp
  | cons seg p ih =>
    obtain ⟨hne, hdot, hup, -⟩ := hp seg List.mem_cons_self
    have hrest := ih (fun x hx => hp x (List.mem_cons_of_mem _ hx)) (elems ++ [seg])
    have hstep : cleanPath (elems ++ [seg]) = cleanPath elems ++ [seg] := by
      simp [cleanPath, hne, hdot, hup]
    rw [hstep] at hrest
    simpa [hne, hdot, hup] using hrest

theorem cleanPath_nil_cons (elems : List (List Char)) :
    cleanPath ([] :: elems) = cleanPath elems := rfl

theorem cleanPath_eq_self (hp : CleanPath p) : cleanPath p = p :=
  cleanPath_append hp []

theorem clean_cleanPath {elems : List (List Char)} (h : ∀ e ∈ elems, '/' ∉ e) :
    CleanPath (cleanPath elems) := by
  apply List.foldlRecOn elems _ (motive := CleanPath) (by simp [CleanPath])
  intro p hp e he
  split
  · exact hp
  · next hskip =>
    split
    · exact fun seg hseg => hp seg ((List.dropLast_sublist p).subset hseg)
    · next hup =>
      intro seg hseg
      obtain hold | hnew := List.mem_append.mp hseg
      · exact hp seg hold
      · rw [List.mem_singleton.mp hnew]
        exact ⟨fun h => hskip (.inl h), fun h => hskip (.inr h), hup, h e he⟩

theorem clean_absPath (cwd root : String) : CleanPath (absPath cwd root) := by
  rw [absPath]
  split
  · exact clean_cleanPath fun e he => Go.Strings.sep_not_mem_of_mem_splitOn he
  · refine clean_cleanPath fun e he => ?_
    obtain h | h := List.mem_append.mp he
    · exact Go.Strings.sep_not_mem_of_mem_splitOn h
    · exact Go.Strings.sep_not_mem_of_mem_splitOn h

/-- The segments of the text of a path. -/
theorem splitOn_slashed (h : ∀ seg ∈ p, '/' ∉ seg) : (slashed p).splitOn '/' = [] :: p := by
  rw [← intercalate_nil_cons, List.splitOn_intercalate '/' (by simpa using h) (by simp)]

theorem splitOn_pathText (hp : p ≠ []) (h : ∀ seg ∈ p, '/' ∉ seg) :
    (pathText p).splitOn '/' = [] :: p := by
  rw [pathText, if_neg hp, splitOn_slashed h]

/-! ## Containment -/

namespace FileSystem

variable {fs : FileSystem} {p q : FilePath}

theorem segment_of_resolved (h : fs.evalSymlinks p = some q) :
    ∀ seg ∈ q, seg ≠ [] ∧ '/' ∉ seg := by
  intro seg hseg
  obtain ⟨a, b, rfl⟩ := List.append_of_mem hseg
  have hphysical := (LinkedTree.physical_of_resolve LinkedTree.directories_nil h) a seg b rfl
  refine fs.valid a seg fun hnone => ?_
  change fs.tree.entry _ = none at hnone
  simp [hnone] at hphysical

/-- The file lies in the directory to which the root resolves. -/
def Inside (fs : FileSystem) (root q : FilePath) : Prop :=
  ∃ dir, fs.evalSymlinks root = some dir ∧ dir <+: q

end FileSystem

variable {g : GuardedFileSystem}

theorem contains_iff (hroot : CleanPath g.root) {p q : FilePath} (hq : g.fs.evalSymlinks p = some q)
    (hne : q ≠ []) : g.contains q = true ↔ g.root ≠ [] ∧ g.root <+: q := by
  have hsegs := FileSystem.segment_of_resolved hq
  have hqtext := splitOn_pathText hne fun seg hseg => (hsegs seg hseg).2
  by_cases hempty : g.root = []
  · obtain ⟨seg, q, rfl⟩ := List.exists_cons_of_ne_nil hne
    obtain ⟨⟨c, seg, rfl⟩, hslash⟩ := (hsegs seg List.mem_cons_self).imp_left
      List.exists_cons_of_ne_nil
    have hc : '/' ≠ c := fun h => hslash (h ▸ List.mem_cons_self)
    simp [GuardedFileSystem.contains, hempty, pathText, hc]
  · have hrtext := splitOn_pathText hempty fun seg hseg => (hroot seg hseg).2.2.2
    have hboundary := atBoundary_iff_splitOn (pathText g.root) (pathText q)
    rw [hqtext, hrtext, List.cons_prefix_cons, and_iff_right rfl] at hboundary
    rw [and_iff_right hempty, ← hboundary, GuardedFileSystem.contains, Bool.or_eq_true,
      List.isPrefixOf_iff_prefix, decide_eq_true_eq]
    constructor
    · rintro (⟨rest, hrest⟩ | heq)
      · exact ⟨'/' :: rest, by simp [← hrest], .inr rfl⟩
      · exact ⟨[], by simp [heq], .inl rfl⟩
    · rintro ⟨rest, hrest, rfl | hhead⟩
      · exact .inr (by simpa using hrest)
      · refine .inl ⟨rest.tail, ?_⟩
        rw [hrest, List.append_assoc, List.singleton_append, List.cons_head?_tail hhead]

theorem openFile_iff (hdots : g.allowDotFiles = false) (hroot : CleanPath g.root) {n q : FilePath}
    (hn : CleanPath n) (hne : n ≠ []) (hq : g.fs.evalSymlinks (g.root ++ n) = some q)
    (hfile : g.fs.entry q = some .file) :
    (∃ f, g.openFile (String.ofList (pathText n)) = .ok f) ↔
      (∀ seg ∈ n, seg.head? ≠ some '.') ∧ g.root ≠ [] ∧ g.root <+: q := by
  have hqne : q ≠ [] := by
    rintro rfl
    rw [g.fs.root_dir] at hfile
    cases hfile
  have hname : (String.ofList (pathText n)).toList.splitOn '/' = [] :: n := by
    rw [String.toList_ofList, splitOn_pathText hne fun seg hseg => (hn seg hseg).2.2.2]
  have hfull : cleanPath (g.root ++ [] :: n) = g.root ++ n := by
    rw [List.append_cons, cleanPath_append hn, cleanPath, List.foldl_concat, ← cleanPath,
      cleanPath_eq_self hroot]
    rfl
  have hdotfiles : ([] :: n).any isDotFile = true ↔ ∃ seg ∈ n, seg.head? = some '.' := by
    rw [List.any_cons, show isDotFile [] = false from rfl, Bool.false_or, List.any_eq_true]
    constructor
    · rintro ⟨seg, hseg, hdot⟩
      exact ⟨seg, hseg, by simp [isDotFile] at hdot; exact hdot.1.1⟩
    · rintro ⟨seg, hseg, hdot⟩
      obtain ⟨-, hsingle, hup, -⟩ := hn seg hseg
      exact ⟨seg, hseg, by simp [isDotFile, hdot, hsingle, hup]⟩
  rw [← contains_iff hroot hq hqne, GuardedFileSystem.openFile]
  simp only [hname, hdots, Bool.not_false, Bool.true_and, hdotfiles, hfull, cleanPath_nil_cons,
    cleanPath_eq_self hn, hq, hfile]
  by_cases hdot : ∃ seg ∈ n, seg.head? = some '.'
  · rw [if_pos hdot]
    obtain ⟨seg, hseg, hhead⟩ := hdot
    exact iff_of_false (by simp) fun h => h.1 seg hseg hhead
  · rw [if_neg hdot, and_iff_right fun seg hseg hhead => hdot ⟨seg, hseg, hhead⟩]
    cases g.contains q <;> simp

/-- Opening the name of a regular file follows the links exactly as it should when a segment
starts with a dot, when the file lies outside of the resolved root, or when the root is not `/`
and resolves to itself. -/
theorem static_contained_iff (fs : FileSystem) (cwd root indexFile : String) (n q : FilePath)
    (hn : CleanPath n) (hne : n ≠ [])
    (hq : fs.evalSymlinks (absPath cwd root ++ n) = some q) (hfile : fs.entry q = some .file) :
    ((∃ f,
        (guardedFileSystem fs cwd root indexFile).openFile (String.ofList (pathText n)) = .ok f) ↔
        (∀ seg ∈ n, seg.head? ≠ some '.') ∧ fs.Inside (absPath cwd root) q) ↔
      (∃ seg ∈ n, seg.head? = some '.') ∨ ¬ fs.Inside (absPath cwd root) q ∨
        absPath cwd root ≠ [] ∧ fs.evalSymlinks (absPath cwd root) = some (absPath cwd root) := by
  have hopen : (∃ f, (guardedFileSystem fs cwd root indexFile).openFile
        (String.ofList (pathText n)) = .ok f) ↔
      (∀ seg ∈ n, seg.head? ≠ some '.') ∧ absPath cwd root ≠ [] ∧ absPath cwd root <+: q :=
    openFile_iff (g := guardedFileSystem fs cwd root indexFile) rfl (clean_absPath cwd root) hn hne
      hq hfile
  -- the test succeeds exactly for files inside of a root that is its own resolution
  have htest : absPath cwd root ≠ [] ∧ absPath cwd root <+: q ↔
      fs.Inside (absPath cwd root) q ∧ absPath cwd root ≠ [] ∧
        fs.evalSymlinks (absPath cwd root) = some (absPath cwd root) := by
    constructor
    · rintro ⟨hroot, hbelow⟩
      have hself := LinkedTree.resolve_of_isPrefix hq hbelow
      exact ⟨⟨_, hself, hbelow⟩, hroot, hself⟩
    · rintro ⟨⟨dir, hdir, hinside⟩, hroot, hself⟩
      cases hdir.symm.trans hself
      exact ⟨hroot, hinside⟩
  have hdots : (∃ seg ∈ n, seg.head? = some '.') ↔ ¬ ∀ seg ∈ n, seg.head? ≠ some '.' := by
    simp
  have hlogic : ∀ A I S : Prop, ((A ∧ I ∧ S ↔ A ∧ I) ↔ ¬ A ∨ ¬ I ∨ S) := by
    intro A I S
    by_cases hA : A <;> by_cases hI : I <;> simp [hA, hI]
  rw [hopen, hdots, htest]
  exact hlogic _ _ _

def sampleEntries : List (FilePath × TreeEntry (List Char)) :=
  [([], .dir), ([['d']], .dir), ([['w']], .link true [['d']]), ([['d'], ['f']], .file),
    ([['f']], .file)]

def sampleFiles : FileSystem where
  entry p := (sampleEntries.find? (·.1 = p)).map Prod.snd
  root_dir := rfl
  valid p name h := by
    rw [Ne, Option.map_eq_none_iff, List.find?_eq_none] at h
    simp only [decide_eq_true_eq, not_forall, not_not] at h
    obtain ⟨e, he, hplace⟩ := h
    have hnames : ∀ e ∈ sampleEntries, ∀ seg ∈ e.1, seg ≠ [] ∧ '/' ∉ seg := by decide
    exact hnames e he name (by simp [hplace])

theorem clean_sample : CleanPath [['f']] := by simp [CleanPath]

theorem evalSymlinks_sample :
    sampleFiles.evalSymlinks [] = some [] ∧ sampleFiles.evalSymlinks [['d']] = some [['d']] ∧
      sampleFiles.evalSymlinks [['w']] = some [['d']] ∧
      sampleFiles.evalSymlinks [['f']] = some [['f']] ∧
      sampleFiles.evalSymlinks [['d'], ['f']] = some [['d'], ['f']] ∧
      sampleFiles.evalSymlinks [['w'], ['f']] = some [['d'], ['f']] := by
  simp [FileSystem.evalSymlinks, LinkedTree.resolve, FileSystem.tree, sampleFiles, sampleEntries]

/-- With the directory itself for the root the file is opened. -/
theorem static_contained_directory :
    ∃ f, (guardedFileSystem sampleFiles "/" "/d" "").openFile "/f" = .ok f := by
  obtain ⟨-, hdir, -, -, hfile, -⟩ := evalSymlinks_sample
  exact ((static_contained_iff sampleFiles "/" "/d" "" [['f']] [['d'], ['f']] clean_sample (by simp)
    hfile rfl).mpr (.inr (.inr ⟨by decide, hdir⟩))).mpr ⟨by simp, _, hdir, by simp⟩

/-- A file in the root is refused when the root is a link, and when it is `/`. -/
theorem linkedRoot_refused :
    (sampleFiles.evalSymlinks (absPath "/" "/w" ++ [['f']]) = some [['d'], ['f']] ∧
      sampleFiles.Inside (absPath "/" "/w") [['d'], ['f']] ∧
      ¬ ∃ f, (guardedFileSystem sampleFiles "/" "/w" "").openFile "/f" = .ok f) ∧
    sampleFiles.evalSymlinks (absPath "/" "/" ++ [['f']]) = some [['f']] ∧
      sampleFiles.Inside (absPath "/" "/") [['f']] ∧
      ¬ ∃ f, (guardedFileSystem sampleFiles "/" "/" "").openFile "/f" = .ok f := by
  obtain ⟨hroot, -, hlink, hfile, -, hlinked⟩ := evalSymlinks_sample
  refine ⟨⟨hlinked, ⟨_, hlink, by simp⟩, fun h => ?_⟩, hfile, ⟨_, hroot, by simp⟩, fun h => ?_⟩
  · have hbelow := ((openFile_iff (g := guardedFileSystem sampleFiles "/" "/w" "") rfl
      (clean_absPath "/" "/w") clean_sample (by simp) hlinked rfl).mp h).2.2
    exact absurd hbelow (by decide)
  · exact ((openFile_iff (g := guardedFileSystem sampleFiles "/" "/" "") rfl
      (clean_absPath "/" "/") clean_sample (by simp) hfile rfl).mp h).2.1 rfl

end Torii.Middleware
