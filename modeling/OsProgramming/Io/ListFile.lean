import OsProgramming.Library.Memory
import Mathlib.Data.List.TakeWhile
import Mathlib.Logic.Relation

/-! `io_list_file.c`, which lists a file and everything below it. `stat` follows links, so a
directory may be below itself; the walk ends since a path that does not fit into the buffer is
not entered. -/

namespace OsProgramming.Io

open Library

abbrev Path := List UInt8

def maxPath : ℕ := 1024

def slash : UInt8 := 47

/-- What the program reads of a `struct stat`. -/
structure Stat where
  size : ℤ
  isDir : Bool

/-- The answers of the kernel, where links may lead to any directory. -/
structure FileSystem where
  stat : Path → Option Stat
  opendir : Path → Option (List Path)

/-- What is printed, to `stdout` or `stderr`. -/
inductive Line where
  | size (size : ℤ) (name : Path)
  | cantAccess (name : Path)
  | cantOpen (dir : Path)
  | tooLong (dir name : Path)
  deriving DecidableEq

/-- The directory itself, or its parent. -/
def isDots (name : Path) : Bool := name = [46] ∨ name = [46, 46]

/-- The `sprintf` into the buffer, in which `fill` is what is on the stack. -/
def joinPath (fill : ℕ → UInt8) (dir name : Path) : Result Path := do
  let _ ← store ((List.range maxPath).map fill) 0 (dir ++ slash :: name ++ [0])
  .ok (dir ++ slash :: name)

/-- The body of the loop of `dirwalk`. -/
def walkEntry (fill : ℕ → UInt8) (dir : Path) (fcn : Path → Result (List Line)) (name : Path) :
    Result (List Line) :=
  if isDots name then .ok []
  else if maxPath < dir.length + name.length + 2 then .ok [.tooLong dir name]
  else do
    let name ← joinPath fill dir name
    fcn name

def walkEntries (fill : ℕ → UInt8) (dir : Path) (fcn : Path → Result (List Line)) :
    List Path → Result (List Line)
  | [] => .ok []
  | name :: names => do
    let lines ← walkEntry fill dir fcn name
    let rest ← walkEntries fill dir fcn names
    .ok (lines ++ rest)

def dirwalk (fs : FileSystem) (fill : ℕ → UInt8) (dir : Path) (fcn : Path → Result (List Line)) :
    Result (List Line) :=
  match fs.opendir dir with
  | none => .ok [.cantOpen dir]
  | some names => walkEntries fill dir fcn names

/-- `fuel` bounds the depth of the recursion. -/
def fsize (fs : FileSystem) (fill : ℕ → UInt8) : ℕ → Path → Result (List Line)
  | 0, _ => .error .divergence
  | fuel + 1, name =>
    match fs.stat name with
    | none => .ok [.cantAccess name]
    | some stat => do
      let lines ← (if stat.isDir then dirwalk fs fill name (fsize fs fill fuel) else .ok [])
      .ok (lines ++ [.size stat.size name])

/-! ### Paths -/

/-- `q` is `p`, or below it. -/
def Within (p q : Path) : Prop := p = q ∨ p ++ [slash] <+: q

theorem within_trans {p q r : Path} (hpq : Within p q) (hqr : Within q r) : Within p r := by
  rcases hpq with rfl | hpq
  · exact hqr
  · rcases hqr with rfl | hqr
    · exact .inr hpq
    · exact .inr ((hpq.trans (List.prefix_append q [slash])).trans hqr)

theorem within_child (dir name : Path) : Within dir (dir ++ slash :: name) :=
  .inr ⟨name, by simp⟩

theorem length_le_of_within {p q : Path} (h : Within p q) : p.length ≤ q.length := by
  rcases h with rfl | h
  · exact le_rfl
  · have := h.length_le
    rw [List.length_append] at this
    omega

/-- A name without a slash, as the part of a path behind its directory. -/
theorem takeWhile_of_within {dir name q : Path} (hname : slash ∉ name)
    (h : Within (dir ++ slash :: name) q) :
    (q.drop (dir.length + 1)).takeWhile (· ≠ slash) = name := by
  have hplain : ∀ c ∈ name, decide (c ≠ slash) = true := by
    intro c hc
    have hne : c ≠ slash := fun heq => hname (heq ▸ hc)
    simpa using hne
  have hdrop : ∀ rest, (dir ++ slash :: name ++ rest).drop (dir.length + 1) = name ++ rest := by
    intro rest
    rw [List.append_assoc, List.cons_append, ← List.singleton_append, ← List.append_assoc]
    exact List.drop_left' (by simp)
  rcases h with rfl | ⟨rest, rfl⟩
  · have hwhole := hdrop []
    rw [List.append_nil, List.append_nil] at hwhole
    rw [hwhole]
    exact List.takeWhile_eq_self_iff.mpr hplain
  · rw [List.append_assoc, hdrop, List.singleton_append, List.takeWhile_append_of_pos hplain]
    simp

/-- Nothing is below two entries of one directory. -/
theorem name_eq_of_within {dir name name' q : Path} (hname : slash ∉ name) (hname' : slash ∉ name')
    (h : Within (dir ++ slash :: name) q) (h' : Within (dir ++ slash :: name') q) : name = name' :=
  (takeWhile_of_within hname h).symm.trans (takeWhile_of_within hname' h')

/-! ### What there is to list -/

variable {fs : FileSystem} {fill : ℕ → UInt8} {dir root path : Path} {names : List Path}
  {lines : List Line} {line : Line}

/-- A directory that can be read has this entry. -/
def Entry (fs : FileSystem) (dir name : Path) : Prop :=
  (∃ size, fs.stat dir = some ⟨size, true⟩) ∧
    ∃ names, fs.opendir dir = some names ∧ name ∈ names ∧ isDots name = false

/-- An entry whose path fits into the buffer. -/
def Child (fs : FileSystem) (dir path : Path) : Prop :=
  ∃ name, Entry fs dir name ∧ dir.length + name.length + 2 ≤ maxPath ∧ path = dir ++ slash :: name

def Reached (fs : FileSystem) : Path → Path → Prop := Relation.ReflTransGen (Child fs)

/-- What is printed on the visit of a path. -/
def Reports (fs : FileSystem) (path : Path) : Line → Prop
  | .size size name => name = path ∧ ∃ isDir, fs.stat path = some ⟨size, isDir⟩
  | .cantAccess name => name = path ∧ fs.stat path = none
  | .cantOpen dir => dir = path ∧ (∃ size, fs.stat path = some ⟨size, true⟩) ∧ fs.opendir path = none
  | .tooLong dir name =>
    dir = path ∧ Entry fs path name ∧ maxPath < path.length + name.length + 2

/-- The paths that are printed with their sizes, in their order. -/
def printed (lines : List Line) : List Path :=
  lines.filterMap fun
    | .size _ name => some name
    | _ => none

/-- A listing of a path: all that there is, each path once, and a directory behind what is
below it. -/
structure Lists (fs : FileSystem) (root : Path) (lines : List Line) : Prop where
  mem_iff : ∀ line, line ∈ lines ↔ ∃ path, Reached fs root path ∧ Reports fs path line
  order : (printed lines).Pairwise fun p q => ¬ Within p q

/-- `readdir` returns each name once, and no name has a slash. -/
def Names (fs : FileSystem) : Prop :=
  ∀ dir names, fs.opendir dir = some names → names.Nodup ∧ ∀ name ∈ names, slash ∉ name

theorem reached_within (h : Reached fs root path) : Within root path := by
  induction h with
  | refl => exact .inl rfl
  | tail _ hchild ih =>
    obtain ⟨name, -, -, rfl⟩ := hchild
    exact within_trans ih (within_child _ name)

theorem mem_printed {p : Path} : p ∈ printed lines ↔ ∃ size, Line.size size p ∈ lines := by
  rw [printed, List.mem_filterMap]
  constructor
  · rintro ⟨line, hline, heq⟩
    cases line <;> cases heq
    exact ⟨_, hline⟩
  · rintro ⟨size, hline⟩
    exact ⟨_, hline, rfl⟩

theorem Lists.within (h : Lists fs root lines) {p : Path} (hp : p ∈ printed lines) : Within root p := by
  obtain ⟨size, hline⟩ := mem_printed.mp hp
  obtain ⟨path, hreached, rfl, -⟩ := (h.mem_iff _).mp hline
  exact reached_within hreached

theorem printed_append (lines lines' : List Line) :
    printed (lines ++ lines') = printed lines ++ printed lines' := List.filterMap_append ..

/-- What an entry adds to the listing. -/
def EntryReports (fs : FileSystem) (dir name : Path) (line : Line) : Prop :=
  isDots name = false ∧
    if maxPath < dir.length + name.length + 2 then line = .tooLong dir name
    else ∃ path, Reached fs (dir ++ slash :: name) path ∧ Reports fs path line

/-- The listing of some entries of a directory. -/
structure EntryLists (fs : FileSystem) (dir : Path) (names : List Path) (lines : List Line) :
    Prop where
  mem_iff : ∀ line, line ∈ lines ↔ ∃ name ∈ names, EntryReports fs dir name line
  order : (printed lines).Pairwise fun p q => ¬ Within p q
  within : ∀ p ∈ printed lines, ∃ name ∈ names, Within (dir ++ slash :: name) p

theorem joinPath_ok {name : Path} (h : dir.length + name.length + 2 ≤ maxPath) :
    joinPath fill dir name = .ok (dir ++ slash :: name) := by
  have hfit : 0 + (dir ++ slash :: name ++ [0]).length ≤ ((List.range maxPath).map fill).length := by
    simp only [List.length_append, List.length_cons, List.length_nil, List.length_map, List.length_range]
    omega
  have hstore : store ((List.range maxPath).map fill) (0 : ℕ) (dir ++ slash :: name ++ [0]) = .ok _ :=
    store_natCast _ hfit
  rw [joinPath, ← Nat.cast_zero, hstore, ok_bind]

theorem walkEntry_lists (fill : ℕ → UInt8) {fcn : Path → Result (List Line)} {name : Path}
    (hfcn : dir.length + name.length + 2 ≤ maxPath →
      ∃ lines, fcn (dir ++ slash :: name) = .ok lines ∧ Lists fs (dir ++ slash :: name) lines) :
    ∃ lines, walkEntry fill dir fcn name = .ok lines ∧ EntryLists fs dir [name] lines := by
  rw [walkEntry]
  by_cases hdots : isDots name = true
  · rw [if_pos hdots]
    refine ⟨[], rfl, ?_, List.Pairwise.nil, by simp [printed]⟩
    simp [EntryReports, hdots]
  rw [if_neg hdots]
  rw [Bool.not_eq_true] at hdots
  split_ifs with hlong
  · refine ⟨_, rfl, ?_, List.Pairwise.nil, by simp [printed]⟩
    simp [EntryReports, hdots, hlong]
  · obtain ⟨lines, hlines, hlists⟩ := hfcn (not_lt.mp hlong)
    refine ⟨lines, ?_, ?_, hlists.order, ?_⟩
    · rw [joinPath_ok (not_lt.mp hlong), ok_bind, hlines]
    · simp [EntryReports, hdots, hlong, hlists.mem_iff]
    · intro p hp
      exact ⟨name, List.mem_singleton_self name, hlists.within hp⟩

/-- Two listings of entries with different names. -/
theorem EntryLists.append {names' : List Path} {lines' : List Line} (h : EntryLists fs dir names lines)
    (h' : EntryLists fs dir names' lines') (hdisjoint : names.Disjoint names')
    (hplain : ∀ name ∈ names ++ names', slash ∉ name) :
    EntryLists fs dir (names ++ names') (lines ++ lines') where
  mem_iff line := by
    rw [List.mem_append, h.mem_iff, h'.mem_iff]
    simp only [List.mem_append, or_and_right, exists_or]
  order := by
    rw [printed_append, List.pairwise_append]
    refine ⟨h.order, h'.order, fun p hp q hq hwithin => ?_⟩
    obtain ⟨name, hname, hbelow⟩ := h.within p hp
    obtain ⟨name', hname', hbelow'⟩ := h'.within q hq
    have heq := name_eq_of_within (hplain name (List.mem_append_left _ hname))
      (hplain name' (List.mem_append_right _ hname')) (within_trans hbelow hwithin) hbelow'
    exact hdisjoint hname (heq ▸ hname')
  within := by
    intro p hp
    rw [printed_append, List.mem_append] at hp
    rcases hp with hp | hp
    · obtain ⟨name, hname, hbelow⟩ := h.within p hp
      exact ⟨name, List.mem_append_left _ hname, hbelow⟩
    · obtain ⟨name, hname, hbelow⟩ := h'.within p hp
      exact ⟨name, List.mem_append_right _ hname, hbelow⟩

theorem walkEntries_lists (fill : ℕ → UInt8) {fcn : Path → Result (List Line)} (hnodup : names.Nodup)
    (hplain : ∀ name ∈ names, slash ∉ name)
    (hfcn : ∀ name ∈ names, dir.length + name.length + 2 ≤ maxPath →
      ∃ lines, fcn (dir ++ slash :: name) = .ok lines ∧ Lists fs (dir ++ slash :: name) lines) :
    ∃ lines, walkEntries fill dir fcn names = .ok lines ∧ EntryLists fs dir names lines := by
  induction names with
  | nil => exact ⟨[], rfl, by simp, List.Pairwise.nil, by simp [printed]⟩
  | cons name names ih =>
    obtain ⟨hname, hnames⟩ := List.nodup_cons.mp hnodup
    obtain ⟨lines, hentry, hlists⟩ := walkEntry_lists fill (hfcn name List.mem_cons_self)
    obtain ⟨rest, hrest, hlists'⟩ := ih hnames (fun name hmem => hplain name (List.mem_cons_of_mem _ hmem))
      fun name hmem => hfcn name (List.mem_cons_of_mem _ hmem)
    refine ⟨lines ++ rest, ?_, ?_⟩
    · rw [walkEntries, hentry, ok_bind, hrest, ok_bind]
    · exact hlists.append hlists' (fun _ hmem hmem' => hname (List.mem_singleton.mp hmem ▸ hmem')) hplain

theorem reached_iff : Reached fs root path ↔
    root = path ∨ ∃ child, Child fs root child ∧ Reached fs child path :=
  Relation.ReflTransGen.cases_head_iff

/-- The listing of a directory is that of its entries, and its own line. -/
theorem EntryLists.lists (h : EntryLists fs root names lines) {size : ℤ}
    (hstat : fs.stat root = some ⟨size, true⟩) (hopendir : fs.opendir root = some names) :
    Lists fs root (lines ++ [.size size root]) where
  mem_iff line := by
    have hentry : ∀ name, Entry fs root name ↔ name ∈ names ∧ isDots name = false := by
      intro name
      simp [Entry, hstat, hopendir]
    constructor
    · intro hmem
      rcases List.mem_append.mp hmem with hmem | hmem
      · obtain ⟨name, hname, hdots, hline⟩ := (h.mem_iff line).mp hmem
        have hname := (hentry name).mpr ⟨hname, hdots⟩
        split_ifs at hline with hlong
        · subst hline
          exact ⟨root, .refl, rfl, hname, hlong⟩
        · obtain ⟨path, hreached, hreports⟩ := hline
          exact ⟨path, .head ⟨name, hname, not_lt.mp hlong, rfl⟩ hreached, hreports⟩
      · rw [List.mem_singleton.mp hmem]
        exact ⟨root, .refl, rfl, true, hstat⟩
    · rintro ⟨path, hreached, hreports⟩
      rcases reached_iff.mp hreached with rfl | ⟨child, ⟨name, hname, hfit, rfl⟩, hbelow⟩
      · cases line with
        | size size' name =>
          obtain ⟨rfl, isDir, hsize⟩ := hreports
          cases hstat.symm.trans hsize
          exact List.mem_append_right _ (List.mem_singleton_self _)
        | cantAccess name => cases hstat.symm.trans hreports.2
        | cantOpen dir => cases hopendir.symm.trans hreports.2.2
        | tooLong dir name =>
          obtain ⟨rfl, hname, hlong⟩ := hreports
          obtain ⟨hmem, hdots⟩ := (hentry name).mp hname
          exact List.mem_append_left _ ((h.mem_iff _).mpr ⟨name, hmem, hdots, by rw [if_pos hlong]⟩)
      · obtain ⟨hmem, hdots⟩ := (hentry name).mp hname
        refine List.mem_append_left _ ((h.mem_iff _).mpr ⟨name, hmem, hdots, ?_⟩)
        rw [if_neg (not_lt.mpr hfit)]
        exact ⟨path, hbelow, hreports⟩
  order := by
    rw [printed_append, List.pairwise_append]
    refine ⟨h.order, List.pairwise_singleton _ _, ?_⟩
    intro p hp q hq hwithin
    obtain ⟨name, -, hbelow⟩ := h.within p hp
    rw [List.mem_singleton.mp hq] at hwithin
    have hlong := length_le_of_within (within_trans hbelow hwithin)
    rw [List.length_append, List.length_cons] at hlong
    omega

/-- The listing of a path without entries. -/
theorem lists_of_no_entry (hentry : ∀ name, ¬ Entry fs root name)
    (hmem : ∀ line, line ∈ lines ↔ Reports fs root line)
    (horder : (printed lines).Pairwise fun p q => ¬ Within p q) : Lists fs root lines where
  mem_iff line := by
    rw [hmem]
    constructor
    · exact fun hreports => ⟨root, .refl, hreports⟩
    · rintro ⟨path, hreached, hreports⟩
      rcases reached_iff.mp hreached with rfl | ⟨child, ⟨name, hname, -⟩, -⟩
      · exact hreports
      · exact absurd hname (hentry name)
  order := horder

theorem fsize_spec (hnames : Names fs) {fuel : ℕ} (hpos : 0 < fuel)
    (hfuel : maxPath < fuel + root.length) :
    ∃ lines, fsize fs fill fuel root = .ok lines ∧ Lists fs root lines := by
  induction fuel generalizing root with
  | zero => cases hpos
  | succ fuel ih =>
    rw [fsize]
    cases hstat : fs.stat root with
    | none =>
      have hentry : ∀ name, ¬ Entry fs root name := by simp [Entry, hstat]
      refine ⟨_, rfl, lists_of_no_entry hentry (fun line => ?_) List.Pairwise.nil⟩
      cases line <;> simp [Reports, hstat, hentry]
    | some stat =>
      obtain ⟨size, isDir⟩ := stat
      cases isDir with
      | false =>
        have hentry : ∀ name, ¬ Entry fs root name := by simp [Entry, hstat]
        refine ⟨_, rfl, lists_of_no_entry hentry (fun line => ?_) (List.pairwise_singleton _ _)⟩
        cases line <;> simp [Reports, hstat, hentry, and_comm, eq_comm]
      | true =>
        cases hopendir : fs.opendir root with
        | none =>
          have hentry : ∀ name, ¬ Entry fs root name := by simp [Entry, hopendir]
          refine ⟨[.cantOpen root, .size size root],
            by simp only [dirwalk, hopendir, if_true, ok_bind]; rfl,
            lists_of_no_entry hentry (fun line => ?_) (List.pairwise_singleton _ _)⟩
          cases line <;> simp [Reports, hstat, hopendir, hentry, and_comm, eq_comm]
        | some names =>
          obtain ⟨hnodup, hplain⟩ := hnames root names hopendir
          have hfcn : ∀ name ∈ names, root.length + name.length + 2 ≤ maxPath →
              ∃ lines, fsize fs fill fuel (root ++ slash :: name) = .ok lines ∧
                Lists fs (root ++ slash :: name) lines := by
            intro name _ hfit
            have hlength : (root ++ slash :: name).length = root.length + name.length + 1 := by
              rw [List.length_append, List.length_cons, Nat.add_assoc]
            exact ih (by omega) (by omega)
          obtain ⟨lines, hwalk, hlists⟩ := walkEntries_lists fill hnodup hplain hfcn
          exact ⟨_, by simp only [dirwalk, hopendir, hwalk, if_true, ok_bind], hlists.lists hstat hopendir⟩

end OsProgramming.Io
