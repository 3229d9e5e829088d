import Loku.Path
import Loku.Lib.PathTree

/-!
# The file tree

What the server sees of the file system: a tree of regular files, directories and symbolic
links. `canonicalize` resolves a path component by component, following at most `maxLinks`
links; `stat` looks a path up that way and `lstat` does not follow a link in the last
component. `walkDir` is the directory part of `WalkDir::new(root).follow_links(false)`: the
root, then the directories beneath it in the order of the listings, never through a link
(only a root that is itself a link is listed).

A path that holds a directory has no link on its way, so it is its own canonical form
(`canonicalize_of_node_dir`), and a walk from a directory visits exactly the directories at
and beneath it (`mem_walkDir`).
-/

namespace Loku

/-- The bytes of a file and its modification time in seconds since 1970. -/
structure FileData where
  bytes : List UInt8
  mtime : Int
deriving DecidableEq

inductive Node
  | file (data : FileData)
  | dir
  | symlink (target : Path)
deriving DecidableEq

def Node.isLink : Node → Bool
  | .symlink _ => true
  | _ => false

/-- The contents of a regular file. -/
def Node.data? : Node → Option FileData
  | .file data => some data
  | _ => none

abbrev FileTree := Lib.PathTree (ν := FileName) Node.dir

namespace FileTree

/-- The tree of a list of nodes. -/
def ofNodes (nodes : List (Path × Node)) (hnodup : (nodes.map Prod.fst).Nodup)
    (hclosed : ∀ e ∈ nodes, e.1 ≠ [] → (e.1.dropLast, Node.dir) ∈ nodes) : FileTree :=
  ⟨⟨nodes, hnodup⟩, hclosed⟩

/-! ## Resolution -/

/-- Walk down from `done`; at a link, `follow` takes over with the target and what is left. -/
def descend (t : FileTree) (follow : Path → Option Path) : Path → Path → Option Path
  | done, [] => some done
  | done, n :: rest =>
    match t.node (done ++ [n]) with
    | none => none
    | some (.symlink target) => follow (target ++ rest)
    | some _ => descend t follow (done ++ [n]) rest

/-- Resolve a path, following at most `links` links. -/
def resolve (t : FileTree) : Nat → Path → Option Path
  | 0 => descend t (fun _ => none) []
  | links + 1 => descend t (resolve t links) []

def maxLinks : Nat := 40

/-- `fs::canonicalize`. -/
def canonicalize (t : FileTree) (p : Path) : Option Path := resolve t maxLinks p

/-- `fs::metadata`: the node a path leads to. -/
def stat (t : FileTree) (p : Path) : Option Node := (canonicalize t p).bind t.node

/-- `fs::symlink_metadata`: as `stat`, without following a link in the last component. -/
def lstat (t : FileTree) (p : Path) : Option Node :=
  match p.getLast? with
  | none => t.node []
  | some n => (canonicalize t p.dropLast).bind fun d => t.node (d ++ [n])

/-- `Path::exists`. -/
def pathExists (t : FileTree) (p : Path) : Bool := (stat t p).isSome

/-- `Path::is_dir`. -/
def isDir (t : FileTree) (p : Path) : Bool := stat t p = some .dir

/-- The metadata and contents of a regular file; `Path::is_file` is `(readFile t p).isSome`. -/
def readFile (t : FileTree) (p : Path) : Option FileData :=
  match stat t p with
  | some (.file data) => some data
  | _ => none

/-- `fs::read_dir`: the names in a directory. -/
def readDir (t : FileTree) (d : Path) : Option (List FileName) :=
  (canonicalize t d).bind fun q => if t.node q = some .dir then some (t.children q) else none

theorem descend_append {t : FileTree} {follow : Path → Option Path} (done : Path) {p : Path}
    {a : Node} (hp : p ≠ []) (h : t.node (done ++ p) = some a)
    (ha : ∀ target, a ≠ .symlink target) :
    descend t follow done p = some (done ++ p) := by
  induction p generalizing done with
  | nil => exact absurd rfl hp
  | cons n rest ih =>
    unfold descend
    have happ : done ++ n :: rest = (done ++ [n]) ++ rest := by simp
    rw [happ] at h
    by_cases hrest : rest = []
    · subst hrest
      rw [List.append_nil] at h
      rw [h]
      cases a with
      | symlink target => exact absurd rfl (ha target)
      | file data => rfl
      | dir => rfl
    · have hdir := Lib.PathTree.node_of_append hrest h
      rw [hdir]
      dsimp only
      rw [ih (done ++ [n]) hrest h, happ]

theorem canonicalize_of_node {t : FileTree} {p : Path} {a : Node} (h : t.node p = some a)
    (ha : ∀ target, a ≠ .symlink target) : canonicalize t p = some p := by
  by_cases hp : p = []
  · subst hp
    rfl
  · exact descend_append [] hp h ha

/-- A path that holds a directory is canonical. -/
theorem canonicalize_of_node_dir {t : FileTree} {p : Path} (h : t.node p = some .dir) :
    canonicalize t p = some p :=
  canonicalize_of_node h fun _ he => by cases he

/-- A child of a directory that is not a link is canonical. -/
theorem stat_of_node {t : FileTree} {p : Path} {a : Node} (h : t.node p = some a)
    (ha : ∀ target, a ≠ .symlink target) : stat t p = some a := by
  unfold stat
  rw [canonicalize_of_node h ha]
  exact h

theorem stat_of_node_dir {t : FileTree} {p : Path} (h : t.node p = some .dir) :
    stat t p = some .dir :=
  stat_of_node h fun _ he => by cases he

theorem isDir_of_node {t : FileTree} {p : Path} (h : t.node p = some .dir) : isDir t p = true := by
  unfold isDir
  rw [stat_of_node_dir h]
  rfl

theorem readDir_of_node {t : FileTree} {d : Path} (h : t.node d = some .dir) :
    readDir t d = some (t.children d) := by
  unfold readDir
  rw [canonicalize_of_node_dir h, Option.bind_some, if_pos h]

theorem lstat_child {t : FileTree} {d : Path} (h : t.node d = some .dir) (n : FileName) :
    lstat t (d ++ [n]) = t.node (d ++ [n]) := by
  unfold lstat
  rw [List.getLast?_concat]
  dsimp only
  rw [List.dropLast_concat, canonicalize_of_node_dir h]
  rfl

theorem lstat_of_node_dir {t : FileTree} {d : Path} (h : t.node d = some .dir) :
    lstat t d = some .dir := by
  rcases List.eq_nil_or_concat d with rfl | ⟨d', n, rfl⟩
  · exact h
  · rw [List.concat_eq_append] at h ⊢
    have hpar := Lib.PathTree.node_dropLast h (by simp)
    rw [List.dropLast_concat] at hpar
    rw [lstat_child hpar, h]

/-- A walk down through a directory. -/
theorem descend_append_of_dir {t : FileTree} (follow : Path → Option Path) (done : Path)
    {p : Path} (h : t.node (done ++ p) = some .dir) (rest : Path) :
    descend t follow done (p ++ rest) = descend t follow (done ++ p) rest := by
  induction p generalizing done with
  | nil => rw [List.append_nil, List.nil_append]
  | cons n p ih =>
    have happ : done ++ n :: p = (done ++ [n]) ++ p := by simp
    rw [happ] at h ⊢
    have hn : t.node (done ++ [n]) = some .dir := by
      by_cases hp : p = []
      · rwa [hp, List.append_nil] at h
      · exact Lib.PathTree.node_of_append hp h
    rw [List.cons_append, descend, hn]
    exact ih _ h

/-- In a directory, looking up a name that is not a link is reading the tree. -/
theorem stat_child {t : FileTree} {d : Path} {n : FileName} (h : t.node d = some .dir)
    (hlink : ∀ target, t.node (d ++ [n]) ≠ some (.symlink target)) :
    stat t (d ++ [n]) = t.node (d ++ [n]) := by
  cases hn : t.node (d ++ [n]) with
  | some a => exact stat_of_node hn fun target ha => hlink target (ha ▸ hn)
  | none =>
    have hcanonical : canonicalize t (d ++ [n]) = none := by
      unfold canonicalize maxLinks resolve
      rw [descend_append_of_dir _ [] h, List.nil_append, descend, hn]
    unfold stat
    rw [hcanonical]
    rfl

/-- Descending further, when a directory lies beneath what a descent leads to. -/
theorem descend_append_of_eq {t : FileTree} {follow : Path → Option Path} {done p q rest : Path}
    (hfollow : ∀ p, follow p = some q → follow (p ++ rest) = some (q ++ rest))
    (hdir : t.node (q ++ rest) = some .dir) (h : descend t follow done p = some q) :
    descend t follow done (p ++ rest) = some (q ++ rest) := by
  induction p generalizing done with
  | nil =>
    cases h
    have hgo := descend_append_of_dir follow q hdir []
    rwa [List.append_nil] at hgo
  | cons n p ih =>
    rw [List.cons_append]
    unfold descend at h ⊢
    cases hn : t.node (done ++ [n]) with
    | none =>
      rw [hn] at h
      cases h
    | some a =>
      rw [hn] at h
      cases a with
      | symlink target =>
        have hgo := hfollow _ h
        rwa [List.append_assoc] at hgo
      | file data => exact ih h
      | dir => exact ih h

/-- A directory beneath what a path leads to is reached through that path. -/
theorem canonicalize_append {t : FileTree} {p q rest : Path} (h : canonicalize t p = some q)
    (hdir : t.node (q ++ rest) = some .dir) : canonicalize t (p ++ rest) = some (q ++ rest) := by
  unfold canonicalize at h ⊢
  generalize maxLinks = links at h ⊢
  induction links generalizing p with
  | zero => exact descend_append_of_eq (fun _ he => by cases he) hdir h
  | succ links ih => exact descend_append_of_eq (fun _ he => ih he) hdir h

/-- The root, or a node that is not a link. -/
def Plain (t : FileTree) (q : Path) : Prop :=
  q = [] ∨ ∃ a, t.node q = some a ∧ ∀ target, a ≠ .symlink target

theorem plain_of_descend {t : FileTree} {follow : Path → Option Path} {done p q : Path}
    (hfollow : ∀ p q, follow p = some q → Plain t q) (hdone : Plain t done)
    (h : descend t follow done p = some q) : Plain t q := by
  induction p generalizing done with
  | nil =>
    cases h
    exact hdone
  | cons n rest ih =>
    unfold descend at h
    cases hn : t.node (done ++ [n]) with
    | none =>
      rw [hn] at h
      cases h
    | some a =>
      rw [hn] at h
      cases a with
      | symlink target => exact hfollow _ _ h
      | file data => exact ih (Or.inr ⟨_, hn, fun _ he => by cases he⟩) h
      | dir => exact ih (Or.inr ⟨_, hn, fun _ he => by cases he⟩) h

/-- A canonical path holds no link. -/
theorem plain_of_canonicalize {t : FileTree} {p q : Path} (h : canonicalize t p = some q) :
    Plain t q := by
  unfold canonicalize at h
  generalize maxLinks = links at h
  induction links generalizing p q with
  | zero => exact plain_of_descend (fun _ _ he => by cases he) (Or.inl rfl) h
  | succ links ih => exact plain_of_descend (fun _ _ he => ih he) (Or.inl rfl) h

/-- Looking up a path that holds no link is reading the tree. -/
theorem stat_of_plain {t : FileTree} {q : Path} (hq : Plain t q) : stat t q = t.node q := by
  rcases hq with rfl | ⟨a, ha, hlink⟩
  · rfl
  · rw [stat_of_node ha hlink, ha]

theorem isDir_of_plain {t : FileTree} {q : Path} (hq : Plain t q) :
    isDir t q = true ↔ t.node q = some .dir := by
  unfold isDir
  rw [stat_of_plain hq, decide_eq_true_iff]

/-- What is read is the contents of some node. -/
theorem exists_node_of_readFile {t : FileTree} {p : Path} {data : FileData}
    (h : readFile t p = some data) : ∃ q, t.node q = some (.file data) := by
  unfold readFile stat at h
  split at h
  · rename_i data' hstat
    cases h
    obtain ⟨q, -, hq⟩ := Option.bind_eq_some_iff.mp hstat
    exact ⟨q, hq⟩
  · cases h

/-! ## Trees without links -/

/-- No node of the tree is a symbolic link. -/
def LinkFree (t : FileTree) : Prop := ∀ p target, t.node p ≠ some (.symlink target)

theorem linkFree_iff {t : FileTree} :
    t.LinkFree ↔ ∀ e ∈ t.table.rows, e.2.isLink = false := by
  constructor
  · rintro h ⟨p, a⟩ he
    have hnode := Lib.PathTree.node_eq_some_iff.mpr he
    cases a with
    | symlink target => exact absurd hnode (h p target)
    | file data => rfl
    | dir => rfl
  · intro h p target hnode
    cases h _ (Lib.PathTree.node_eq_some_iff.mp hnode)

instance : DecidablePred LinkFree := fun _ => decidable_of_iff _ linkFree_iff.symm

theorem descend_linkFree {t : FileTree} (ht : LinkFree t) {follow : Path → Option Path}
    (done : Path) {p q : Path} (h : descend t follow done p = some q) :
    q = done ++ p ∧ (p ≠ [] → t.node (done ++ p) ≠ none) := by
  induction p generalizing done with
  | nil =>
    cases h
    exact ⟨(List.append_nil _).symm, fun hp => absurd rfl hp⟩
  | cons n rest ih =>
    unfold descend at h
    have happ : done ++ n :: rest = (done ++ [n]) ++ rest := by simp
    cases hn : t.node (done ++ [n]) with
    | none =>
      rw [hn] at h
      cases h
    | some a =>
      rw [hn] at h
      have hgo : descend t follow (done ++ [n]) rest = some q := by
        cases a with
        | symlink target => exact absurd hn (ht _ target)
        | file data => exact h
        | dir => exact h
      obtain ⟨hq, hnode⟩ := ih (done ++ [n]) hgo
      rw [happ]
      refine ⟨hq, fun _ => ?_⟩
      by_cases hrest : rest = []
      · rw [hrest, List.append_nil, hn]
        exact Option.some_ne_none _
      · exact hnode hrest

/-- Without links, looking a path up is reading the tree at it. -/
theorem stat_linkFree {t : FileTree} (ht : LinkFree t) (p : Path) : stat t p = t.node p := by
  cases hn : t.node p with
  | some a => exact stat_of_node hn fun target ha => ht p target (ha ▸ hn)
  | none =>
    unfold stat
    cases hc : canonicalize t p with
    | none => rfl
    | some q =>
      obtain ⟨rfl, -⟩ := descend_linkFree ht [] hc
      exact hn

/-! ## File operations -/

/-- Create or overwrite a regular file. -/
def writeFile (t : FileTree) (p : Path) (data : FileData) : Option FileTree :=
  if h : t.CanPut p (.file data) then some (t.put p (.file data) h) else none

/-- `fs::remove_file`: delete a regular file or a link. -/
def unlink (t : FileTree) (p : Path) : Option FileTree :=
  match t.node p with
  | some (.file _) => some (t.remove p)
  | some (.symlink _) => some (t.remove p)
  | _ => none

/-- Rename a regular file, replacing one that is there. -/
def renameFile (t : FileTree) (src dst : Path) : Option FileTree :=
  match t.node src with
  | some (.file data) => writeFile (t.remove src) dst data
  | _ => none

/-- An empty directory gives way to another that is renamed onto it. -/
def vacate (t : FileTree) (p : Path) : FileTree :=
  if t.node p = some .dir ∧ t.children p = [] then t.remove p else t

/-- `fs::rename`: a directory takes along what lies beneath it and may replace an empty one,
anything else may replace what is no directory. -/
def rename (t : FileTree) (src dst : Path) : Option FileTree :=
  match t.node src with
  | none => none
  | some .dir =>
    if h : (t.vacate dst).CanMove src dst then some ((t.vacate dst).move src dst h) else none
  | some a => if h : (t.remove src).CanPut dst a then some ((t.remove src).put dst a h) else none

theorem rename_of_file {t : FileTree} {src dst : Path} {data : FileData}
    (h : t.node src = some (.file data)) : t.rename src dst = t.renameFile src dst := by
  unfold rename renameFile writeFile
  rw [h]

/-- The nodes at a path and beneath it. -/
def atOrBeneath (t : FileTree) (p : Path) : List Path :=
  (t.table.rows.map Prod.fst).filter fun q => p <+: q

theorem node_writeFile {t t' : FileTree} {p : Path} {data : FileData}
    (h : t.writeFile p data = some t') (q : Path) :
    t'.node q = if q = p then some (.file data) else t.node q := by
  unfold writeFile at h
  split at h
  · rename_i hput
    rw [← Option.some.inj h, Lib.PathTree.node_put]
  · cases h

/-- Nothing lies beneath a node that is no directory. -/
theorem node_beneath {t : FileTree} {p q : Path} {a : Node} (h : t.node p = some a)
    (ha : a ≠ .dir) (hpq : p <+: q) (hne : q ≠ p) : t.node q = none := by
  obtain ⟨r, rfl⟩ := hpq
  have hr : r ≠ [] := by
    rintro rfl
    exact hne (List.append_nil p)
  cases hnode : t.node (p ++ r) with
  | none => rfl
  | some b =>
    have hdir := Lib.PathTree.node_of_append hr hnode
    rw [h] at hdir
    exact absurd (Option.some.inj hdir) ha

theorem node_remove_leaf {t : FileTree} {p : Path} {a : Node} (h : t.node p = some a)
    (ha : a ≠ .dir) (q : Path) : (t.remove p).node q = if q = p then none else t.node q := by
  rw [Lib.PathTree.node_remove]
  by_cases hqp : q = p
  · rw [if_pos hqp, if_pos (hqp ▸ List.prefix_rfl)]
  · rw [if_neg hqp]
    split
    · rename_i hpre
      exact (node_beneath h ha hpre hqp).symm
    · rfl

theorem node_remove_file {t : FileTree} {p : Path} {data : FileData}
    (h : t.node p = some (.file data)) (q : Path) :
    (t.remove p).node q = if q = p then none else t.node q :=
  node_remove_leaf h (by simp) q

theorem node_unlink {t t' : FileTree} {p : Path} (h : t.unlink p = some t') (q : Path) :
    t'.node q = if q = p then none else t.node q := by
  unfold unlink at h
  split at h
  · rename_i data hnode
    rw [← Option.some.inj h]
    exact node_remove_leaf hnode (by simp) q
  · rename_i target hnode
    rw [← Option.some.inj h]
    exact node_remove_leaf hnode (by simp) q
  · cases h

theorem node_renameFile {t t' : FileTree} {src dst : Path}
    (h : t.renameFile src dst = some t') : ∃ data, t.node src = some (.file data) ∧
      ∀ q, t'.node q =
        if q = dst then some (.file data) else if q = src then none else t.node q := by
  unfold renameFile at h
  split at h
  · rename_i data hnode
    refine ⟨data, hnode, fun q => ?_⟩
    rw [node_writeFile h, node_remove_file hnode]
  · cases h

theorem LinkFree.writeFile {t t' : FileTree} {p : Path} {data : FileData} (ht : LinkFree t)
    (h : t.writeFile p data = some t') : LinkFree t' := by
  intro q target hq
  rw [node_writeFile h] at hq
  split at hq
  · cases hq
  · exact ht q target hq

theorem LinkFree.renameFile {t t' : FileTree} {src dst : Path} (ht : LinkFree t)
    (h : t.renameFile src dst = some t') : LinkFree t' := by
  obtain ⟨data, -, hnode⟩ := node_renameFile h
  intro q target hq
  rw [hnode] at hq
  split at hq
  · cases hq
  · split at hq
    · cases hq
    · exact ht q target hq

/-- Where the last name of a path lies: the links before it are followed, as a rename does. -/
def locate (t : FileTree) (p : Path) : Option Path :=
  p.getLast?.bind fun n => (canonicalize t p.dropLast).map (· ++ [n])

theorem locate_append {t : FileTree} {p q rest : Path} {n : FileName}
    (h : canonicalize t p = some q) (hdir : t.node (q ++ rest) = some .dir) :
    locate t (p ++ rest ++ [n]) = some (q ++ rest ++ [n]) := by
  unfold locate
  rw [List.getLast?_concat, Option.bind_some, List.dropLast_concat, canonicalize_append h hdir]
  rfl

theorem locate_linkFree {t : FileTree} (ht : LinkFree t) {p q : Path} (h : locate t p = some q) :
    q = p := by
  unfold locate at h
  obtain ⟨n, hn, hq⟩ := Option.bind_eq_some_iff.mp h
  obtain ⟨d, hd, rfl⟩ := Option.map_eq_some_iff.mp hq
  obtain ⟨rfl, -⟩ := descend_linkFree ht [] hd
  rw [List.nil_append, List.dropLast_append_getLast? n hn]

/-- The file that lies at a path itself, were it opened without following a link. -/
def fileAt (t : FileTree) (p : Path) : Option FileData :=
  ((t.locate p).bind t.node).bind Node.data?

/-- No symbolic link lies at a path itself. -/
def NoLinkAt (t : FileTree) (p : Path) : Prop :=
  ∀ q target, t.locate p = some q → t.node q ≠ some (.symlink target)

/-- Opening `p` to write reaches `q`: the file at `p`, or anything through a link there. -/
def Opens (t : FileTree) (p q : Path) : Prop :=
  ∃ r, t.locate p = some r ∧ ((∃ target, t.node r = some (.symlink target)) ∨ q = r)

/-- Where no link lies, opening a path reaches the path itself. -/
theorem Opens.locate {t : FileTree} {p q : Path} (h : t.Opens p q) (hlink : t.NoLinkAt p) :
    t.locate p = some q := by
  obtain ⟨r, hr, ⟨target, htarget⟩ | rfl⟩ := h
  · exact absurd htarget (hlink r target hr)
  · exact hr

/-- A descent to another path does not depend on a path that holds no directory and no link. -/
theorem descend_congr {t t' : FileTree} {follow follow' : Path → Option Path} {q e : Path}
    (hleaf : ∀ a, t.node q = some a → ∃ data, a = .file data)
    (hsame : ∀ p, p ≠ q → t'.node p = t.node p) (he : e ≠ q)
    (hfollow : ∀ p, follow p = some e → follow' p = some e) {p : Path} (done : Path)
    (h : descend t follow done p = some e) : descend t' follow' done p = some e := by
  induction p generalizing done with
  | nil => exact h
  | cons n rest ih =>
    by_cases hq : done ++ [n] = q
    · -- a file may end a descent, but nothing lies beneath it
      unfold descend at h
      rw [hq] at h
      cases hnode : t.node q with
      | none =>
        rw [hnode] at h
        cases h
      | some a =>
        obtain ⟨data, rfl⟩ := hleaf a hnode
        rw [hnode] at h
        dsimp only at h
        cases rest with
        | nil => exact absurd (Option.some.inj h).symm he
        | cons m rest =>
          unfold descend at h
          rw [node_beneath hnode (by simp) (List.prefix_append q [m]) (by simp)] at h
          cases h
    · unfold descend at h ⊢
      rw [hsame _ hq]
      cases hnode : t.node (done ++ [n]) with
      | none =>
        rw [hnode] at h
        cases h
      | some a =>
        rw [hnode] at h
        cases a with
        | symlink target => exact hfollow _ h
        | file data => exact ih _ h
        | dir => exact ih _ h

theorem canonicalize_congr {t t' : FileTree} {q e p : Path}
    (hleaf : ∀ a, t.node q = some a → ∃ data, a = .file data)
    (hsame : ∀ p, p ≠ q → t'.node p = t.node p) (he : e ≠ q) (h : t.canonicalize p = some e) :
    t'.canonicalize p = some e := by
  unfold canonicalize at h ⊢
  generalize maxLinks = links at h ⊢
  induction links generalizing p with
  | zero => exact descend_congr hleaf hsame he (fun _ hnone => by cases hnone) [] h
  | succ links ih => exact descend_congr hleaf hsame he (fun _ hp => ih hp) [] h

/-- What a path is located at stays where it was when only a path changes that holds no directory
and no link. -/
theorem locate_congr {t t' : FileTree} {q r p : Path} {a : Node}
    (hleaf : ∀ a, t.node q = some a → ∃ data, a = .file data)
    (hsame : ∀ p, p ≠ q → t'.node p = t.node p) (h : t.locate p = some r)
    (hnode : t.node r = some a) : t'.locate p = some r := by
  unfold locate at h ⊢
  cases hlast : p.getLast? with
  | none =>
    rw [hlast] at h
    cases h
  | some n =>
    rw [hlast, Option.bind_some] at h
    obtain ⟨e, he, rfl⟩ := Option.map_eq_some_iff.mp h
    have hdir := Lib.PathTree.node_dropLast hnode (by simp)
    rw [List.dropLast_concat] at hdir
    have hne : e ≠ q := by
      rintro rfl
      obtain ⟨data, hfile⟩ := hleaf _ hdir
      cases hfile
    rw [Option.bind_some, canonicalize_congr hleaf hsame hne he]
    rfl

theorem pathExists_linkFree {t : FileTree} (ht : LinkFree t) (p : Path) :
    pathExists t p = (t.node p).isSome := by
  unfold pathExists
  rw [stat_linkFree ht]

/-! ## What a lookup depends on -/

/-- The paths that a descent looks at. -/
def descendVia (t : FileTree) (follow : Path → List Path) : Path → Path → List Path
  | _, [] => []
  | done, n :: rest =>
    (done ++ [n]) ::
      match t.node (done ++ [n]) with
      | none => []
      | some (.symlink target) => follow (target ++ rest)
      | some _ => descendVia t follow (done ++ [n]) rest

def resolveVia (t : FileTree) : Nat → Path → List Path
  | 0 => descendVia t (fun _ => []) []
  | links + 1 => descendVia t (resolveVia t links) []

/-- The paths that `canonicalize` looks at. -/
def via (t : FileTree) (p : Path) : List Path := resolveVia t maxLinks p

theorem descend_congr_via {t t' : FileTree} {follow follow' : Path → Option Path}
    {followVia : Path → List Path}
    (hfollow : ∀ p, (∀ q ∈ followVia p, t'.node q = t.node q) →
      (follow' p).bind t'.node = (follow p).bind t.node)
    {done p : Path} (hdone : t'.node done = t.node done)
    (h : ∀ q ∈ descendVia t followVia done p, t'.node q = t.node q) :
    (descend t' follow' done p).bind t'.node = (descend t follow done p).bind t.node := by
  induction p generalizing done with
  | nil => exact hdone
  | cons n rest ih =>
    unfold descendVia at h
    rw [List.forall_mem_cons] at h
    obtain ⟨hn, hrest⟩ := h
    unfold descend
    rw [hn]
    cases hnode : t.node (done ++ [n]) with
    | none => rfl
    | some a =>
      rw [hnode] at hrest
      cases a with
      | symlink target => exact hfollow _ hrest
      | file data => exact ih hn hrest
      | dir => exact ih hn hrest

/-- What lies elsewhere makes no difference to a lookup. -/
theorem stat_congr_via {t t' : FileTree} {p : Path} (hroot : t'.node [] = t.node [])
    (h : ∀ q ∈ t.via p, t'.node q = t.node q) : t'.stat p = t.stat p := by
  unfold stat canonicalize
  unfold via at h
  generalize maxLinks = links at h ⊢
  induction links generalizing p with
  | zero =>
    have hnone : ∀ p : Path, (∀ q ∈ ([] : List Path), t'.node q = t.node q) →
        (none : Option Path).bind t'.node = (none : Option Path).bind t.node := fun _ _ => rfl
    exact descend_congr_via hnone hroot h
  | succ links ih => exact descend_congr_via (fun _ => ih) hroot h

theorem descendVia_append_of_dir {t : FileTree} {follow : Path → List Path} {done p q : Path}
    (hdir : t.node (done ++ p) = some .dir) {n : FileName}
    (hlink : ∀ target, t.node (done ++ p ++ [n]) ≠ some (.symlink target))
    (h : q ∈ descendVia t follow done (p ++ [n])) : q <+: done ++ p ++ [n] := by
  induction p generalizing done with
  | nil =>
    rw [List.append_nil] at hlink ⊢
    have hq : q = done ++ [n] := by
      rw [List.nil_append, descendVia] at h
      cases hnode : t.node (done ++ [n]) with
      | none =>
        rw [hnode] at h
        exact List.mem_singleton.mp h
      | some a =>
        rw [hnode] at h
        cases a with
        | symlink target => exact absurd hnode (hlink target)
        | file data => exact List.mem_singleton.mp h
        | dir => exact List.mem_singleton.mp h
    rw [hq]
  | cons m p ih =>
    have happ : done ++ m :: p = done ++ [m] ++ p := by simp
    rw [happ] at hdir hlink ⊢
    have hm : t.node (done ++ [m]) = some .dir := by
      by_cases hp : p = []
      · rwa [hp, List.append_nil] at hdir
      · exact Lib.PathTree.node_of_append hp hdir
    rw [List.cons_append, descendVia, hm] at h
    rcases List.mem_cons.mp h with rfl | h
    · rw [List.append_assoc]
      exact List.prefix_append _ _
    · exact ih hdir hlink h

/-- Where no link lies, a lookup in a directory looks at the path itself and those above it. -/
theorem prefix_of_mem_via {t : FileTree} {dir q : Path} {n : FileName}
    (hdir : t.node dir = some .dir)
    (hlink : ∀ target, t.node (dir ++ [n]) ≠ some (.symlink target))
    (h : q ∈ t.via (dir ++ [n])) : q <+: dir ++ [n] := by
  rw [← List.nil_append dir] at hdir hlink ⊢
  exact descendVia_append_of_dir hdir hlink h

/-! ## Walking -/

/-- The names in `d` that are directories themselves, not links to one. -/
def subdirectories (t : FileTree) (d : Path) : List FileName :=
  ((readDir t d).getD []).filter fun n => lstat t (d ++ [n]) = some .dir

/-- The directories beneath `d`, parents first, down to the given depth. -/
def walkBelow (t : FileTree) : Nat → Path → List Path
  | 0, _ => []
  | depth + 1, d =>
    (subdirectories t d).flatMap fun n => (d ++ [n]) :: walkBelow t depth (d ++ [n])

/-- The directory entries of `WalkDir::new(root).follow_links(false)`. A root that is a link
reports itself as one, so it is no entry, but its children are listed. -/
def walkDir (t : FileTree) (root : Path) : List Path :=
  (if lstat t root = some .dir then [root] else []) ++
    (if isDir t root then walkBelow t t.height root else [])

theorem mem_subdirectories {t : FileTree} {d q : Path} (hd : canonicalize t d = some q)
    (h : t.node q = some .dir) {n : FileName} :
    n ∈ subdirectories t d ↔ t.node (q ++ [n]) = some .dir := by
  have hlstat : lstat t (d ++ [n]) = t.node (q ++ [n]) := by
    unfold lstat
    rw [List.getLast?_concat]
    dsimp only
    rw [List.dropLast_concat, hd]
    rfl
  unfold subdirectories readDir
  rw [hd, Option.bind_some, if_pos h, Option.getD_some, List.mem_filter,
    Lib.PathTree.mem_children, hlstat, decide_eq_true_iff]
  exact ⟨fun h => h.2, fun h => ⟨⟨_, h⟩, h⟩⟩

theorem mem_walkBelow {t : FileTree} {depth : Nat} {d q e : Path}
    (hd : canonicalize t d = some q) (h : t.node q = some .dir) :
    e ∈ walkBelow t depth d ↔
      ∃ rel, rel ≠ [] ∧ rel.length ≤ depth ∧ e = d ++ rel ∧ t.node (q ++ rel) = some .dir := by
  induction depth generalizing d q e with
  | zero =>
    simp only [walkBelow, List.not_mem_nil, Nat.le_zero_eq, List.length_eq_zero_iff, false_iff]
    rintro ⟨rel, hne, hnil, -⟩
    exact hne hnil
  | succ depth ih =>
    simp only [walkBelow, List.mem_flatMap, List.mem_cons]
    constructor
    · rintro ⟨n, hn, he⟩
      have hdn := (mem_subdirectories hd h).mp hn
      rcases he with rfl | he
      · exact ⟨[n], by simp, by simp, rfl, hdn⟩
      · obtain ⟨rel, hne, hlen, rfl, hnode⟩ := (ih (canonicalize_append hd hdn) hdn).mp he
        exact ⟨n :: rel, by simp, by simpa using hlen, by simp, by simpa using hnode⟩
    · rintro ⟨rel, hne, hlen, rfl, hnode⟩
      cases rel with
      | nil => exact absurd rfl hne
      | cons n rel =>
        have happ : ∀ p : Path, p ++ n :: rel = (p ++ [n]) ++ rel := by simp
        by_cases hrel : rel = []
        · subst hrel
          exact ⟨n, (mem_subdirectories hd h).mpr hnode, Or.inl rfl⟩
        · rw [happ] at hnode
          have hdn := Lib.PathTree.node_of_append hrel hnode
          refine ⟨n, (mem_subdirectories hd h).mpr hdn, Or.inr ?_⟩
          rw [happ, ih (canonicalize_append hd hdn) hdn]
          exact ⟨rel, hrel, by simpa using hlen, rfl, hnode⟩

/-- `dir` is `p` or lies beneath it, found by listing directories. A link may lead to `p`, which is
not found itself then, but none lies on the way from there. -/
def FoundBeneath (t : FileTree) (p dir : Path) : Prop :=
  ∃ q rel, canonicalize t p = some q ∧ dir = p ++ rel ∧ t.node (q ++ rel) = some .dir ∧
    (rel = [] → lstat t p = some .dir)

/-- What is found beneath a path is found beneath every path on the way. -/
theorem FoundBeneath.of_prefix {t : FileTree} {p k dir : Path} (h : t.FoundBeneath p dir)
    (hpk : p <+: k) (hkd : k <+: dir) (hne : k ≠ dir) : t.FoundBeneath k dir := by
  obtain ⟨q, rel, hq, rfl, hnode, -⟩ := h
  obtain ⟨above, rfl⟩ := hpk
  obtain ⟨below, hbelow⟩ := hkd
  rw [List.append_assoc, List.append_right_inj] at hbelow
  subst hbelow
  have hrest : below ≠ [] := by
    rintro rfl
    exact hne (by rw [List.append_nil])
  rw [← List.append_assoc] at hnode
  have hdir := Lib.PathTree.node_of_append hrest hnode
  exact ⟨q ++ above, below, canonicalize_append hq hdir, (List.append_assoc _ _ _).symm, hnode,
    fun hnil => absurd hnil hrest⟩

theorem exists_of_lstat_dir {t : FileTree} {p : Path} (h : lstat t p = some .dir) :
    ∃ q, canonicalize t p = some q ∧ t.node q = some .dir := by
  rcases List.eq_nil_or_concat p with rfl | ⟨d, n, rfl⟩
  · exact ⟨[], rfl, h⟩
  · rw [List.concat_eq_append] at h ⊢
    unfold lstat at h
    rw [List.getLast?_concat] at h
    dsimp only at h
    rw [List.dropLast_concat] at h
    obtain ⟨e, he, hnode⟩ := Option.bind_eq_some_iff.mp h
    exact ⟨e ++ [n], canonicalize_append he hnode, hnode⟩

theorem isDir_iff {t : FileTree} {p : Path} :
    isDir t p = true ↔ ∃ q, canonicalize t p = some q ∧ t.node q = some .dir := by
  unfold isDir stat
  rw [decide_eq_true_iff, Option.bind_eq_some_iff]

/-- A walk visits what is found at and beneath where it starts. -/
theorem mem_walkDir_iff {t : FileTree} {p dir : Path} :
    dir ∈ walkDir t p ↔ t.FoundBeneath p dir := by
  unfold walkDir
  rw [List.mem_append]
  constructor
  · rintro (h | h)
    · split at h
      · rename_i hlstat
        obtain rfl := List.mem_singleton.mp h
        obtain ⟨q, hq, hnode⟩ := exists_of_lstat_dir hlstat
        exact ⟨q, [], hq, (List.append_nil _).symm, by rwa [List.append_nil], fun _ => hlstat⟩
      · cases h
    · split at h
      · rename_i hisDir
        obtain ⟨q, hq, hnode⟩ := isDir_iff.mp hisDir
        obtain ⟨rel, hne, -, rfl, hrel⟩ := (mem_walkBelow hq hnode).mp h
        exact ⟨q, rel, hq, rfl, hrel, fun hnil => absurd hnil hne⟩
      · cases h
  · rintro ⟨q, rel, hq, rfl, hnode, hlstat⟩
    by_cases hrel : rel = []
    · left
      rw [if_pos (hlstat hrel), hrel, List.append_nil]
      exact List.mem_singleton_self p
    · right
      have hdir := Lib.PathTree.node_of_append hrel hnode
      have hlen := Lib.PathTree.length_le_height hnode
      rw [List.length_append] at hlen
      rw [if_pos (isDir_iff.mpr ⟨q, hq, hdir⟩), mem_walkBelow hq hdir]
      exact ⟨rel, hrel, by omega, rfl, hnode⟩

/-- A walk from a directory visits the directories at and beneath it. -/
theorem mem_walkDir {t : FileTree} {root d : Path} (h : t.node root = some .dir) :
    d ∈ walkDir t root ↔ root <+: d ∧ t.node d = some .dir := by
  rw [mem_walkDir_iff]
  constructor
  · rintro ⟨q, rel, hq, rfl, hnode, -⟩
    rw [canonicalize_of_node_dir h] at hq
    cases hq
    exact ⟨List.prefix_append _ _, hnode⟩
  · rintro ⟨⟨rel, rfl⟩, hnode⟩
    exact ⟨root, rel, canonicalize_of_node_dir h, rfl, hnode, fun _ => lstat_of_node_dir h⟩

theorem prefix_of_mem_walkBelow {t : FileTree} {depth : Nat} {d e : Path}
    (h : e ∈ walkBelow t depth d) : d <+: e := by
  induction depth generalizing d with
  | zero => cases h
  | succ depth ih =>
    obtain ⟨n, -, he⟩ := List.mem_flatMap.mp h
    rcases List.mem_cons.mp he with rfl | he
    · exact List.prefix_append _ _
    · exact (List.prefix_append _ _).trans (ih he)

theorem prefix_of_mem_walkDir {t : FileTree} {root d : Path} (h : d ∈ walkDir t root) :
    root <+: d := by
  unfold walkDir at h
  rcases List.mem_append.mp h with h | h
  · split at h
    · rw [List.mem_singleton.mp h]
    · cases h
  · split at h
    · exact prefix_of_mem_walkBelow h
    · cases h

theorem nodup_readDir (t : FileTree) (d : Path) : ((readDir t d).getD []).Nodup := by
  unfold readDir
  cases canonicalize t d with
  | none => exact List.nodup_nil
  | some q =>
    rw [Option.bind_some]
    split
    · exact t.nodup_children q
    · exact List.nodup_nil

theorem length_lt_of_mem_walkBelow {t : FileTree} {depth : Nat} {d e : Path}
    (h : e ∈ walkBelow t depth d) : d.length < e.length := by
  cases depth with
  | zero => cases h
  | succ depth =>
    obtain ⟨n, -, he⟩ := List.mem_flatMap.mp h
    have hle : (d ++ [n]).length ≤ e.length := by
      rcases List.mem_cons.mp he with rfl | he
      · exact le_rfl
      · exact (prefix_of_mem_walkBelow he).length_le
    rw [List.length_append, List.length_singleton] at hle
    omega

/-- No directory is visited twice. -/
theorem nodup_walkBelow (t : FileTree) (depth : Nat) (d : Path) :
    (walkBelow t depth d).Nodup := by
  induction depth generalizing d with
  | zero => exact List.nodup_nil
  | succ depth ih =>
    unfold walkBelow
    rw [List.nodup_flatMap]
    constructor
    · intro n _
      rw [List.nodup_cons]
      exact ⟨fun hmem => absurd (length_lt_of_mem_walkBelow hmem) (lt_irrefl _), ih _⟩
    · -- what lies beneath two children begins with two different names
      refine ((nodup_readDir t d).filter _).imp fun {n m} hne e hn hm => ?_
      have hpre : ∀ k, e ∈ (d ++ [k]) :: walkBelow t depth (d ++ [k]) → d ++ [k] <+: e := by
        intro k hk
        rcases List.mem_cons.mp hk with rfl | hk
        · exact List.prefix_rfl
        · exact prefix_of_mem_walkBelow hk
      have heq := List.prefix_of_prefix_length_le (hpre n hn) (hpre m hm) (by simp)
      have hlast := List.append_cancel_left (heq.eq_of_length (by simp))
      exact hne (List.singleton_inj.mp hlast)

theorem nodup_walkDir (t : FileTree) (root : Path) : (walkDir t root).Nodup := by
  unfold walkDir
  refine List.Nodup.append ?_ ?_ ?_
  · split
    · exact List.nodup_singleton _
    · exact List.nodup_nil
  · split
    · exact nodup_walkBelow _ _ _
    · exact List.nodup_nil
  · intro d hd hbelow
    split at hd
    · rw [List.mem_singleton.mp hd] at hbelow
      split at hbelow
      · exact absurd (length_lt_of_mem_walkBelow hbelow) (lt_irrefl _)
      · cases hbelow
    · cases hd

/-- A walk from a canonical path that is not a directory finds none. -/
theorem walkDir_of_plain {t : FileTree} {root : Path} (hroot : Plain t root)
    (h : t.node root ≠ some .dir) : walkDir t root = [] := by
  have hisDir : ¬ isDir t root = true := fun hdir => h ((isDir_of_plain hroot).mp hdir)
  have hlstat : lstat t root ≠ some .dir := by
    rcases List.eq_nil_or_concat root with rfl | ⟨d, n, rfl⟩
    · exact h
    · rw [List.concat_eq_append] at hroot h ⊢
      rcases hroot with hnil | ⟨a, ha, -⟩
      · simp at hnil
      · have hpar := Lib.PathTree.node_dropLast ha (by simp)
        rw [List.dropLast_concat] at hpar
        rwa [lstat_child hpar]
  unfold walkDir
  rw [if_neg hlstat, if_neg hisDir]
  rfl

/-- The directories reached from `root` by listing directories, never through a link. -/
inductive ReachableDir (t : FileTree) (root : Path) : Path → Prop
  | root : t.node root = some .dir → ReachableDir t root root
  | child {d : Path} {n : FileName} : ReachableDir t root d → t.node (d ++ [n]) = some .dir →
      ReachableDir t root (d ++ [n])

theorem reachableDir_iff {t : FileTree} {root d : Path} :
    ReachableDir t root d ↔ root <+: d ∧ t.node d = some .dir := by
  constructor
  · intro h
    induction h with
    | root h => exact ⟨List.prefix_rfl, h⟩
    | child _ hnode ih => exact ⟨ih.1.trans (List.prefix_append _ _), hnode⟩
  · rintro ⟨⟨rel, rfl⟩, hnode⟩
    induction rel using List.reverseRecOn with
    | nil =>
      rw [List.append_nil] at hnode ⊢
      exact .root hnode
    | append_singleton rel n ih =>
      rw [← List.append_assoc] at hnode ⊢
      have hpar := Lib.PathTree.node_dropLast hnode (by simp)
      rw [List.dropLast_concat] at hpar
      exact .child (ih hpar) hnode

/-- A walk from a canonical path visits the directories reached from it. -/
theorem mem_walkDir_iff_reachable {t : FileTree} {root d : Path} (hroot : Plain t root) :
    d ∈ walkDir t root ↔ ReachableDir t root d := by
  by_cases h : t.node root = some .dir
  · rw [mem_walkDir h, reachableDir_iff]
  · rw [walkDir_of_plain hroot h]
    constructor
    · intro hd
      cases hd
    · intro hd
      induction hd with
      | root hnode => exact absurd hnode h
      | child _ _ ih => cases ih

end FileTree

end Loku
