import Loku.Index.Scan

/-!
# Following file system events

An event names paths. `dirtyDirectories` maps each to the directories that may have changed:
the path itself, which may be a directory that came or went, and its parent. `Debounce`
collects these until the events are quiet, and `flush` works them off: what is not a directory
any more has its rows removed with everything beneath it, what still is one is reconciled with
everything beneath it.
-/

namespace Loku

inductive EventKind
  | access
  | create
  | modify
  | remove
  | other
deriving DecidableEq

structure Event where
  kind : EventKind
  paths : List Path
deriving DecidableEq

/-- A dirty directory: the library's position among the roots, and the path. -/
abbrev Dirty := Nat × Path

/-- A path whose extension is `part`, in any letter case. -/
def isPart (p : Path) : Bool := p.extension.any fun ext => eqIgnoreAsciiCase ext "part"

/-- The position of the first root that a path lies at or beneath. -/
def owningRoot (roots : List (Library × Path)) (dir : Path) : Option Nat :=
  roots.findIdx? fun root => dir.startsWith root.2

/-- The directories that an event may have changed. -/
def dirtyDirectories (event : Event) (roots : List (Library × Path)) : List Dirty :=
  if event.kind = .access then []
  else
    ((event.paths.filter fun path => !isPart path).flatMap fun path =>
      path :: path.parent.toList).filterMap fun dir =>
        (owningRoot roots dir).map fun libraryIndex => (libraryIndex, dir)

/-! ## Pruning -/

/-- `Path` order: component by component, by their bytes. -/
def pathLe : Path → Path → Bool
  | [], _ => true
  | _ :: _, [] => false
  | c :: p, d :: q => if c = d then pathLe p q else decide (c.text ≤ d.text)

/-- The order of `(usize, PathBuf)`. -/
def dirtyLe (a b : Dirty) : Bool := if a.1 = b.1 then pathLe a.2 b.2 else decide (a.1 < b.1)

/-- `Vec::dedup`: drop an element equal to the one before it. -/
def dedup : List Dirty → List Dirty
  | [] => []
  | [a] => [a]
  | a :: b :: rest => if a = b then dedup (b :: rest) else a :: dedup (b :: rest)

/-- One step of the fold: keep a directory unless the last one kept covers it. -/
def keepUncovered (kept : List Dirty) (d : Dirty) : List Dirty :=
  if kept.getLast?.any fun k => k.1 == d.1 && d.2.startsWith k.2 then kept else kept ++ [d]

/-- Drop the directories that lie beneath others. -/
def pruneNested (dirty : List Dirty) : List Dirty :=
  (dedup (dirty.insertionSort fun a b => dirtyLe a b)).foldl keepUncovered []

/-! ## Flushing -/

/-- Remove a vanished directory's rows; a refused call is skipped. -/
def removeVanished (faults : Faults) (roots : List (Library × Path)) (index : Index)
    (vanished : Dirty) : Index :=
  match roots[vanished.1]? with
  | none => index
  | some (library, root) =>
    let rel := relativeOf vanished.2 root
    if faults (.removeTree library.name rel) then index
    else (index.removeTree library.name rel).1

/-- Reconcile one directory of a live subtree; a failure is skipped. -/
def reconcileOrSkip (decoders : Decoders) (faults : Faults) (disk : Disk) (library : Library)
    (generation : Int) (index : Index) (dir : Path) : Index :=
  match reconcileDirectory decoders faults disk library generation dir index with
  | .ok index' => index'
  | .error _ => index

/-- Reconcile a live directory's whole subtree. -/
def reconcileLive (decoders : Decoders) (faults : Faults) (disk : Disk)
    (roots : List (Library × Path)) (generation : Int) (index : Index) (live : Dirty) : Index :=
  match roots[live.1]? with
  | none => index
  | some (library, _) =>
    (disk.walk.walkDir live.2).foldl
      (reconcileOrSkip decoders faults disk library generation) index

/-- Work off the dirty directories. -/
def flush (decoders : Decoders) (faults : Faults) (disk : Disk) (roots : List (Library × Path))
    (dirty : List Dirty) (index : Index) : Index :=
  if faults .currentGeneration then index
  else
    let generation := index.currentGeneration
    let isLive := fun d : Dirty => disk.walk.isDir d.2
    let removed := (pruneNested (dirty.filter fun d => !isLive d)).foldl
      (removeVanished faults roots) index
    (pruneNested (dirty.filter isLive)).foldl
      (reconcileLive decoders faults disk roots generation) removed

/-! ## Debouncing -/

/-- Pending directories and the instant at which they are to be flushed. -/
structure Debounce where
  quiet : Nat
  pending : List Dirty
  deadline : Option Nat
deriving DecidableEq

namespace Debounce

def new (quiet : Nat) : Debounce := ⟨quiet, [], none⟩

/-- Absorb one directory; the deadline moves to a full quiet period from now. -/
def record (debounce : Debounce) (key : Dirty) (now : Nat) : Debounce :=
  { debounce with
    pending := debounce.pending.insert key
    deadline := some (now + debounce.quiet) }

/-- Absorb one event's directories. -/
def recordAll (debounce : Debounce) (keys : List Dirty) (now : Nat) : Debounce :=
  keys.foldl (fun d key => d.record key now) debounce

/-- Hand over what is pending. -/
def take (debounce : Debounce) : List Dirty × Debounce :=
  (debounce.pending, { debounce with pending := [], deadline := none })

end Debounce

end Loku
