import Loku.Media.Ffmpeg
import Loku.Index.Scan

/-!
# The probe pass

Every video without codec facts is looked up in the probe cache and otherwise probed. A
failure that is a fact about the file is recorded as an empty result; any other is retried on
the next pass.
-/

namespace Loku

/-- What a runner answers for each path. -/
abbrev ProbeRunner := Path → Except ProbeError ProbeResult

/-- Apply a result; a refused call leaves the row for the next pass. -/
def recorded (faults : Faults) (candidate : ProbeCandidate) (probe : ProbeResult)
    (index : Index) : Index × Nat :=
  if faults (.recordProbe candidate.key) then (index, 0)
  else (index.recordProbe candidate probe, 1)

/-- Resolve one candidate; how many videos gained facts. -/
def probeCandidate (faults : Faults) (runner : ProbeRunner) (libraries : List Library)
    (index : Index) (candidate : ProbeCandidate) : Index × Nat :=
  match libraries.find? fun l => l.name == candidate.library with
  | none => (index, 0)
  | some library =>
    if faults (.cachedProbe candidate.key) then (index, 0)
    else
      match index.cachedProbe candidate with
      | some cached => recorded faults candidate cached index
      | none =>
        match runner (library.path.join candidate.relPath) with
        | .ok result => recorded faults candidate result index
        | .error error =>
          if error.isDefinitive then ((recorded faults candidate {} index).1, 0) else (index, 0)

/-- One step of the fold over the candidates. -/
def probeStep (faults : Faults) (runner : ProbeRunner) (libraries : List Library)
    (acc : Index × Nat) (candidate : ProbeCandidate) : Index × Nat :=
  let probed := probeCandidate faults runner libraries acc.1 candidate
  (probed.1, acc.2 + probed.2)

/-- Probe every video that lacks codec facts. -/
def probePending (faults : Faults) (runner : ProbeRunner) (libraries : List Library)
    (index : Index) : Index × Nat :=
  if faults .videosNeedingProbe then (index, 0)
  else index.videosNeedingProbe.foldl (probeStep faults runner libraries) (index, 0)

end Loku
