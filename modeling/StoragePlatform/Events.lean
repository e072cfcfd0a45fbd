/-
Module: StoragePlatform.Events
Purpose: The repair-job stream: priorities, publishing with a message id and the
  duplicate window (internal/events/events.go).
Trusted boundary: human-reviewed spec; JetStream drops a publish whose id was
  published within the window
Main exports: prioritySubject, RepairJob, JobStream, JobStream.duplicate_publishRepair
-/
import StoragePlatform.Store.Schema

namespace StoragePlatform

open Lib

inductive RepairSubject where
  | critical | high | normal
deriving DecidableEq, Repr

/-- `PrioritySubject`; `none` is the empty subject. -/
def prioritySubject (healthy : Nat) : Option RepairSubject :=
  if 16 ≤ healthy then none
  else if healthy ≤ 10 then some .critical
  else if healthy = 11 then some .high
  else some .normal

theorem prioritySubject_eq_none {healthy : Nat} :
    prioritySubject healthy = none ↔ 16 ≤ healthy := by
  rw [prioritySubject]
  grind

/-- A job; chunk and healthy count are also its message id. -/
structure RepairJob where
  chunkId : Uuid
  healthy : Nat
deriving DecidableEq, Repr

/-- `Duplicates` of the stream, in seconds. -/
def duplicateWindow : Time := 60

/-- The work-queue stream: the jobs not yet acknowledged, and when each job id
was accepted. -/
structure JobStream where
  jobs : List RepairJob
  accepted : List (RepairJob × Time)
deriving DecidableEq, Repr

def JobStream.empty : JobStream where
  jobs := []
  accepted := []

/-- The id was accepted less than a window ago. -/
def JobStream.duplicate (stream : JobStream) (now : Time) (job : RepairJob) : Bool :=
  stream.accepted.any fun entry => entry.1 = job ∧ now < entry.2 + duplicateWindow

/-- `PublishRepair`, when the publish call succeeds.  A healthy chunk has no
subject, and a duplicate is dropped without an error. -/
def JobStream.publishRepair (stream : JobStream) (now : Time) (job : RepairJob) : JobStream :=
  match prioritySubject job.healthy with
  | none => stream
  | some _ =>
    if stream.duplicate now job then stream
    else
      { jobs := stream.jobs ++ [job]
        accepted := stream.accepted ++ [(job, now)] }

/-- A job for the chunk has been accepted at some time. -/
def JobStream.hasPublished (stream : JobStream) (chunkId : Uuid) : Bool :=
  stream.accepted.any fun entry => entry.1.chunkId = chunkId

theorem JobStream.hasPublished_mono (stream : JobStream) (now : Time) (job : RepairJob)
    {chunkId : Uuid} (had : stream.hasPublished chunkId = true) :
    (stream.publishRepair now job).hasPublished chunkId = true := by
  simp only [publishRepair]
  split
  · exact had
  · split
    · exact had
    · rw [hasPublished] at had ⊢
      rw [List.any_append, had, Bool.true_or]

/-- Publishing for an unhealthy chunk, dropped or not, leaves a job published. -/
theorem JobStream.hasPublished_publishRepair (stream : JobStream) (now : Time) {job : RepairJob}
    (unhealthy : job.healthy < 16) :
    (stream.publishRepair now job).hasPublished job.chunkId = true := by
  simp only [publishRepair]
  split
  · rename_i healthy
    exact absurd (prioritySubject_eq_none.mp healthy) (by omega)
  · split
    · rename_i duplicate
      simp only [JobStream.duplicate, List.any_eq_true, decide_eq_true_eq] at duplicate
      obtain ⟨entry, member, same, -⟩ := duplicate
      exact List.any_eq_true.mpr ⟨entry, member, by simp [same]⟩
    · simp [hasPublished]

/-- An unhealthy chunk's publish counts from then on: the job is new in the stream,
or a duplicate of one accepted within the window. -/
theorem JobStream.duplicate_publishRepair (stream : JobStream) (now : Time) {job : RepairJob}
    (unhealthy : job.healthy < 16) : (stream.publishRepair now job).duplicate now job = true := by
  simp only [publishRepair]
  split
  · rename_i healthy
    exact absurd (prioritySubject_eq_none.mp healthy) (by omega)
  · split
    · assumption
    · simp [duplicate, duplicateWindow]

theorem JobStream.accepted_subset_publishRepair (stream : JobStream) (now : Time)
    (job : RepairJob) : stream.accepted ⊆ (stream.publishRepair now job).accepted := by
  simp only [publishRepair]
  split
  · exact List.Subset.refl _
  · split
    · exact List.Subset.refl _
    · exact List.subset_append_left _ _

end StoragePlatform
