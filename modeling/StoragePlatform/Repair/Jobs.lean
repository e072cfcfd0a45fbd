/-
Module: StoragePlatform.Repair.Jobs
Purpose: The repair job loop: onJob with its three transfers and its exits, and
  the acknowledgement of jobs in the stream (internal/repair/worker.go).
Trusted boundary: human-reviewed spec; the Reed-Solomon code, SHA-256 and the
  signature check are parameters
Main exports: JobErr, JobRun, fetchSources, putTargets, DB.commitJob, NotForgotten
-/
import StoragePlatform.Client.Transfer
import StoragePlatform.Events
import StoragePlatform.Store.Health
import StoragePlatform.System

namespace StoragePlatform

open Lib

/-!
A delivery of a job runs as one step.  Nothing else touches the placements of its
chunk in the meantime, and what other processes do elsewhere is in the steps
before and after it.  Everything the worker is told from outside stands in a
`JobRun`: replies that get lost, the answers of the nodes, the orders in which
answers arrive and rows are read, and the outcome of the publish.
-/

/-- The error exits of `onJob`. -/
inductive JobErr where
  | health
  | plan
  /-- `repair.fetch: only %d of %d shards` -/
  | tooFewSources (got : Nat)
  /-- `repair.reconstruct` -/
  | reconstruct (e : PipelineErr)
  /-- `repair.job: missing rebuilt shard %d` -/
  | missingShard (shardIndex : Int)
  /-- `repair.job: rebuilt hash mismatch shard %d` -/
  | hashMismatch (shardIndex : Int)
  /-- `repair.job: all puts failed` -/
  | allPutsFailed
  | commit
  | publish
deriving DecidableEq, Repr

/-- What becomes of a publish: done, accepted without the worker hearing of it, or
not made. -/
inductive PublishOutcome where
  | done | unheard | failed
deriving DecidableEq, Repr

/-- What happens around one delivery. -/
structure JobRun where
  healthRead : Bool
  place : PlaceEnv
  sign : SignTicket
  planHeard : Bool
  /-- The bytes a source returns; `none` is a failed GET. -/
  get : ShardRef → Option Bytes
  /-- Sources answer in the order of these numbers. -/
  arrival : ShardRef → Nat
  /-- The receipt of a PUT; `none` is a failed one. -/
  put : ShardRef → Option Text
  /-- The UPDATE after a failed PUT goes through. -/
  lostWritten : ShardRef → Bool
  /-- The commit reads its rows in the order of these numbers. -/
  readAt : PlacementTarget → Nat
  commitHeard : Bool
  recheckRead : Bool
  publishAt : Time
  publishes : PublishOutcome

def repairThreshold : Nat := 16

/-! ### Transfers -/

/-- One goroutine of `fetchSources`.  The plan carries the hash in hexadecimal,
which `hashMatches` decodes again. -/
def JobRun.hit (run : JobRun) (sha256 : Bytes → Bytes) (src : ShardRef) : Option Hit :=
  match run.get src with
  | none => none
  | some data =>
    if sha256 data = src.sha256 then
      some { idx := src.shardIndex, data := data, receipt := [] }
    else none

/-- `fetchSources`: the first ten different shards that arrive. -/
def fetchSources (run : JobRun) (sha256 : Bytes → Bytes) (sources : List ShardRef) :
    Except JobErr (List (Option Bytes)) :=
  let answered := orderBy (fun a b => run.arrival a ≤ run.arrival b) sources
  let c := collectHits (answered.filterMap (run.hit sha256)) .empty
  if c.got < ecData then .error (.tooFewSources c.got) else .ok c.shards

/-- `shards[idx]`, with the range check. -/
def rebuiltShard (shards : List (Option Bytes)) (idx : Int) : Option Bytes :=
  if idx < 0 ∨ (ecTotal : Int) ≤ idx then none
  else shards[idx.toNat]?.join

/-- The loop over the targets: the receipts, and the table with the failed ones
marked lost. -/
def putTargets (run : JobRun) (sha256 : Bytes → Bytes) (shards : List (Option Bytes)) :
    DB → List ShardRef → Except JobErr (List Text) × DB
  | db, [] => (.ok [], db)
  | db, tgt :: rest =>
    match rebuiltShard shards tgt.shardIndex with
    | none => (.error (.missingShard tgt.shardIndex), db)
    | some shard =>
      if sha256 shard ≠ tgt.sha256 then (.error (.hashMismatch tgt.shardIndex), db)
      else
        match run.put tgt with
        | none =>
          putTargets run sha256 shards
            (if run.lostWritten tgt then
              (db.markPlacementLost tgt.fragmentId tgt.nodeId).2
            else db)
            rest
        | some receipt =>
          match putTargets run sha256 shards db rest with
          | (.error e, db') => (.error e, db')
          | (.ok receipts, db') => (.ok (receipt :: receipts), db')

/-! ### onJob -/

/-- How a delivery ends: nil or the error, and what it leaves. -/
structure JobResult where
  result : Except JobErr Unit
  db : DB
  stream : JobStream

/-- `onJob` from the commit on. -/
def DB.commitJob (db : DB) (sigOk : SigCheck) (run : JobRun) (stream : JobStream)
    (chunkId : Uuid) (receipts : List Text) : JobResult :=
  let targets := orderBy (fun a b => run.readAt a ≤ run.readAt b)
    (db.pendingTargetsForChunk chunkId)
  match db.commitRepair sigOk targets receipts with
  | .error _ => { result := .error .commit, db := db, stream := stream }
  | .ok db' =>
    if run.commitHeard = false then
      { result := .error .commit, db := db', stream := stream }
    else if run.recheckRead = false then
      { result := .error .health, db := db', stream := stream }
    else if db'.chunkHealth chunkId < repairThreshold then
      let published := stream.publishRepair run.publishAt
        { chunkId := chunkId, healthy := db'.chunkHealth chunkId }
      match run.publishes with
      | .done => { result := .ok (), db := db', stream := published }
      | .unheard => { result := .error .publish, db := db', stream := published }
      | .failed => { result := .error .publish, db := db', stream := stream }
    else { result := .ok (), db := db', stream := stream }

/-- `onJob` from the plan on.  A plan without targets ends the job with nil. -/
def DB.runPlan (db : DB) (sigOk : SigCheck) (rs : ReedSolomon) (sha256 : Bytes → Bytes)
    (run : JobRun) (stream : JobStream) (chunkId : Uuid) (plan : RepairPlan) : JobResult :=
  if plan.targets = [] then { result := .ok (), db := db, stream := stream }
  else
    match fetchSources run sha256 plan.sources with
    | .error e => { result := .error e, db := db, stream := stream }
    | .ok shards =>
      match reconstructShards rs shards with
      | .error e => { result := .error (.reconstruct e), db := db, stream := stream }
      | .ok work =>
        match putTargets run sha256 work db plan.targets with
        | (.error e, db') => { result := .error e, db := db', stream := stream }
        | (.ok receipts, db') =>
          if receipts = [] then
            { result := .error .allPutsFailed, db := db', stream := stream }
          else db'.commitJob sigOk run stream chunkId receipts

/-- `onJob` on a decoded job. -/
def DB.onJob (db : DB) (sigOk : SigCheck) (rs : ReedSolomon) (sha256 : Bytes → Bytes)
    (run : JobRun) (stream : JobStream) (job : RepairJob) : JobResult :=
  if run.healthRead = false then { result := .error .health, db := db, stream := stream }
  else if repairThreshold ≤ db.chunkHealth job.chunkId then
    { result := .ok (), db := db, stream := stream }
  else
    match db.planRepair run.place run.sign job.chunkId with
    | (.error _, db') => { result := .error .plan, db := db', stream := stream }
    | (.ok plan, db') =>
      if run.planHeard = false then { result := .error .plan, db := db', stream := stream }
      else db'.runPlan sigOk rs sha256 run stream job.chunkId plan

/-! ### The startup scan -/

/-- What happens around one scan: failed reads, and per chunk the time and the
outcome of its publish. -/
structure ScanRun where
  scanRead : Bool
  healthRead : Uuid → Bool
  publishAt : Uuid → Time
  publishes : Uuid → PublishOutcome

/-- One turn of the loop of `enqueueUnhealthy`.  An error is logged and the loop
goes on. -/
def DB.enqueueChunk (db : DB) (run : ScanRun) (stream : JobStream) (chunkId : Uuid) :
    JobStream :=
  if run.healthRead chunkId = false ∨ run.publishes chunkId = .failed then stream
  else
    stream.publishRepair (run.publishAt chunkId)
      { chunkId := chunkId, healthy := db.chunkHealth chunkId }

/-- `enqueueUnhealthy`. -/
def DB.enqueueUnhealthy (db : DB) (run : ScanRun) (stream : JobStream) : JobStream :=
  if run.scanRead = false then stream
  else (db.underHealthyChunks repairThreshold).foldl (db.enqueueChunk run) stream

/-! ### The loop -/

/-- The rest of the system, and the stream of jobs. -/
structure JobLoop where
  system : System
  stream : JobStream

inductive JobEvent where
  /-- `drainJobs` fetches a job and runs it. -/
  | deliver (job : RepairJob) (run : JobRun)
  /-- Any other process takes a step. -/
  | others (e : Event)
  /-- The offline handler, the audit or the startup scan publishes a job. -/
  | publish (job : RepairJob) (now : Time)
  /-- A job leaves the stream by age or after too many deliveries. -/
  | dropped (job : RepairJob)

def JobStream.remove (stream : JobStream) (job : RepairJob) : JobStream :=
  { stream with jobs := stream.jobs.erase job }

/-- A job that ends with nil is acknowledged, which removes it; any other stays
and is delivered again. -/
def jobStep (sigOk : SigCheck) (rs : ReedSolomon) (sha256 : Bytes → Bytes) (s : JobLoop) :
    JobEvent → Option JobLoop
  | .deliver job run =>
    if job ∈ s.stream.jobs then
      let r := s.system.db.onJob sigOk rs sha256 run s.stream job
      some
        { system := { s.system with db := r.db }
          stream :=
            match r.result with
            | .ok () => r.stream.remove job
            | .error _ => r.stream }
    else none
  | .others e =>
    match step sigOk s.system e with
    | none => none
    | some system => some { s with system := system }
  | .publish job now => some { s with stream := s.stream.publishRepair now job }
  | .dropped job =>
    if job ∈ s.stream.jobs then some { s with stream := s.stream.remove job } else none

/-! ### The property -/

/-- A delivery that ends with nil leaves its chunk at the target, or another job
for it in the stream. -/
def NotForgotten (sigOk : SigCheck) (rs : ReedSolomon) (sha256 : Bytes → Bytes) (s : JobLoop)
    (e : JobEvent) (t : JobLoop) : Prop :=
  match e with
  | .deliver job run =>
    (s.system.db.onJob sigOk rs sha256 run s.stream job).result = .ok () →
      repairThreshold ≤ t.system.db.chunkHealth job.chunkId ∨
        ∃ other ∈ t.stream.jobs, other.chunkId = job.chunkId
  | _ => True

end StoragePlatform
