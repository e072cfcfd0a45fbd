/-
Module: StoragePlatform.Agent.Scrub
Purpose: The background scrub of an agent (internal/agent/scrub.go).
Trusted boundary: human-reviewed spec; a file that opens is read to its end
Main exports: ChunkStore.fragmentHashOK, ScrubPass, ScrubEnv, ChunkStore.afterPasses
-/
import StoragePlatform.Agent.Store

namespace StoragePlatform

open Lib
open Std (ExtTreeMap)

def scrubBatch : Nat := 8

/-- The variables of `scrubOnce`, with the ids whose hash it has computed. -/
structure ScrubPass where
  n : Nat
  checked : List Uuid
  lost : List Uuid
deriving DecidableEq, Repr

/-- What becomes of a report request. -/
inductive ReportOutcome where
  /-- It was not sent, did not arrive, or was answered with a status from 300 on. -/
  | failed
  /-- The monitor has handled it and the answer was lost. -/
  | unanswered
  | accepted
deriving DecidableEq, Repr

/-- For which ids the index fails to delete, whether the agent has a health monitor and a
client certificate, and what becomes of each report. -/
structure ScrubEnv where
  deleteFails : Uuid → Bool
  monitored : Bool
  report : Uuid → ReportOutcome

/-- `reportScrub`.  Without a monitor there is no request and no error. -/
def ScrubEnv.reportScrub (env : ScrubEnv) (id : Uuid) : Except ChunkErr Unit :=
  if env.monitored = false then .ok ()
  else
    match env.report id with
    | .accepted => .ok ()
    | .failed | .unanswered => .error (.io "agent.scrub")

/-- The monitor has handled the report, whether or not the agent has heard of it. -/
def ScrubEnv.informs (env : ScrubEnv) (id : Uuid) : Bool :=
  env.monitored ∧ env.report id ≠ .failed

/-- A result, the store it leaves and what the monitor has been told. -/
structure ScrubEnd where
  result : Except ChunkErr Unit
  store : ChunkStore
  reported : List Uuid

namespace ChunkStore

/-- `fragmentHashOK`. -/
def fragmentHashOK (hash : Bytes → Bytes) (s : ChunkStore) (id : Uuid) (fragMeta : FragMeta) :
    Bool :=
  match s.files[id]? with
  | none => false
  | some data => equalSHA (hash data) fragMeta.sha256

/-- The callback of `Each`. -/
def scrubVisit (hash : Bytes → Bytes) (s : ChunkStore) (pass : ScrubPass)
    (row : Uuid × FragMeta) : ScrubPass :=
  if scrubBatch ≤ pass.n then pass
  else
    { n := pass.n + 1
      checked := pass.checked ++ [row.1]
      lost := if s.fragmentHashOK hash row.1 row.2 then pass.lost else pass.lost ++ [row.1] }

def scrubEach (hash : Bytes → Bytes) (s : ChunkStore) : ScrubPass × Except ChunkErr Unit :=
  s.each (s.scrubVisit hash) ⟨0, [], []⟩

/-- The loop over `lost`.  An error of `Delete` is dropped, one of the report ends the
loop. -/
def dropLost (env : ScrubEnv) : ChunkStore → List Uuid → ScrubEnd
  | s, [] => ⟨.ok (), s, []⟩
  | s, id :: lost =>
    let deleted := (s.delete id (env.deleteFails id)).2
    let told := if env.informs id then [id] else []
    match env.reportScrub id with
    | .error e => ⟨.error e, deleted, told⟩
    | .ok _ =>
      let rest := dropLost env deleted lost
      { rest with reported := told ++ rest.reported }

/-- `scrubOnce`. -/
def scrubOnce (hash : Bytes → Bytes) (env : ScrubEnv) (s : ChunkStore) : ScrubEnd :=
  match s.scrubEach hash with
  | (_, .error e) => ⟨.error e, s, []⟩
  | (pass, .ok _) => dropLost env s pass.lost

/-- The store after `k` calls; `env i` is met by the call number `i`. -/
def afterPasses (hash : Bytes → Bytes) (env : Nat → ScrubEnv) (s : ChunkStore) :
    Nat → ChunkStore
  | 0 => s
  | k + 1 => ((s.afterPasses hash env k).scrubOnce hash (env k)).store

/-- What call number `k` looks at, and how its `Each` ends. -/
def passAt (hash : Bytes → Bytes) (env : Nat → ScrubEnv) (s : ChunkStore) (k : Nat) :
    ScrubPass × Except ChunkErr Unit :=
  (s.afterPasses hash env k).scrubEach hash

end ChunkStore

end StoragePlatform
