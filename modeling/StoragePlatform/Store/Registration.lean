/-
Module: StoragePlatform.Store.Registration
Purpose: Registration codes and the nodes they admit: RegisterNode and
  ConsumeRegistrationCode (internal/store/registration_codes.go), transactions statement by
  statement, under RegisterNode of the metadata service (internal/metadata/nodes.go).
Trusted boundary: human-reviewed spec; `hashSecret` and the CA are parameters
Main exports: RegistrationCode, NodeRow, RegistryDB, registrationRules
-/
import StoragePlatform.Lib.Transactions
import StoragePlatform.Store.Schema

namespace StoragePlatform

open Lib

/-- A row of `node_registration_codes`; a NULL country or region is scanned as the empty
text. -/
structure RegistrationCode where
  id : Uuid
  ownerId : Uuid
  codeHash : Text
  endpoint : Text
  country : Text
  region : Text
  asn : Option Int
  expiresAt : Time
  usedAt : Option Time
  nodeId : Option Uuid
deriving DecidableEq, Repr, Inhabited

structure CreateNodeParams where
  id : Uuid
  ownerId : Uuid
  certFingerprint : Bytes
  publicKey : Bytes
  certPem : Bytes
  certExpiresAt : Time
  hostnameLabel : Text
  os : Text
  agentVersion : Text
  country : Text
  region : Text
  asn : Option Int
  endpoint : Text
  capacityBytes : Int
deriving DecidableEq, Repr, Inhabited

/-- The columns of `nodes` that a registration writes. -/
structure NodeRow where
  id : Uuid
  ownerId : Uuid
  certFingerprint : Bytes
  publicKey : Bytes
  certPem : Bytes
  certExpiresAt : Time
  hostnameLabel : Text
  os : Text
  agentVersion : Text
  country : Text
  region : Text
  asn : Option Int
  endpoint : Text
  capacityBytes : Int
  status : NodeStatus
  probationUntil : Time
deriving DecidableEq, Repr, Inhabited

/-- A committed transaction that has bound a code: to a node it inserted (RegisterNode) or
to one that was there (ConsumeRegistrationCode). -/
structure Binding where
  codeId : Uuid
  nodeId : Uuid
  inserted : Option NodeRow
deriving DecidableEq, Repr

/-- The two tables, and the history of the transactions that bound a code. -/
structure RegistryDB where
  codes : List RegistrationCode
  nodes : List NodeRow
  history : List Binding
deriving DecidableEq, Repr

/-- Fourteen days. -/
def probationPeriod : Time := 14 * 24 * 3600

/-- The row RegisterNode inserts.  `began` is `now()`, the time at which the transaction
began. -/
def registeredNode (c : RegistrationCode) (p : CreateNodeParams) (id : Uuid) (began : Time) :
    NodeRow where
  id := id
  ownerId := c.ownerId
  certFingerprint := p.certFingerprint
  publicKey := p.publicKey
  certPem := p.certPem
  certExpiresAt := p.certExpiresAt
  hostnameLabel := p.hostnameLabel
  os := p.os
  agentVersion := p.agentVersion
  country := c.country
  region := c.region
  asn := c.asn
  endpoint := c.endpoint
  capacityBytes := p.capacityBytes
  status := .pending
  probationUntil := began + probationPeriod

/-- `if p.ID == uuid.Nil { p.ID = uuid.New() }`. -/
def CreateNodeParams.newNodeId (p : CreateNodeParams) (drawn : Uuid) : Uuid :=
  if p.id = 0 then drawn else p.id

namespace RegistryDB

/-- `RegistrationCodeByHash`. -/
def registrationCodeByHash (db : RegistryDB) (codeHash : Text) : Except StoreErr RegistrationCode :=
  match db.codes.find? fun c => c.codeHash = codeHash with
  | none => .error .notFound
  | some c => .ok c

/-- The checks on a code that was read. -/
def checkCode (c : RegistrationCode) (now : Time) : Except StoreErr Unit :=
  if c.usedAt ≠ none then .error .conflict
  else if now > c.expiresAt then .error .notFound
  else .ok ()

/-- The primary key and the unique fingerprint of `nodes`. -/
def clashes (a b : NodeRow) : Bool := a.id = b.id ∨ a.certFingerprint = b.certFingerprint

/-- What a transaction that bound a code has written. -/
def bind (db : RegistryDB) (codeId nodeId : Uuid) (inserted : Option NodeRow) (began : Time) :
    RegistryDB where
  codes := updateWhere (fun c => c.id = codeId)
    (fun c => { c with usedAt := some began, nodeId := some nodeId }) db.codes
  nodes := db.nodes ++ inserted.toList
  history := db.history ++ [⟨codeId, nodeId, inserted⟩]

end RegistryDB

/-! ### The metadata service -/

/-- What an agent sends; `nodeId` is the id the service draws for it. -/
structure RegisterCall where
  code : Text
  csr : Bytes
  endpoint : Text
  os : Text
  version : Text
  label : Text
  capacity : Int
  nodeId : Uuid
deriving DecidableEq, Repr

/-- What the CA issues. -/
structure IssuedNode where
  certPem : Bytes
  publicKey : Bytes
  fingerprint : Bytes
  expiresAt : Time
deriving DecidableEq, Repr

/-- The parameters of the service. -/
structure RegistrationService where
  hashSecret : Text → Text
  issueNode : Bytes → Uuid → Text → Option IssuedNode

/-- `RegisterNode` of the service up to the call of the store. -/
def RegistrationService.prepare (service : RegistrationService) (db : RegistryDB)
    (call : RegisterCall) (now : Time) : Except StoreErr (Text × CreateNodeParams) :=
  if call.code = [] ∨ call.csr = [] then .error .invalid
  else do
    let hashed := service.hashSecret call.code
    let c ← db.registrationCodeByHash hashed
    RegistryDB.checkCode c now
    match service.issueNode call.csr call.nodeId c.endpoint with
    | none => .error (.query "metadata.registerNode")
    | some issued =>
      .ok (hashed,
        { id := call.nodeId
          ownerId := 0
          certFingerprint := issued.fingerprint
          publicKey := issued.publicKey
          certPem := issued.certPem
          certExpiresAt := issued.expiresAt
          hostnameLabel := call.label
          os := if call.os = [] then "linux".toList else call.os
          agentVersion := if call.version = [] then "m2".toList else call.version
          country := []
          region := []
          asn := none
          endpoint := []
          capacityBytes := if call.capacity ≤ 0 then 10 * 2 ^ 30 else call.capacity })

/-! ### Transactions -/

/-!
A row that another transaction has locked with FOR UPDATE is waited for and then read as
it was committed; the hash of a code never changes, so the lock and the read are one step.
An INSERT waits for an open transaction that has inserted the same key.  The check of the
foreign key sees rows that are committed and rows of its own transaction.
-/

inductive RegistrationRequest where
  | register (codeHash : Text) (params : CreateNodeParams) (began : Time)
  | consume (codeHash : Text) (nodeId : Uuid) (began : Time)
  /-- RegisterNode through the service, which has read its clock before. -/
  | service (call : RegisterCall) (now began : Time)
deriving DecidableEq, Repr

/-- What a transaction does with the code: insert a node or bind an existing one. -/
inductive CodeUse where
  | register (params : CreateNodeParams)
  | consume (nodeId : Uuid)
deriving DecidableEq, Repr

/-- Where a transaction stands between two statements. -/
inductive RegistrationTx where
  | begun (codeHash : Text) (purpose : CodeUse) (began : Time)
  /-- The row is locked and read. -/
  | locked (code : RegistrationCode) (purpose : CodeUse) (began : Time)
  /-- The code is unused and not expired. -/
  | checked (code : RegistrationCode) (purpose : CodeUse) (began : Time)
  | inserted (code : RegistrationCode) (node : NodeRow) (began : Time)
  | bound (code : RegistrationCode) (nodeId : Uuid) (node : Option NodeRow) (began : Time)
deriving DecidableEq, Repr

inductive RegistrationInput where
  | nothing
  /-- `time.Now()`. -/
  | clock (now : Time)
  /-- `uuid.New()`. -/
  | drawn (id : Uuid)
deriving DecidableEq, Repr

namespace RegistrationTx

/-- The code row it has locked. -/
def code? : RegistrationTx → Option RegistrationCode
  | begun _ _ _ => none
  | locked c _ _ | checked c _ _ | inserted c _ _ | bound c _ _ _ => some c

/-- The node row it has inserted. -/
def node? : RegistrationTx → Option NodeRow
  | inserted _ node _ => some node
  | bound _ _ node _ => node
  | _ => none

def start (service : RegistrationService) (db : RegistryDB) :
    RegistrationRequest → Option RegistrationTx
  | .register codeHash params began => some (begun codeHash (.register params) began)
  | .consume codeHash nodeId began => some (begun codeHash (.consume nodeId) began)
  | .service call now began =>
    match service.prepare db call now with
    | .error _ => none
    | .ok (codeHash, params) => some (begun codeHash (.register params) began)

/-- The next statement or check. -/
def next (db : RegistryDB) (others : List RegistrationTx) :
    RegistrationTx → RegistrationInput → Option RegistrationTx
  | begun codeHash purpose began, .nothing =>
    match db.registrationCodeByHash codeHash with
    | .error _ => none
    | .ok c =>
      if others.any fun u => u.code?.any fun d => d.id = c.id then none
      else some (locked c purpose began)
  | locked c purpose began, .clock now =>
    match RegistryDB.checkCode c now with
    | .error _ => none
    | .ok () => some (checked c purpose began)
  | checked c (.register params) began, .drawn id =>
    let node := registeredNode c params (params.newNodeId id) began
    if db.nodes.any (RegistryDB.clashes node) then none
    else if others.any fun u => u.node?.any (RegistryDB.clashes node) then none
    else some (inserted c node began)
  | inserted c node began, .nothing => some (bound c node.id (some node) began)
  | checked c (.consume nodeId) began, .nothing =>
    if db.nodes.any fun n => n.id = nodeId then some (bound c nodeId none began)
    else none
  | _, _ => none

def commit (db : RegistryDB) : RegistrationTx → Option RegistryDB
  | bound c nodeId node began => some (db.bind c.id nodeId node began)
  | _ => none

end RegistrationTx

def registrationRules (service : RegistrationService) :
    TxRules RegistryDB RegistrationRequest RegistrationTx RegistrationInput where
  start := RegistrationTx.start service
  next := RegistrationTx.next
  commit := RegistrationTx.commit

end StoragePlatform
