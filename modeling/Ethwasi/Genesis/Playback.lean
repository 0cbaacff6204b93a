import Ethwasi.Rust.Process
import Ethwasi.Genesis.StateParser
import Ethwasi.Genesis.Ledger

/-!
# Playing back an exported state

`genesis_playback` reads the accounts of an exported state one by one and writes them into an
Ethereum state over a fresh tree. After a number of operations the state is committed to the tree,
the tree is committed to a root, and what changed is pushed to a storage node as a step from the
last root to the new one. At the end the rest is committed and pushed, and the last root is written
to the genesis file. There are no errors: whatever goes wrong panics, and what was pushed before
stays with the node.

The state and the tree below it belong to other crates, and so does the node. The world stands for
the state with its tree; the number of imported accounts is only printed and is left out. The
storage of an account comes in the order of its keys.
-/

namespace Ethwasi.Genesis

open Ethwasi.Rust Ethwasi.Transition

/-- A write log: keys with their new values, or `None` for a key that is removed. -/
abbrev WriteLog := List (Bytes × Option Bytes)

/-- `storage::ApplyRequest`. -/
structure ApplyRequest where
  /-- `namespace`. -/
  runtimeId : H256
  srcRound : Nat
  srcRoot : H256
  dstRound : Nat
  dstRoot : H256
  writeLog : WriteLog
  deriving DecidableEq

/-- `RuntimeGenesis`; there is no other state in it, and its storage receipts are empty. -/
structure RuntimeGenesis where
  stateRoot : H256
  round : Nat
  deriving DecidableEq

/-- The crates behind the import, over a type of worlds and a type of storage nodes. A call that
returns nothing is unwrapped. -/
structure ImportHost (ω ν : Type) where
  /-- `Address::from_str`. -/
  addressFromStr : String → Option Address
  /-- `U256::from_str`. -/
  u256FromStr : String → Option Nat
  /-- `H256::from_str`. -/
  h256FromStr : String → Option H256
  /-- `hex::decode`. -/
  hexDecode : String → Option Bytes
  /-- `Spec::ensure_db_good`: write the genesis block of the specification. -/
  ensureDbGood : ω → Option ω
  /-- `State::from_existing`. -/
  fromExisting : ω → Option ω
  /-- `State::new_contract`, with a balance, a nonce and an expiry. -/
  newContract : ω → Address → Nat → Nat → Nat → ω
  /-- `State::init_code`. -/
  initCode : ω → Address → Bytes → Option ω
  /-- `State::set_storage`. -/
  setStorage : ω → Address → H256 → H256 → Option ω
  /-- `State::commit`: write the state into the tree. -/
  commitState : ω → Option ω
  /-- `commit` of the overlay: what changed since the last one, and the new root. -/
  commitTree : ω → Option (WriteLog × H256 × ω)
  /-- `commit` of the tree below, after the import. -/
  finalRoot : ω → Option H256
  /-- `StorageClient::apply`. -/
  storageApply : ν → ApplyRequest → Option ν
  /-- `Hash::empty_hash`. -/
  emptyHash : H256

/-- The arguments of the program that the import reads. -/
structure ImportOptions where
  runtimeId : H256
  commitEvery : Nat

/-- The variables of the import, with the requests that the node took. -/
structure Importer (ω ν : Type) where
  world : ω
  node : ν
  root : H256
  /-- Operations since the last commit. -/
  ops : Nat
  pushed : List ApplyRequest

/-- `strip_0x`. -/
def strip0x (hex : String) : String :=
  match hex.toList with
  | '0' :: 'x' :: digits => String.ofList digits
  | _ => hex

section Program

variable {ω ν : Type} (host : ImportHost ω ν) (options : ImportOptions)

/-- The import before its first request. -/
def Importer.start (world : ω) (node : ν) : Importer ω ν := ⟨world, node, host.emptyHash, 0, []⟩

/-- The request of a commit: a step from the last root to the new one, at round zero. -/
def commitRequest (root stateRoot : H256) (writeLog : WriteLog) : ApplyRequest :=
  { runtimeId := options.runtimeId, srcRound := 0, srcRoot := root, dstRound := 0
    dstRoot := stateRoot, writeLog }

/-- The closure `commit`. -/
def commit : Process (Importer ω ν) Unit := do
  let importer ← get
  let world ← Process.expect (host.commitState importer.world)
  modify fun importer => { importer with world }
  let (writeLog, stateRoot, world) ← Process.expect (host.commitTree world)
  modify fun importer => { importer with world }
  let request := commitRequest options importer.root stateRoot writeLog
  let node ← Process.expect (host.storageApply importer.node request)
  modify fun importer =>
    { importer with node, root := stateRoot, pushed := importer.pushed ++ [request] }

/-- The part of `check_commit` behind its test. -/
def commitAndReset : Process (Importer ω ν) Unit := do
  commit host options
  modify fun importer => { importer with ops := 0 }

/-- The closure `check_commit`. -/
def checkCommit : Process (Importer ω ν) Unit := do
  modify fun importer => { importer with ops := importer.ops + 1 }
  let importer ← get
  if importer.ops = options.commitEvery then commitAndReset host options else pure ()

/-- Change the world by a call that is unwrapped. -/
def update (call : ω → Option ω) : Process (Importer ω ν) Unit := do
  let importer ← get
  let world ← Process.expect (call importer.world)
  modify fun importer => { importer with world }

/-- `from_hex`. -/
def fromHex (hex : String) : Process (Importer ω ν) Bytes :=
  Process.expect (host.hexDecode (strip0x hex))

/-- The code of an account, if it has one. -/
def importCode (address : Address) : Option String → Process (Importer ω ν) Unit
  | none => pure ()
  | some code => do
    let bytes ← fromHex host code
    update fun world => host.initCode world address bytes
    checkCommit host options

/-- One storage item of an account. -/
def importSlot (address : Address) (slot : String × String) : Process (Importer ω ν) Unit := do
  let key ← Process.expect (host.h256FromStr (strip0x slot.1))
  let value ← Process.expect (host.h256FromStr (strip0x slot.2))
  update fun world => host.setStorage world address key value
  checkCommit host options

/-- The body of the loop over the accounts. -/
def importAccount (item : Item) : Process (Importer ω ν) Unit := do
  let address ← Process.expect (host.addressFromStr (strip0x item.1))
  let balance ← Process.expect (host.u256FromStr (strip0x item.2.balance))
  let nonce ← Process.expect (host.u256FromStr (strip0x item.2.nonce))
  update fun world => some (host.newContract world address balance nonce 0)
  checkCommit host options
  importCode host options address item.2.code
  (item.2.storage.getD []).forM (importSlot host options address)

/-- The loop over the accounts, for a number of rounds: whether the iterator came to its end. -/
def importAccounts (json : SerdeJson) : Nat → StateParser → Process (Importer ω ν) Bool
  | 0, _ => pure false
  | rounds + 1, parser => do
    let (item, parser) ← Process.ofOutcome (parser.next json)
    match item with
    | none => pure true
    | some item => do
      importAccount host options item
      importAccounts json rounds parser

/-- The end of `main`: the last commit, and the genesis file. -/
def finish : Process (Importer ω ν) (Option RuntimeGenesis) := do
  commit host options
  let importer ← get
  let stateRoot ← Process.expect (host.finalRoot importer.world)
  return some ⟨stateRoot, 0⟩

/-- `main`, from a fresh tree on, for a number of rounds of its loop; nothing is returned when they
do not suffice. -/
def playback (json : SerdeJson) (rounds : Nat) (exported : Bytes) :
    Process (Importer ω ν) (Option RuntimeGenesis) := do
  update host.ensureDbGood
  update host.fromExisting
  let parser ← Process.ofOutcome (StateParser.new exported)
  let through ← importAccounts host options json rounds parser
  if through then finish host options else pure none

end Program

section Instructions

variable {ω ν : Type} (host : ImportHost ω ν) (options : ImportOptions)

/-- The call that carries out an operation. -/
def ImportHost.perform (world : ω) : Operation → Option ω
  | .newContract address balance nonce expiry =>
    some (host.newContract world address balance nonce expiry)
  | .initCode address code => host.initCode world address code
  | .setStorage address key value => host.setStorage world address key value

/-- Read an operation, carry it out, and commit when it is time. -/
def step (instruction : Option Operation) : Process (Importer ω ν) Unit := do
  let operation ← Process.expect instruction
  update fun world => host.perform world operation
  checkCommit host options

/-- The creation of an account, or `None` where its text cannot be read. -/
def contractInstruction (address : Address) (account : ExportedAccount) : Option Operation :=
  (host.u256FromStr (strip0x account.balance)).bind fun balance =>
    (host.u256FromStr (strip0x account.nonce)).map fun nonce =>
      .newContract address balance nonce 0

/-- The code of an account, if it can be read. -/
def codeInstruction (address : Address) (code : String) : Option Operation :=
  (host.hexDecode (strip0x code)).map fun bytes => .initCode address bytes

/-- A storage item of an account, if it can be read. -/
def slotInstruction (address : Address) (slot : String × String) : Option Operation :=
  (host.h256FromStr (strip0x slot.1)).bind fun key =>
    (host.h256FromStr (strip0x slot.2)).map fun value => .setStorage address key value

/-- The operations of an account, with `None` where its text cannot be read. -/
def instructions (item : Item) : List (Option Operation) :=
  match host.addressFromStr (strip0x item.1) with
  | none => [none]
  | some address =>
    contractInstruction host address item.2 ::
      (item.2.code.toList.map (codeInstruction host address) ++
        (item.2.storage.getD []).map (slotInstruction host address))

variable {host options}

theorem importCode_eq (address : Address) (code : Option String) :
    importCode host options address code =
      forM code.toList fun code => step host options (codeInstruction host address code) := by
  cases code with
  | none => rfl
  | some code =>
    simp only [importCode, fromHex, codeInstruction, Option.toList_some, List.forM_cons,
      List.forM_nil]
    cases host.hexDecode (strip0x code) with
    | none => rfl
    | some bytes => simp [step, ImportHost.perform]

theorem importSlot_eq (address : Address) :
    importSlot host options address =
      fun slot => step host options (slotInstruction host address slot) := by
  funext slot
  simp only [importSlot, slotInstruction]
  cases host.h256FromStr (strip0x slot.1) with
  | none => rfl
  | some key =>
    cases host.h256FromStr (strip0x slot.2) with
    | none => rfl
    | some value => rfl

/-- Importing an account is carrying out its instructions one by one. -/
theorem importAccount_eq (item : Item) :
    importAccount host options item = forM (instructions host item) (step host options) := by
  unfold importAccount instructions
  cases host.addressFromStr (strip0x item.1) with
  | none => rfl
  | some address =>
    have created : ∀ rest : Process (Importer ω ν) Unit,
        (do
          let balance ← Process.expect (host.u256FromStr (strip0x item.2.balance))
          let nonce ← Process.expect (host.u256FromStr (strip0x item.2.nonce))
          update fun world => some (host.newContract world address balance nonce 0)
          checkCommit host options
          rest) =
        (do
          step host options (contractInstruction host address item.2)
          rest) := by
      intro rest
      unfold contractInstruction
      cases host.u256FromStr (strip0x item.2.balance) with
      | none => rfl
      | some balance =>
        cases host.u256FromStr (strip0x item.2.nonce) with
        | none => rfl
        | some nonce => simp [step, ImportHost.perform]
    simp only [Process.expect_some, pure_bind, List.forM_cons, List.forM_append, List.forM_map,
      List.forM_eq_forM, ← importCode_eq, ← importSlot_eq]
    exact created _

end Instructions

section Requests

variable {ω ν : Type} {host : ImportHost ω ν} {options : ImportOptions}

/-- The requests lead from the empty root to the last one, each from where the one before ended,
and the node took them in this order. -/
structure Linked (host : ImportHost ω ν) (options : ImportOptions) (node : ν)
    (importer : Importer ω ν) : Prop where
  roots : importer.pushed.map (·.srcRoot) ++ [importer.root] =
    host.emptyHash :: importer.pushed.map (·.dstRoot)
  taken : importer.pushed.foldlM host.storageApply node = some importer.node
  addressed : ∀ request ∈ importer.pushed,
    request.runtimeId = options.runtimeId ∧ request.srcRound = 0 ∧ request.dstRound = 0

/-- A commit goes on from the last root, or changes nothing about the requests. -/
theorem keeps_commit (node : ν) : (commit host options).Keeps (Linked host options node) := by
  intro importer linked
  simp only [commit, Process.exec_bind, Process.exec_get]
  cases host.commitState importer.world with
  | none => exact linked
  | some stored =>
    simp only [Process.expect_some, Process.exec_pure, Process.exec_modify]
    cases host.commitTree stored with
    | none => exact ⟨linked.roots, linked.taken, linked.addressed⟩
    | some answer =>
      obtain ⟨writeLog, stateRoot, world⟩ := answer
      simp only [Process.expect_some, Process.exec_pure]
      cases applies : host.storageApply importer.node
          (commitRequest options importer.root stateRoot writeLog) with
      | none => exact ⟨linked.roots, linked.taken, linked.addressed⟩
      | some next =>
        refine ⟨?_, ?_, ?_⟩
        · have roots := congrArg (· ++ [stateRoot]) linked.roots
          simpa [commitRequest] using roots
        · simp [List.foldlM_append, linked.taken, applies]
        · intro request member
          rcases List.mem_append.mp member with earlier | last
          · exact linked.addressed request earlier
          · rw [List.mem_singleton.mp last]
            exact ⟨rfl, rfl, rfl⟩

theorem keeps_update (node : ν) (call : ω → Option ω) :
    (update call).Keeps (Linked host options node) := by
  refine Process.keeps_bind Process.keeps_get fun importer => ?_
  refine Process.keeps_bind (Process.keeps_expect _) fun world => ?_
  exact Process.keeps_modify fun importer linked =>
    ⟨linked.roots, linked.taken, linked.addressed⟩

theorem keeps_checkCommit (node : ν) :
    (checkCommit host options).Keeps (Linked host options node) := by
  refine Process.keeps_bind (Process.keeps_modify fun importer linked =>
    ⟨linked.roots, linked.taken, linked.addressed⟩) fun _ => ?_
  refine Process.keeps_bind Process.keeps_get fun importer => ?_
  split
  · exact Process.keeps_bind (keeps_commit node) fun _ => Process.keeps_modify
      fun importer linked => ⟨linked.roots, linked.taken, linked.addressed⟩
  · exact Process.keeps_pure _

theorem keeps_importAccount (node : ν) (item : Item) :
    (importAccount host options item).Keeps (Linked host options node) := by
  rw [importAccount_eq]
  refine Process.keeps_forM (fun instruction => ?_) _
  refine Process.keeps_bind (Process.keeps_expect _) fun operation => ?_
  exact Process.keeps_bind (keeps_update node _) fun _ => keeps_checkCommit node

theorem keeps_importAccounts (node : ν) (json : SerdeJson) (rounds : Nat) (parser : StateParser) :
    (importAccounts host options json rounds parser).Keeps (Linked host options node) := by
  induction rounds generalizing parser with
  | zero => exact Process.keeps_pure _
  | succ rounds ih =>
    refine Process.keeps_bind (Process.keeps_ofOutcome _) fun answer => ?_
    obtain ⟨item, parser⟩ := answer
    cases item with
    | none => exact Process.keeps_pure _
    | some item => exact Process.keeps_bind (keeps_importAccount node item) fun _ => ih parser

/-- The requests of an import are linked. Whatever the input and the crates do, and whether the
program finishes or panics, the requests that the node took lead from the empty root to the last
root of the program, each from where the one before ended. -/
theorem playback_requests_linked (host : ImportHost ω ν) (options : ImportOptions)
    (json : SerdeJson) (rounds : Nat) (exported : Bytes) (world : ω) (node : ν) :
    Linked host options node
      ((playback host options json rounds exported).exec (.start host world node)).2 := by
  have start : Linked host options node (.start host world node) :=
    ⟨rfl, rfl, fun request member => by cases member⟩
  refine Process.keeps_bind (keeps_update node _) (fun _ => ?_) _ start
  refine Process.keeps_bind (keeps_update node _) fun _ => ?_
  refine Process.keeps_bind (Process.keeps_ofOutcome _) fun parser => ?_
  refine Process.keeps_bind (keeps_importAccounts node json rounds parser) fun through => ?_
  split
  · refine Process.keeps_bind (keeps_commit node) fun _ => ?_
    refine Process.keeps_bind Process.keeps_get fun importer => ?_
    exact Process.keeps_bind (Process.keeps_expect _) fun _ => Process.keeps_pure _
  · exact Process.keeps_pure _

end Requests

end Ethwasi.Genesis
