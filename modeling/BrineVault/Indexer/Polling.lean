import BrineVault.Lib.Json
import BrineVault.Indexer.Handlers

/-!
# The loop of the indexer

`Indexer.start` as a machine that waits, at each await, for what the node, a handler, the database or the clock does next. The process may
die at any of them and be started again. A handler is known by how its calls settle.
-/

namespace BrineVault

namespace Sui

/-- The id of an event, as the node writes it. -/
structure EventId where
  txDigest : String
  eventSeq : String
  deriving DecidableEq, Repr

/-- An event, as the loop sees it. -/
structure Event where
  id : EventId
  type : String
  deriving DecidableEq, Repr

/-- The events of the package, in the order of the chain. -/
structure Chain where
  events : List Event
  nodup : (events.map (·.id)).Nodup

structure PollResult where
  events : List Event
  nextCursor : Option EventId
  hasNextPage : Bool
  deriving DecidableEq, Repr

end Sui

/-! ## The cursor -/

/-- What the loop holds as its cursor. The cast `as EventId` checks nothing: `other` is a value that is no id. -/
inductive Cursor
  | null
  | after (id : Sui.EventId)
  | other
  deriving DecidableEq, Repr

def Cursor.ofJson (value : Json.Value) : Cursor :=
  match value with
  | .null => .null
  | _ =>
    match (value.member "txDigest".toList).bind (·.asString), (value.member "eventSeq".toList).bind (·.asString) with
    | some txDigest, some eventSeq => .after ⟨String.ofList txDigest, String.ofList eventSeq⟩
    | _, _ => .other

/-- `JSON.stringify` of an id. -/
def Sui.EventId.stringify (id : Sui.EventId) : String :=
  String.ofList (Json.stringify [("txDigest".toList, id.txDigest.toList), ("eventSeq".toList, id.eventSeq.toList)])

/-- The row of `indexer_checkpoints` under the id of the manager. -/
structure CheckpointRow where
  chainId : String
  lastCursor : Option String
  lastTxDigest : Option String
  lastEventSeq : Int
  deriving DecidableEq, Repr

namespace CursorManager

/-- No row, no text, the empty text and a text that is no JSON are all null. -/
def loadCursor (checkpoint : Option CheckpointRow) : Cursor :=
  match checkpoint.bind (·.lastCursor) with
  | none => .null
  | some lastCursor =>
    if lastCursor = "" then .null
    else
      match Json.parse lastCursor.toList with
      | some value => .ofJson value
      | none => .null

/-- The chain id of a row that is there stays. -/
def saveCursor (chainId : String) (checkpoint : Option CheckpointRow) (cursor : Sui.EventId) (txDigest : String) (eventSeq : Int) :
    CheckpointRow :=
  { chainId := (checkpoint.map (·.chainId)).getD chainId
    lastCursor := some cursor.stringify
    lastTxDigest := some txDigest
    lastEventSeq := eventSeq }

end CursorManager

/-! ## The node -/

/-- The events up to the one with the id, and the events after it. -/
def Sui.splitAfter (id : Sui.EventId) : List Sui.Event → Option (List Sui.Event × List Sui.Event)
  | [] => none
  | e :: es => if e.id = id then some ([e], es) else (Sui.splitAfter id es).map fun parts => (e :: parts.1, parts.2)

/-- The events at or before a cursor, and those after it. A value that is no id of the chain is nowhere in it. -/
def Sui.Chain.split (chain : Sui.Chain) : Cursor → Option (List Sui.Event × List Sui.Event)
  | .null => some ([], chain.events)
  | .after id => Sui.splitAfter id chain.events
  | .other => none

/-- An answer to `poll(cursor)`: some of the events right after the cursor, and the id of the last one of them, or none. -/
def Sui.Chain.Answers (chain : Sui.Chain) (cursor : Cursor) (result : Sui.PollResult) : Prop :=
  (∃ parts ∈ chain.split cursor, result.events <+: parts.2) ∧
    ∀ next ∈ result.nextCursor, ∀ last ∈ result.events.getLast?, last.id = next

instance (chain : Sui.Chain) (cursor : Cursor) (result : Sui.PollResult) : Decidable (chain.Answers cursor result) :=
  inferInstanceAs (Decidable (_ ∧ ∀ next ∈ result.nextCursor, ∀ last ∈ result.events.getLast?, last.id = next))

/-! ## The loop -/

/-- White space and line ends, which `BigInt` trims. -/
def isStrWhiteSpace (c : Char) : Bool :=
  (9 ≤ c.toNat ∧ c.toNat ≤ 13) ∨ (0x2000 ≤ c.toNat ∧ c.toNat ≤ 0x200a) ∨
    c.toNat ∈ [0x20, 0xa0, 0x1680, 0x2028, 0x2029, 0x202f, 0x205f, 0x3000, 0xfeff]

def digitsIn (base : Nat) (text : List Char) : Option Int :=
  if text = [] then none
  else text.foldlM (fun n c => (Json.hexValue c).bind fun d => if d < base then some (n * base + d) else none) 0

/-- `BigInt(text)`: none where it throws. -/
def bigInt (text : String) : Option Int :=
  match ((text.toList.dropWhile isStrWhiteSpace).reverse.dropWhile isStrWhiteSpace).reverse with
  | [] => some 0
  | ['0'] => some 0
  | '0' :: c :: digits =>
    if c = 'x' ∨ c = 'X' then digitsIn 16 digits
    else if c = 'o' ∨ c = 'O' then digitsIn 8 digits
    else if c = 'b' ∨ c = 'B' then digitsIn 2 digits
    else digitsIn 10 (c :: digits)
  | '-' :: digits => (digitsIn 10 digits).map fun n => -n
  | '+' :: digits => digitsIn 10 digits
  | digits => digitsIn 10 digits

/-- How a call of a handler settles: it returns, or throws an error, here by what `String(err)` gives. -/
inductive Settlement
  | returned
  | threw (err : String)
  deriving DecidableEq, Repr

/-- How `processBatch` recognises a duplicate. -/
def isDuplicate (err : String) : Bool := includes err "unique" || includes err "duplicate"

/-- The handler has returned, or has failed with what counts as a duplicate. -/
def Settlement.Accepted : Settlement → Prop
  | .returned => True
  | .threw err => isDuplicate err = true

instance (o : Settlement) : Decidable o.Accepted :=
  match o with
  | .returned => isTrue trivial
  | .threw err => inferInstanceAs (Decidable (isDuplicate err = true))

/-- A call of the handler for the type of an event, that has settled. -/
structure HandlerCall where
  event : Sui.Event
  outcome : Settlement
  deriving DecidableEq, Repr

/-- Where `start` waits. -/
inductive Control
  /-- For the row that `loadCursor` reads. -/
  | loading
  | polling (cursor : Cursor)
  /-- For the handler of the event, the batch being processed up to it. -/
  | handling (cursor : Cursor) (result : Sui.PollResult) (event : Sui.Event) (rest : List Sui.Event)
  | saving (cursor : Cursor) (result : Sui.PollResult) (nextCursor : Sui.EventId) (lastEvent : Sui.Event) (eventSeq : Int)
  | sleeping (cursor : Cursor)
  /-- The loop is over, or has been left by an exception. -/
  | ended
  deriving DecidableEq, Repr

/-- The process and its row. The calls of handlers are counted over all its lives. -/
structure Indexer where
  checkpoint : Option CheckpointRow
  running : Bool
  control : Control
  calls : List HandlerCall
  deriving DecidableEq, Repr

namespace Indexer

/-- A process that is started for the first time, without a checkpoint. -/
def start : Indexer := { checkpoint := none, running := true, control := .loading, calls := [] }

/-- `while (this.running)`. -/
def loopHead (cursor : Cursor) (st : Indexer) : Indexer :=
  { st with control := if st.running then .polling cursor else .ended }

/-- The end of a turn of the loop. -/
def endTurn (cursor : Cursor) (hasNextPage : Bool) (st : Indexer) : Indexer :=
  if hasNextPage then st.loopHead cursor else { st with control := .sleeping cursor }

/-- After the batch. The sequence number of its last event may still be one that `BigInt` refuses. -/
def afterBatch (cursor : Cursor) (result : Sui.PollResult) (st : Indexer) : Indexer :=
  match result.nextCursor, result.events.getLast? with
  | some nextCursor, some lastEvent =>
    match bigInt lastEvent.id.eventSeq with
    | some eventSeq => { st with control := .saving cursor result nextCursor lastEvent eventSeq }
    | none => { st with control := .sleeping cursor }
  | _, _ => st.endTurn cursor result.hasNextPage

/-- `processBatch`, from an event on, up to the next call of a handler. An unknown type is skipped; the context of a call needs the
sequence number of the event. -/
def processBatch (handlerMap : String → Bool) (cursor : Cursor) (result : Sui.PollResult) : List Sui.Event → Indexer → Indexer
  | [], st => st.afterBatch cursor result
  | event :: rest, st =>
    if handlerMap event.type then
      if (bigInt event.id.eventSeq).isSome then { st with control := .handling cursor result event rest }
      else { st with control := .sleeping cursor }
    else processBatch handlerMap cursor result rest st

/-- What happens next. -/
inductive Input
  | loaded
  | loadFailed
  | polled (result : Sui.PollResult)
  | pollFailed
  | settled (outcome : Settlement)
  | saved
  /-- The write fails for the process, whether the database has made it or not. -/
  | saveFailed (written : Bool)
  | woken
  | stop
  /-- The process dies, and is started again. -/
  | crash
  /-- Something else writes a row whose cursor is no id of an event. -/
  | damaged (checkpoint : Option CheckpointRow)
  deriving DecidableEq, Repr

variable (chain : Sui.Chain) (handlerMap : String → Bool) (chainId : String)

def step (st : Indexer) : Input → Except Unit Indexer
  | .stop => .ok { st with running := false }
  | .crash => .ok { st with running := true, control := .loading }
  | .damaged checkpoint =>
    if CursorManager.loadCursor checkpoint = .null ∨ CursorManager.loadCursor checkpoint = .other then .ok { st with checkpoint }
    else .error ()
  | input =>
    match st.control, input with
    | .loading, .loaded => .ok (st.loopHead (CursorManager.loadCursor st.checkpoint))
    | .loading, .loadFailed => .ok { st with control := .ended }
    | .polling cursor, .polled result =>
      if chain.Answers cursor result then
        if result.events = [] then .ok (st.endTurn cursor result.hasNextPage)
        else .ok (st.processBatch handlerMap cursor result result.events)
      else .error ()
    | .polling cursor, .pollFailed => .ok { st with control := .sleeping cursor }
    | .handling cursor result event rest, .settled outcome =>
      let st : Indexer := { st with calls := st.calls ++ [⟨event, outcome⟩] }
      if outcome.Accepted then .ok (st.processBatch handlerMap cursor result rest)
      else .ok { st with control := .sleeping cursor }
    | .saving _ result nextCursor lastEvent eventSeq, .saved =>
      .ok ({ st with
        checkpoint := some (CursorManager.saveCursor chainId st.checkpoint nextCursor lastEvent.id.txDigest eventSeq) }.endTurn
          (.after nextCursor) result.hasNextPage)
    | .saving cursor _ nextCursor lastEvent eventSeq, .saveFailed written =>
      .ok { st with
        checkpoint :=
          if written then some (CursorManager.saveCursor chainId st.checkpoint nextCursor lastEvent.id.txDigest eventSeq)
          else st.checkpoint
        control := .sleeping cursor }
    | .sleeping cursor, .woken => .ok (st.loopHead cursor)
    | _, _ => .error ()

end Indexer

end BrineVault
