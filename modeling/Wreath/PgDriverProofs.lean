import Wreath.TableProofs
import Wreath.PgMessageProofs

/-! # The PostgreSQL driver — one connection, its queues and its parser

A submitted operation waits, is emitted with the next flush, and is completed by the
`ReadyForQuery` that ends its answer: by the native parser, inside the socket read, or by the
reader task, which takes what the parser left to it one event-loop turn later. Both pop the
same `_emitted` queue. Operations are kept by number, and the queues hold the numbers. A
caller's cancellation is two events: the future is cancelled, and its task runs
`_cancel_operation` when it is resumed. -/

namespace PgDriver

open ByteScan PgMessage

/-! ## Transaction control by its first word -/

/-- The characters `str.lstrip` removes. -/
def pySpace (c : Char) : Bool :=
  let n := c.toNat
  (9 ≤ n && n ≤ 13) || (28 ≤ n && n ≤ 32) || n == 0x85 || n == 0xa0
    || n == 0x1680 || (0x2000 ≤ n && n ≤ 0x200a) || n == 0x2028 || n == 0x2029
    || n == 0x202f || n == 0x205f || n == 0x3000

/-- `str.upper` of a character, as far as it gives letters of the English alphabet. -/
def pyUpper (c : Char) : List Char :=
  match c.toNat with
  | 0x131 => ['I']
  | 0x17f => ['S']
  | 0xdf => ['S', 'S']
  | 0xfb00 => ['F', 'F']
  | 0xfb01 => ['F', 'I']
  | 0xfb02 => ['F', 'L']
  | 0xfb03 => ['F', 'F', 'I']
  | 0xfb04 => ['F', 'F', 'L']
  | 0xfb05 => ['S', 'T']
  | 0xfb06 => ['S', 'T']
  | _ => [c.toUpper]

/-- `ascii_space`. -/
def asciiSpace (c : Char) : Bool :=
  let n := c.toNat
  (9 ≤ n && n ≤ 13) || n == 32

def transactionKeywords : List (List Char) :=
  ["BEGIN".toList, "START".toList, "COMMIT".toList, "ROLLBACK".toList,
    "SAVEPOINT".toList, "RELEASE".toList]

/-- The first word, up to the next space. -/
def firstWord (space : Char → Bool) (sql : List Char) : List Char :=
  (sql.dropWhile space).takeWhile fun c => !space c

/-- `is_transaction_sql`: a byte scan for ASCII text, and `str` methods for the rest. -/
def isTransactionSql (sql : String) : Bool :=
  if sql.toList.all fun c => decide (c.toNat < 128) then
    transactionKeywords.contains ((firstWord asciiSpace sql.toList).map Char.toUpper)
  else
    transactionKeywords.contains ((firstWord pySpace sql.toList).flatMap pyUpper)

/-! ## Operations -/

inductive Mode where
  | execute
  | fetch
  | fetchBatch
  | fetchrow
  | fetchval
  deriving Repr, DecidableEq

inductive OpState where
  | waiting
  | emitted
  | completed
  | cancelled
  deriving Repr, DecidableEq

/-- What an operation gives its caller; a row stands for its decoding. -/
inductive Value where
  | command (tag : Bytes)
  | rows (rows : List Bytes)
  | row (row : Option Bytes)
  | value (row : Option Bytes)
  deriving Repr, DecidableEq

inductive Future where
  | pending
  | cancelled
  | result (value : Value)
  | error (payload : Bytes)
  /-- the connection failed -/
  | lost
  deriving Repr, DecidableEq

/-- The messages of a packet; a statement name is its number. -/
inductive Frontend where
  | close (name : Nat)
  | parse (name : Nat)
  | describe (name : Nat)
  | bind (name : Nat)
  | describePortal
  | execute
  | sync
  deriving Repr, DecidableEq

/-- `_build_cold_query_packet`. -/
def coldPacket (name : Nat) (mode : Mode) : List Frontend :=
  [.parse name, .describe name, .bind name] ++ (if mode = .execute then [] else [.describePortal])
    ++ [.execute, .sync]

/-- `_build_cached_query_packet`. -/
def cachedPacket (name : Nat) : List Frontend := [.bind name, .execute, .sync]

/-- The size of a `Close` for the statement `wreath_<name>`. -/
def closeSize (name : Nat) : Nat := 1 + 4 + 1 + ("wreath_" ++ toString name).length + 1

structure Operation where
  sql : String
  mode : Mode
  cold : Bool
  name : Nat
  packet : List Frontend
  size : Nat
  state : OpState
  future : Future
  discarded : Bool
  /-- the number of result columns -/
  columns : Nat
  /-- a decoder plan and a field tape are there -/
  tape : Bool
  rows : List Bytes
  command : Bytes
  error : Option Bytes
  deriving Repr, DecidableEq

/-- A prepared statement and the number of its result columns. -/
structure Plan where
  name : Nat
  columns : Nat
  deriving Repr, DecidableEq

/-- `WreathPgOperationContext`: what the parser keeps of an operation. -/
structure Context where
  op : Nat
  tape : Bool
  sampled : Bool
  discarded : Bool
  deriving Repr, DecidableEq

/-! ## The connection -/

structure Limits where
  maxQueued : Nat
  maxEmitted : Nat
  maxOutbound : Nat
  cache : Kv.Bounds
  /-- `_plan_retained_bytes` -/
  planCost : String → Plan → Nat
  /-- the backend gave its process id and its key -/
  backendKey : Bool

/-- The connection, its protocol object, and the history of both. -/
structure Conn where
  ops : Nat → Operation
  sequence : Nat
  statementId : Nat
  plans : Kv.Table String Plan
  pendingCloses : List Nat
  waiting : List Nat
  waitingLive : Nat
  emitted : List Nat
  status : UInt8
  barrier : Bool
  flushHandle : Bool
  writeBlocked : Bool
  /-- the transport is closed -/
  closed : Bool
  /-- by an exception of the parser, which the driver has not noticed yet -/
  aborted : Bool
  -- the protocol object: the ring of operations and the messages it left
  ring : List Context
  headDirect : Bool
  messages : List Message
  -- history: operations in the order of emission and of completion, all
  -- that was written, and the answers of the backend by position
  log : List Nat
  finished : List Nat
  sent : List Frontend
  served : Nat
  answers : Nat → List Message

/-- `"I"`, the idle status. -/
def idle : UInt8 := ch 'I'

def Operation.blank : Operation where
  sql := ""
  mode := .execute
  cold := true
  name := 0
  packet := []
  size := 0
  state := .waiting
  future := .pending
  discarded := false
  columns := 0
  tape := false
  rows := []
  command := []
  error := none

def Conn.fresh : Conn where
  ops _ := .blank
  sequence := 0
  statementId := 0
  plans := .empty
  pendingCloses := []
  waiting := []
  waitingLive := 0
  emitted := []
  status := idle
  barrier := false
  flushHandle := false
  writeBlocked := false
  closed := false
  aborted := false
  ring := []
  headDirect := true
  messages := []
  log := []
  finished := []
  sent := []
  served := 0
  answers _ := []

variable (lim : Limits) (c : Conn) (o : Operation) (payload : Bytes)

/-- The connection with one operation changed. -/
def Conn.modify (id : Nat) (f : Operation → Operation) : Conn :=
  { c with ops := fun i => if i = id then f (c.ops i) else c.ops i }

/-- Operations submitted and not completed. -/
def Conn.outstanding : Nat := c.waitingLive + c.emitted.length

/-- `_closed`. -/
def Conn.over : Bool := c.closed && !c.aborted

/-- An exception leaves the parser: the transport closes, and the reader still has what is
    queued. -/
def Conn.abort : Conn := { c with closed := true, aborted := true }

/-- `_fail_connection` with `_resolve_pending`. -/
def failConnection : Conn :=
  if c.over then c
  else
    { c with
      closed := true
      aborted := false
      flushHandle := false
      ops := fun i =>
        if (i ∈ c.waiting ∨ i ∈ c.emitted) ∧ (c.ops i).future = .pending then
          { c.ops i with future := .lost }
        else c.ops i
      waiting := []
      waitingLive := 0
      emitted := [] }

/-! ## Completion -/

/-- The value an operation's mode asks for. -/
def Operation.value (o : Operation) : Value :=
  match o.mode with
  | .execute => .command o.command
  | .fetch => .rows o.rows
  | .fetchBatch => .rows o.rows
  | .fetchrow => .row o.rows.head?
  | .fetchval => .value o.rows.head?

/-- `publish_completed` for one operation. -/
def Operation.publish : Operation :=
  if o.future ≠ .pending ∨ o.discarded then o
  else
    match o.error with
    | some payload => { o with future := .error payload }
    | none => { o with future := .result o.value }

/-- The plan of a cold operation is kept, and what it displaced has to be closed on the wire. -/
def keepPlan : Kv.Table String Plan × List Nat :=
  if o.cold ∧ o.error = none then
    let plan : Plan := ⟨o.name, o.columns⟩
    let stored := Kv.set lim.cache c.plans o.sql plan (lim.planCost o.sql plan)
    let taken := Kv.takeEvicted stored
    (taken.2, c.pendingCloses ++ taken.1.map fun p => p.2.name)
  else (c.plans, c.pendingCloses)

def Operation.finish : Operation := { o with state := OpState.completed }.publish

/-- `finish_operation`. -/
def finishOperation (id : Nat) : Conn :=
  { c.modify id Operation.finish with
    plans := (keepPlan lim c (c.ops id)).1
    pendingCloses := (keepPlan lim c (c.ops id)).2
    barrier := c.barrier && !isTransactionSql (c.ops id).sql
    finished := c.finished ++ [id] }

/-- A flush is scheduled when operations wait and none is. -/
def wakeFlush : Conn :=
  if 0 < c.waitingLive ∧ c.flushHandle = false then
    { c with flushHandle := true }
  else c

/-! ## Submission -/

inductive Refusal where
  | closed
  | empty
  | inTransaction
  | transactionControl
  | full
  | build
  | oversize
  deriving Repr, DecidableEq

/-- A submission: `size` is that of the packet without `Close` messages, and `none` when the
    builder raises; `blocked` is whether the write of an immediate flush has to wait. -/
structure Request where
  sql : String
  mode : Mode
  size : Option Nat
  blocked : Bool
  deriving Repr, DecidableEq

/-- `submit_preflight`. -/
def preflight (sql : String) : Option Refusal :=
  if c.over then some .closed
  else if sql = "" then some .empty
  else if (c.status ≠ idle ∨ c.barrier) ∧ c.outstanding ≠ 0 then
    some .inTransaction
  else if isTransactionSql sql ∧ c.outstanding ≠ 0 then
    some .transactionControl
  else if lim.maxQueued ≤ c.outstanding then some .full
  else none

/-- The names an emitted operation still uses. -/
def inFlight : List Nat := c.emitted.map fun id => (c.ops id).name

/-- `_closes_prefix`: the names to close now, and those to keep. -/
def closesPrefix : List Nat × List Nat :=
  let used := inFlight c
  (c.pendingCloses.filter fun n => !used.contains n,
    c.pendingCloses.filter fun n => used.contains n)

/-- A new operation, with the plan of its text if there is one. -/
def Operation.new (r : Request) (plan : Option Plan) (name : Nat) : Operation :=
  match plan with
  | none =>
    { blank with
      sql := r.sql, mode := r.mode, cold := true, name,
      packet := coldPacket name r.mode }
  | some p =>
    { blank with
      sql := r.sql, mode := r.mode, cold := false, name := p.name,
      packet := cachedPacket p.name, columns := p.columns,
      tape := decide (p.columns ≠ 0) }

def Operation.withCloses (closes : List Nat) (size : Nat) : Operation := { o with
    packet := closes.map Frontend.close ++ o.packet
    size := (closes.map closeSize).sum + size }

/-! ## Flushing -/

/-- An operation goes out: it is registered with the parser and its packet is written. -/
def emit (id : Nat) : Conn :=
  let o := c.ops id
  { c.modify id fun o => { o with state := .emitted } with
    emitted := c.emitted ++ [id]
    ring := c.ring ++ [⟨id, o.tape, false, false⟩]
    headDirect := c.headDirect || c.ring.isEmpty
    sent := c.sent ++ o.packet
    log := c.log ++ [id] }

/-- `flush_collect` over the waiting queue; `batch` is the size of what was taken so far,
    and `taken` their number. -/
def collect (lim : Limits) (available : Nat) : List Nat → Nat → Nat → Conn → Conn × Nat
  | [], _, taken, c => ({ c with waiting := [] }, taken)
  | id :: rest, batch, taken, c =>
    let o := c.ops id
    if available ≤ taken then ({ c with waiting := id :: rest }, taken)
    else if o.state = .cancelled then collect lim available rest batch taken c
    else if 0 < taken ∧ lim.maxOutbound < batch + o.size then
      ({ c with waiting := id :: rest }, taken)
    else
      let c := { c with waitingLive := c.waitingLive - 1 }
      if o.future = .cancelled then
        collect lim available rest batch taken (c.modify id fun o => { o with state := .cancelled })
      else
        collect lim available rest (batch + o.size) (taken + 1) (emit c id)

/-- `do_flush`. -/
def flush (blocked : Bool) : Conn :=
  let c := { c with flushHandle := false }
  if c.over ∨ c.writeBlocked ∨ c.waitingLive = 0 then c
  else if lim.maxEmitted ≤ c.emitted.length then c
  else
    let result := collect lim (lim.maxEmitted - c.emitted.length) c.waiting 0 0 c
    let c := result.1
    let c := if 0 < result.2 then { c with writeBlocked := blocked } else c
    if 0 < c.waitingLive ∧ c.emitted.length < lim.maxEmitted then
      { c with flushHandle := true }
    else c

/-- The plan of the text is looked up, and a new operation numbered; a text without a plan
    takes a new statement name. -/
def Conn.consult (sql : String) : Conn :=
  let found := Kv.get c.plans sql
  { c with
    sequence := c.sequence + 1
    plans := found.2
    statementId := if found.1.isNone then c.statementId + 1 else c.statementId }

/-- The `Close` messages are taken off the list of the pending ones. -/
def Conn.takeCloses : Conn := { c with pendingCloses := (closesPrefix c).2 }

/-- The operation a submission makes. -/
def newOperation (r : Request) (size : Nat) : Operation :=
  (Operation.new r (Kv.get c.plans r.sql).1 (c.statementId + 1)).withCloses (closesPrefix c).1 size

/-- The operation joins the waiting ones, behind its barrier. -/
def Conn.hold (id : Nat) (o : Operation) : Conn := { c.modify id fun _ => o with
    waiting := c.waiting ++ [id]
    waitingLive := c.waitingLive + 1
    barrier := c.barrier || isTransactionSql o.sql }

/-- `submit`; it flushes at once when nothing was outstanding. -/
def submit (r : Request) : Conn × Option Refusal :=
  match preflight lim c r.sql with
  | some refusal => (c, some refusal)
  | none =>
    match r.size with
    | none => (c.consult r.sql, some .build)
    | some size =>
      let o := newOperation c r size
      let c' := (c.consult r.sql).takeCloses
      if lim.maxOutbound < o.size then (c', some .oversize)
      else
        let eager := decide (c.waitingLive = 0) && c.emitted.isEmpty && !c.flushHandle
        let c' := c'.hold c.sequence o
        if eager then (flush lim c' r.blocked, none)
        else ({ c' with flushHandle := true }, none)

/-! ## Cancellation -/

/-- A waiting operation is marked, and `_flush` drops it when it reaches the head. -/
def Conn.tombstone (id : Nat) : Conn :=
  { c.modify id fun o => { o with state := .cancelled } with
    waitingLive := c.waitingLive - 1
    barrier := c.barrier && !isTransactionSql (c.ops id).sql }

/-- `_cancel_operation`. Between events the operation the reader works on heads the queue, so one
    test covers both of the source's. The request that cancels the query on the server changes
    nothing here. -/
def cancelOperation (id : Nat) : Conn :=
  let o := c.ops id
  if o.state = .completed ∨ o.state = .cancelled ∨ o.discarded then c
  else if o.state = .waiting then c.tombstone id
  else
    let c := c.modify id fun o => { o with discarded := true }
    if c.emitted.head? = some id ∧ lim.backendKey = false then
      failConnection c
    else c

/-! ## The parser's branches -/

/-- `_parse_parameter_description`: the number of parameters. -/
def parameterDescription : Option Nat :=
  if payload.length < 2 then none
  else
    let count := readUInt (payload.take 2)
    if payload.length = 2 + count * 4 then some count else none

/-- The fields of a row description: a name and 18 bytes each. -/
def descriptionFields : Nat → Bytes → Option Bytes
  | 0, rest => some rest
  | n + 1, rest =>
    let tail := rest.dropWhile (· ≠ 0)
    if tail.length < 19 then none else descriptionFields n (tail.drop 19)

/-- `_parse_row_description`: the number of columns. -/
def rowDescription : Option Nat :=
  if payload.length < 2 then none
  else
    let count := readUInt (payload.take 2)
    match descriptionFields count (payload.drop 2) with
    | some [] => some count
    | _ => none

/-- The text of a command tag, without trailing zeros. -/
def commandTag : Bytes := (payload.reverse.dropWhile (· = 0)).reverse

/-- A new description: columns, and an empty tape when there are any. -/
def Operation.describe (columns : Nat) : Operation :=
  if columns = 0 then { o with columns }
  else
    { o with
      columns, tape := true
      rows := if o.mode = .fetchrow ∨ o.mode = .fetchval then [] else o.rows }

/-- `_tape_data_row`. -/
def Operation.takeRow : Operation :=
  if o.mode = .execute ∨ o.tape = false then o
  else if (o.mode = .fetchrow ∨ o.mode = .fetchval) ∧ o.rows ≠ [] then o
  else { o with rows := o.rows ++ [payload] }

/-- `operations_advance`. -/
def advance : Conn := { c with ring := c.ring.tail, headDirect := true }

/-- Kinds that may come at any time: `A`, `N`, `S`. -/
def asynchronous (kind : UInt8) : Bool := kind == ch 'A' || kind == ch 'N' || kind == ch 'S'

/-- The discarded flag is sampled once per operation. -/
def Context.sample (x : Context) (o : Operation) : Context :=
  if x.sampled then x
  else { x with sampled := true, discarded := o.discarded }

/-- The tests of `direct_data_row` before it reads the row. -/
def rowChoice (x : Context) (o : Operation) : RowUse :=
  if x.discarded then .drop
  else if x.tape = false then .python
  else if o.mode = .execute then .drop
  else if (o.mode = .fetchrow ∨ o.mode = .fetchval) ∧ o.rows ≠ [] then .drop
  else .decode

def rowUse : RowUse × Conn :=
  match c.ring with
  | [] => (.python, c)
  | x :: rest =>
    let sampled := x.sample (c.ops x.op)
    (rowChoice sampled (c.ops x.op), { c with ring := sampled :: rest })

/-- `install_parameter_description`, `install_row_description`. -/
def install (kind : UInt8) (payload : Bytes) : Option Conn :=
  match c.ring with
  | [] => none
  | x :: rest =>
    if kind = ch 't' then (parameterDescription payload).map fun _ => c
    else
      (rowDescription payload).map fun columns =>
        { c.modify x.op fun o => o.describe columns with
          ring := { x with tape := x.tape || decide (columns ≠ 0) } :: rest }

/-- The operation at the head of the ring changes. -/
def Conn.modifyHead (f : Operation → Operation) : Conn :=
  match c.ring with
  | [] => c
  | x :: _ => c.modify x.op f

/-- `wreath_pg_pipeline_complete_cached`, and the ring advances. -/
def completeCached (status : Bytes) : Option (Bool × Conn) :=
  match c.ring with
  | [] => some (false, c)
  | x :: _ =>
    let o := c.ops x.op
    if o.cold ∨ o.discarded ∨ o.error ≠ none then some (false, c)
    else
      match c.emitted with
      | [] => none
      | head :: rest =>
        -- "PostgreSQL native completion lost pipeline order": the head is taken off already
        if head ≠ x.op then some (true, { c with emitted := rest }.abort)
        else
          let c := { c with emitted := rest, status := status.headD 0 }
          let c := finishOperation lim c x.op
          some (true, advance (wakeFlush c))

/-- The message goes to the reader. -/
def queueMessage (kind : UInt8) (payload : Bytes) : Conn :=
  let c := { c with
    headDirect := c.headDirect && asynchronous kind
    messages := c.messages ++ [⟨kind, payload⟩] }
  if kind = ch 'Z' ∧ c.ring ≠ [] then advance c else c

/-- The operations of the connection, as the parser consults them. -/
def operations : Operations Conn where
  busy c := !c.ring.isEmpty
  describes c :=
    match c.ring with
    | [] => false
    | x :: _ => (c.ops x.op).cold
  rowUse := rowUse
  direct c := c.headDirect && !c.ring.isEmpty
  install := install
  command c payload := some (c.modifyHead fun o => { o with command := commandTag payload })
  row c payload := some (c.modifyHead fun o => { o with rows := o.rows ++ [payload] })
  complete := completeCached lim
  queue c kind payload := some (queueMessage c kind payload)

/-! ## The reader task -/

/-- `_consume_message`; `none` is a `ProtocolError`. -/
def consumeMessage (m : Message) : Option Operation :=
  if m.kind = ch 't' then (parameterDescription m.payload).map fun _ => o
  else if m.kind = ch 'T' then
    (rowDescription m.payload).map fun columns => o.describe columns
  else if m.kind = ch 'D' ∧ o.error = none ∧ o.discarded = false then
    some (o.takeRow m.payload)
  else if m.kind = ch 'C' then
    some { o with command := commandTag m.payload }
  else if m.kind = ch 'E' then some { o with error := some m.payload }
  else if asynchronous m.kind ∨ quiet m.kind ∨ m.kind = ch '3' ∨ m.kind = ch 'D' then some o
  else none

/-- The head of `_emitted` is done, and the backend has said its status. -/
def Conn.popEmitted (rest : List Nat) (m : Message) : Conn :=
  { c with emitted := rest, status := m.payload.headD 0 }

/-- One message of `_read_pipeline`. -/
def readMessage (m : Message) : Conn :=
  match c.emitted with
  | [] => if asynchronous m.kind then c else failConnection c
  | id :: rest =>
    if m.kind = ch 'Z' then
      if m.payload.length ≠ 1 then failConnection c
      else
        wakeFlush (finishOperation lim (c.popEmitted rest m) id)
    else
      match consumeMessage (c.ops id) m with
      | none => failConnection c
      | some o => c.modify id fun _ => o

/-! ## Events -/

inductive Event where
  | submit (request : Request)
  /-- the caller's task is cancelled while it waits -/
  | cancel (id : Nat)
  /-- and runs again -/
  | resume (id : Nat)
  /-- the scheduled flush runs -/
  | flush (blocked : Bool)
  /-- a blocked write is done -/
  | drain
  /-- the parser takes the next message -/
  | receive (message : Message)
  /-- the reader takes a message from the queue -/
  | read
  deriving Repr, DecidableEq

/-- The message is the backend's answer to the operation it serves. -/
def Conn.answered (m : Message) : Conn := { c with
    answers := fun k => if k = c.served then c.answers k ++ [m] else c.answers k
    served := if m.kind = ch 'Z' then c.served + 1 else c.served }

/-- One event; `none` where it cannot happen. -/
def step : Event → Option Conn
  | .submit r => some (submit lim c r).1
  | .cancel id =>
    if (id ∈ c.waiting ∨ id ∈ c.emitted) ∧ (c.ops id).future = .pending then
      some (c.modify id fun o => { o with future := .cancelled })
    else none
  | .resume id =>
    if (c.ops id).future = .cancelled then
      some (cancelOperation lim c id)
    else none
  | .flush blocked => if c.flushHandle then some (flush lim c blocked) else none
  | .drain =>
    if c.writeBlocked then
      let c := { c with writeBlocked := false }
      if c.over then some c else some (wakeFlush c)
    else none
  | .receive m =>
    if c.closed then none
    else
      match (operations lim).act c m with
      | none => some (c.answered m).abort
      | some c' => some (c'.answered m)
  | .read =>
    if c.over then none
    else
      match c.messages with
      -- the transport is closed: a `ConnectionError`
      | [] => if c.closed then some (failConnection c) else none
      | m :: rest => some (readMessage lim { c with messages := rest } m)

end PgDriver
