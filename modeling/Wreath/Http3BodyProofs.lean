import Wreath.HttpHeadProofs
import Wreath.TableProofs
import Wreath.StepSystemProofs

/-! # HTTP/3 request bodies — delivery and connection credit

`http3_asgi.c` hands DATA payload to the application through a parked future or a buffer, and
gives connection credit back when a buffer is taken. The queue counters are right in every
run; payload dropped with its stream gives no credit back (`credit_conserved`,
`credit_lost`), and payload for a receive that was cancelled is lost (`body_exact`,
`body_lost`). -/

namespace Http3Body

open ByteScan HttpHead KeyedTable StepSystem List

structure Endpoint where
  maxBodyChunks : Nat
  maxBodyBytes : Nat
  readHighWater : Nat
  readHighWaterMessages : Nat

/-- The future of a receive: awaited, or given up and still registered. -/
inductive Waiter where
  | waiting
  | cancelled
  deriving Repr, DecidableEq

/-- A request stream that is attached to the connection. The last three fields are its history:
    whether the peer has ended it, the payload, and what the receives that were not cancelled
    returned, each with `more_body`. -/
structure Stream where
  contentLength : Option Nat := none
  bodyReceived : Nat := 0
  bodyFrames : Nat := 0
  bodyBuffer : Bytes := []
  receiveWaiter : Option Waiter := none
  requestEnded : Bool := false
  requestRefused : Bool := false
  disconnected : Bool := false
  peerEnded : Bool := false
  payload : Bytes := []
  returned : List (Bytes × Bool) := []
  deriving Repr, DecidableEq

/-- A stream whose header is complete. -/
def Stream.new (contentLength : Option Nat) (fin : Bool) : Stream where
  contentLength := contentLength
  requestEnded := fin
  peerEnded := fin

/-- The connection's counters, and the DATA bytes that were given back
    through `ngtcp2_conn_extend_max_offset`. -/
structure Credit where
  queuedBodyBytes : Int := 0
  queuedBodyMessages : Nat := 0
  extended : Nat := 0
  deriving Repr, DecidableEq

variable (q : Credit) (e : Endpoint)

/-- A buffer of this size leaves the counters. -/
def Credit.unqueue (size : Nat) : Credit :=
  { q with
    queuedBodyBytes := q.queuedBodyBytes - size
    queuedBodyMessages := if 0 < size then q.queuedBodyMessages - 1 else q.queuedBodyMessages }

variable (s : Stream)

/-- `h3_take_buffered_body`. -/
def takeBufferedBody : Credit × Stream :=
  ({ q.unqueue s.bodyBuffer.length with extended := q.extended + s.bodyBuffer.length },
    { s with bodyBuffer := [] })

/-- A receive returns. -/
def Stream.answer (message : Bytes × Bool) : Stream :=
  { s with returned := s.returned ++ [message] }

/-- The registered future gets its result; one that is cancelled raises and the result is gone. -/
def Stream.setResult (message : Bytes × Bool) : Stream :=
  match s.receiveWaiter with
  | none => s
  | some .waiting => Stream.answer { s with receiveWaiter := none } message
  | some .cancelled => { s with receiveWaiter := none }

/-- `h3_stream_receive`. -/
def receive : Credit × Stream :=
  if s.disconnected then (q, s)
  else if s.bodyBuffer ≠ [] then
    ((takeBufferedBody q s).1, (takeBufferedBody q s).2.answer (s.bodyBuffer, !s.requestEnded))
  else if s.requestEnded then (q, s.answer ([], false))
  else (q, { s with receiveWaiter := some .waiting })

/-- `h3_reject_stream`. -/
def rejectStream : Credit × Stream :=
  (q.unqueue s.bodyBuffer.length, { s with
    bodyBuffer := [], requestEnded := true, disconnected := true, receiveWaiter := none })

/-- `h3_refuse_unstarted_request`, where no response was started. -/
def refuse : Credit × Stream :=
  (q.unqueue s.bodyBuffer.length, { s with
    bodyBuffer := [], requestEnded := true, requestRefused := true, receiveWaiter := none })

/-- The body is longer with this payload than its length or a limit allows. -/
def oversized (data : Bytes) : Bool :=
  pySsizeTMax < s.bodyReceived + data.length
    || s.contentLength.any (· < s.bodyReceived + data.length)
    || (0 < e.maxBodyBytes && e.maxBodyBytes < s.bodyReceived + data.length)

/-- The payload would pass a high-water mark of the connection. -/
def crowded (q : Credit) (s : Stream) (data : Bytes) : Bool :=
  (e.readHighWater - q.queuedBodyBytes < data.length)
    || (s.bodyBuffer.isEmpty && !data.isEmpty && e.readHighWaterMessages ≤ q.queuedBodyMessages)

/-- The payload joins the buffer. -/
def queueBody (data : Bytes) : Credit × Stream :=
  (if data = [] then q else { q with
      queuedBodyBytes := q.queuedBodyBytes + data.length
      queuedBodyMessages := q.queuedBodyMessages + if s.bodyBuffer = [] then 1 else 0 },
    { s with
      bodyFrames := s.bodyFrames + 1
      bodyReceived := s.bodyReceived + data.length
      bodyBuffer := s.bodyBuffer ++ data })

/-- A buffer is taken for a registered future. -/
def handOver : Credit × Stream :=
  if s.receiveWaiter = none then (q, s)
  else ((takeBufferedBody q s).1, (takeBufferedBody q s).2.setResult (s.bodyBuffer, true))

/-- `recv_data_cb`; what was received is stored before the marks are looked at. -/
def recvDataCb (data : Bytes) (q : Credit) (s : Stream) : Credit × Stream :=
  if s.disconnected || s.requestRefused then (q, s)
  else if e.maxBodyChunks ≤ s.bodyFrames then rejectStream q s
  else if oversized e s data then rejectStream q { s with bodyFrames := s.bodyFrames + 1 }
  else if crowded e q s data then rejectStream q { s with
      bodyFrames := s.bodyFrames + 1, bodyReceived := s.bodyReceived + data.length }
  else handOver (queueBody q s data).1 (queueBody q s data).2

/-- `end_stream_cb`. -/
def endStreamCb : Credit × Stream :=
  if s.contentLength.any (· ≠ s.bodyReceived) then rejectStream q s
  else (q, Stream.setResult { s with requestEnded := true } ([], false))

/-- A callback on a stream, or a call of its application. -/
inductive Act where
  | data (payload : Bytes)
  | endStream
  | receive
  | cancel
  | reject
  | refuse
  deriving Repr, DecidableEq

def act (q : Credit) (s : Stream) : Act → Credit × Stream
  | .data payload => recvDataCb e payload q { s with payload := s.payload ++ payload }
  | .endStream => endStreamCb q { s with peerEnded := true }
  | .receive => receive q s
  | .cancel => (q, { s with receiveWaiter := s.receiveWaiter.map fun _ => .cancelled })
  | .reject => rejectStream q s
  | .refuse => refuse q s

/-- The DATA payload that is handed over. -/
def Act.payload : Act → Bytes
  | .data payload => payload
  | _ => []

/-- nghttp3 reports it, or the application does it. -/
def Act.possible : Act → Bool
  | .data _ | .endStream => !s.peerEnded
  | _ => true

structure Conn where
  streams : Table Nat Stream := ∅
  credit : Credit := {}
  handed : Nat := 0

inductive Event where
  | headers (id : Nat) (contentLength : Option Nat) (fin : Bool)
  | act (id : Nat) (a : Act)
  | close (id : Nat)
  deriving Repr, DecidableEq

/-- One event; `none` is an event that nghttp3 does not report. -/
def step (c : Conn) : Event → Option Conn
  | .headers id contentLength fin =>
    match c.streams.lookup id with
    | some _ => none
    | none => some { c with streams := c.streams.insert id (.new contentLength fin) }
  | .act id a =>
    match c.streams.lookup id with
    | none => some { c with handed := c.handed + a.payload.length }
    | some s =>
      if a.possible s then
        some ⟨c.streams.insert id (act e c.credit s a).2, (act e c.credit s a).1,
          c.handed + a.payload.length⟩
      else none
  | .close id =>
    -- `wreath_h3_stream_disconnect`, and the stream leaves the dictionary
    match c.streams.lookup id with
    | none => some c
    | some s => some { c with
        credit := c.credit.unqueue s.bodyBuffer.length, streams := c.streams.erase id }

variable {e : Endpoint} {data : Bytes} {q : Credit} {s s' : Stream} {c c' : Conn} {id : Nat}
  {ev : Event} {a : Act}

/-! ## The queue counters and the credit -/

/-- What a stream counts as in `queued_body_messages`. -/
def Stream.message (s : Stream) : Nat := if s.bodyBuffer = [] then 0 else 1

/-- The counters move with the stream's buffer. -/
structure Balanced (q : Credit) (s : Stream) (r : Credit × Stream) : Prop where
  bytes : r.1.queuedBodyBytes + s.bodyBuffer.length = q.queuedBodyBytes + r.2.bodyBuffer.length
  messages : s.message ≤ q.queuedBodyMessages →
    r.1.queuedBodyMessages + s.message = q.queuedBodyMessages + r.2.message

theorem Balanced.refl (hbuffer : s'.bodyBuffer = s.bodyBuffer) : Balanced q s (q, s') := by
  constructor
  · rw [hbuffer]
  · intro _
    rw [Stream.message, Stream.message, hbuffer]

theorem Balanced.trans {r r' : Credit × Stream} (h : Balanced q s r)
    (h' : Balanced r.1 r.2 r') : Balanced q s r' := by
  have hbytes := h.bytes
  have hbytes' := h'.bytes
  refine ⟨by omega, fun hle => ?_⟩
  have hmsgs := h.messages hle
  have hmsgs' := h'.messages (by omega)
  omega

theorem unqueue_balanced (hbuffer : s'.bodyBuffer = []) (n : Nat) :
    Balanced q s ({ q.unqueue s.bodyBuffer.length with extended := n }, s') := by
  constructor
  · show q.queuedBodyBytes - (s.bodyBuffer.length : Int) + _ = _
    rw [hbuffer, length_nil]
    omega
  · intro hle
    rw [Stream.message] at hle ⊢
    rw [Stream.message, if_pos hbuffer]
    show (if 0 < s.bodyBuffer.length then _ else _) + _ = _
    simp only [length_pos_iff]
    split <;> simp_all

theorem queueBody_balanced : Balanced q s (queueBody q s data) := by
  rw [queueBody]
  by_cases hdata : data = []
  · rw [if_pos hdata, hdata, append_nil]
    exact .refl rfl
  · rw [if_neg hdata]
    constructor
    · show q.queuedBodyBytes + data.length + _ = q.queuedBodyBytes + ((_ ++ _ : Bytes).length : Int)
      rw [length_append]
      omega
    · intro _
      simp only [Stream.message, append_eq_nil_iff, hdata, and_false, if_false]
      split <;> rfl

/-- What a stream holds of the credit: it was given back, or it is buffered. -/
def held (r : Credit × Stream) : Nat := r.1.extended + r.2.bodyBuffer.length

theorem held_queueBody : held (queueBody q s data) = held (q, s) + data.length := by
  rw [held, queueBody, length_append]
  split <;> exact (Nat.add_assoc ..).symm

@[simp] theorem setResult_buffer (s : Stream) (message : Bytes × Bool) :
    (s.setResult message).bodyBuffer = s.bodyBuffer := by
  rw [Stream.setResult]
  split <;> rfl

theorem handOver_balanced : Balanced q s (handOver q s) ∧ held (handOver q s) = held (q, s) := by
  rw [handOver]
  split
  · exact ⟨.refl rfl, rfl⟩
  · refine ⟨unqueue_balanced (setResult_buffer ..) _, ?_⟩
    rw [held, setResult_buffer]
    rfl

/-- The payload is buffered or handed over. -/
def accepts (e : Endpoint) (q : Credit) (s : Stream) (data : Bytes) : Bool :=
  !(s.disconnected || s.requestRefused) && s.bodyFrames < e.maxBodyChunks
    && !oversized e s data && !crowded e q s data

/-- Nothing is dropped: DATA is accepted, and a stream that is given up has an empty buffer. -/
def lossless (e : Endpoint) (q : Credit) (s : Stream) : Act → Bool
  | .data payload => accepts e q s payload
  | .endStream => !s.contentLength.any (· ≠ s.bodyReceived) || s.bodyBuffer.isEmpty
  | .reject | .refuse => s.bodyBuffer.isEmpty
  | .receive | .cancel => true

/-- **ONE ACT** keeps the counters, and the credit where nothing is dropped. -/
theorem act_balanced : Balanced q s (act e q s a)
    ∧ (lossless e q s a = true → held (act e q s a) = held (q, s) + a.payload.length) := by
  have hdropped : ∀ {s'}, s'.bodyBuffer = [] → Balanced q s (q.unqueue s.bodyBuffer.length, s')
      ∧ (s.bodyBuffer = [] → held (q.unqueue s.bodyBuffer.length, s') = held (q, s)) :=
    fun h => ⟨unqueue_balanced h _, fun hnil => by rw [held, held, h, hnil]; rfl⟩
  cases a with
  | data payload =>
    have hsize : ∀ p, oversized e { s with payload := p } payload = oversized e s payload :=
      fun _ => rfl
    have hcrowd : ∀ p, crowded e q { s with payload := p } payload = crowded e q s payload :=
      fun _ => rfl
    rw [act, recvDataCb, hsize, hcrowd]
    split
    · exact ⟨.refl rfl, fun h => by simp_all [lossless, accepts]⟩
    split
    · rename_i hframes
      refine ⟨unqueue_balanced rfl _, fun h => ?_⟩
      simp only [lossless, accepts, Bool.and_eq_true, decide_eq_true_iff] at h
      exact absurd hframes h.1.1.2.not_ge
    split
    · exact ⟨unqueue_balanced rfl _, fun h => by simp_all [lossless, accepts]⟩
    split
    · exact ⟨unqueue_balanced rfl _, fun h => by simp_all [lossless, accepts]⟩
    · have hqueue : Balanced q { s with payload := s.payload ++ payload } (queueBody _ _ payload) :=
        queueBody_balanced
      refine ⟨Balanced.trans ⟨hqueue.bytes, hqueue.messages⟩ handOver_balanced.1, fun _ => ?_⟩
      exact handOver_balanced.2.trans held_queueBody
  | endStream =>
    rw [act, endStreamCb, lossless]
    split
    · refine ⟨unqueue_balanced rfl _, fun h => (hdropped rfl).2 ?_⟩
      simp_all
    · exact ⟨.refl (setResult_buffer ..), fun _ => by rw [held, setResult_buffer]; rfl⟩
  | receive =>
    rw [act, receive]
    split
    · exact ⟨.refl rfl, fun _ => rfl⟩
    split
    · exact ⟨unqueue_balanced rfl _, fun _ => rfl⟩
    split <;> exact ⟨.refl rfl, fun _ => rfl⟩
  | cancel => exact ⟨.refl rfl, fun _ => rfl⟩
  | reject | refuse => exact ⟨(hdropped rfl).1, fun h => (hdropped rfl).2 (isEmpty_iff.mp h)⟩

def Lossless (e : Endpoint) (c : Conn) : Event → Prop
  | .headers .. => True
  | .act id a => (c.streams.lookup id).elim a.payload.isEmpty (lossless e c.credit · a) = true
  | .close id => (c.streams.lookup id).all (·.bodyBuffer.isEmpty) = true

instance (e : Endpoint) (c : Conn) : (ev : Event) → Decidable (Lossless e c ev)
  | .headers .. => isTrue trivial
  | .act .. | .close _ => inferInstanceAs (Decidable (_ = true))

/-- **THE QUEUE**: the counters are the totals over the attached streams. -/
structure Queued (c : Conn) : Prop where
  bytes : c.credit.queuedBodyBytes = weight c.streams fun s => s.bodyBuffer.length
  messages : c.credit.queuedBodyMessages = weight c.streams Stream.message

/-- The peer's DATA is given back or buffered. -/
def Kept (c : Conn) : Prop :=
  c.handed = c.credit.extended + weight c.streams fun s => s.bodyBuffer.length

/-- **ONE STEP** keeps the counters, and the credit where nothing is dropped. -/
theorem Queued.step (h : Queued c) (hstep : step e c ev = some c') :
    Queued c' ∧ (Lossless e c ev → Kept c → Kept c') := by
  obtain ⟨hbytes, hmsgs⟩ := h
  rw [Kept, Kept]
  revert hstep
  fun_cases Http3Body.step e c ev with
  | case2 id contentLength fin hnone =>
    rintro ⟨⟩
    have hinsert := fun f => weight_insert c.streams id (.new contentLength fin) f
    simp only [hnone, Option.elim] at hinsert
    have hsize := (hinsert fun s => s.bodyBuffer.length).symm
    exact ⟨⟨hbytes.trans (congrArg _ hsize), hmsgs.trans (hinsert Stream.message).symm⟩,
      fun _ hkept => hkept.trans (congrArg _ hsize)⟩
  | case3 id a hnone =>
    rintro ⟨⟩
    refine ⟨⟨hbytes, hmsgs⟩, fun hlossless hkept => ?_⟩
    rw [Lossless, hnone] at hlossless
    rw [isEmpty_iff.mp hlossless]
    exact hkept
  | case4 id a s hs =>
    rintro ⟨⟩
    obtain ⟨⟨hb, hm⟩, hsent⟩ := act_balanced (e := e) (q := c.credit) (s := s) (a := a)
    have hm := hm (hmsgs ▸ le_weight hs Stream.message)
    have hinsert := fun f => weight_insert c.streams id (act e c.credit s a).2 f
    simp only [hs, Option.elim] at hinsert
    have hsize := hinsert fun s => s.bodyBuffer.length
    have hcount := hinsert Stream.message
    dsimp only at hsize ⊢
    refine ⟨⟨by dsimp only; omega, by dsimp only; omega⟩, fun hlossless hkept => ?_⟩
    rw [Lossless, hs] at hlossless
    have hsent := hsent hlossless
    simp only [held] at hsent
    omega
  | case6 =>
    rintro ⟨⟩
    exact ⟨⟨hbytes, hmsgs⟩, fun _ hkept => hkept⟩
  | case7 id s hs =>
    rintro ⟨⟩
    obtain ⟨hb, hm⟩ : Balanced c.credit s (_, {}) := unqueue_balanced rfl 0
    have hm : _ = _ + 0 := hm (hmsgs ▸ le_weight hs Stream.message)
    have hb : _ = _ + ((0 : Nat) : Int) := hb
    have herase := fun f => weight_erase c.streams id f
    simp only [hs, Option.elim] at herase
    have hsize := herase fun s => s.bodyBuffer.length
    have hcount := herase Stream.message
    dsimp only at hb hm hsize ⊢
    refine ⟨⟨by dsimp only; omega, by dsimp only; omega⟩, fun hlossless hkept => ?_⟩
    rw [Lossless, hs] at hlossless
    rw [isEmpty_iff.mp hlossless] at hsize
    exact hkept.trans (congrArg _ hsize.symm)
  | _ => rintro ⟨⟩

def Conserved (c : Conn) : Prop := Queued c ∧ Kept c

/-- **CREDIT**: while no payload is dropped, what the peer sent and did not
    get back is what is queued, and that is the total of the buffers. -/
theorem credit_conserved (e : Endpoint) {events : List Event} {c : Conn}
    (hrun : exec (guarded (Lossless e) (step e)) {} events = some c) :
    (c.handed : Int) - c.credit.extended = c.credit.queuedBodyBytes
      ∧ c.credit.queuedBodyBytes = weight c.streams (fun s => s.bodyBuffer.length)
      ∧ c.credit.queuedBodyMessages = weight c.streams Stream.message := by
  have hstart : Conserved {} := ⟨⟨rfl, rfl⟩, show _ = _ from rfl⟩
  have hinv : Conserved c := exec_guarded_invariant
    (fun _ _ _ h hg hs => ⟨(h.1.step hs).1, (h.1.step hs).2 hg h.2⟩) hstart hrun
  obtain ⟨⟨hbytes, hmessages⟩, hkept⟩ := hinv
  rw [Kept] at hkept
  exact ⟨by omega, hbytes, hmessages⟩

/-- An endpoint that accepts one frame a body. -/
def oneFrame : Endpoint := ⟨1, 0, 100, 10⟩

/-- **CREDIT IS LOST** with a stream that is rejected for its second frame. -/
theorem credit_lost : (exec (step oneFrame) {} [.headers 0 none false,
      .act 0 (.data [7]), .act 0 (.data [8])]).map
      (fun c => (c.handed, c.credit)) = some (2, ⟨0, 0, 0⟩) := by
  decide

/-- A body that is read gives its credit back. -/
theorem credit_read : ∃ c, exec (guarded (Lossless oneFrame) (step oneFrame)) {}
      [.headers 0 none false, .act 0 (.data [7]), .act 0 .receive] = some c
    ∧ (c.handed : Int) - c.credit.extended = c.credit.queuedBodyBytes := by
  refine run_ends Conn.handed 1 (by decide) fun c hrun _ => ?_
  exact (credit_conserved oneFrame hrun).1

/-! ## The high-water marks -/

/-- The counters keep to the marks. -/
structure Credit.Below (e : Endpoint) (q : Credit) : Prop where
  bytes : q.queuedBodyBytes ≤ e.readHighWater
  messages : q.queuedBodyMessages ≤ e.readHighWaterMessages

theorem Credit.Below.unqueue (h : q.Below e) (size n : Nat) :
    Credit.Below e { q.unqueue size with extended := n } := by
  obtain ⟨hbytes, hmessages⟩ := h
  rw [Credit.unqueue]
  exact ⟨by dsimp only; omega, by dsimp only; split <;> omega⟩

/-- A payload that passes no mark has room. -/
theorem Credit.Below.queueBody (h : q.Below e) (hroom : ¬crowded e q s data) :
    (queueBody q s data).1.Below e := by
  have hbytes := h.bytes
  simp only [crowded, Bool.or_eq_true, not_or, decide_eq_true_iff, not_lt] at hroom
  obtain ⟨hmark, hnew⟩ := hroom
  rw [Http3Body.queueBody]
  split_ifs
  · exact h
  · exact ⟨by dsimp only; omega, by grind⟩
  · exact ⟨by dsimp only; omega, h.messages⟩

theorem act_below (h : q.Below e) : (act e q s a).1.Below e := by
  cases a with
  | data payload =>
    rw [act, recvDataCb, handOver]
    split_ifs with _ _ _ hroom
    · exact h
    · exact h.unqueue _ _
    · exact h.unqueue _ _
    · exact h.unqueue _ _
    · exact h.queueBody hroom
    · exact (h.queueBody hroom).unqueue _ _
  | endStream =>
    rw [act, endStreamCb]
    split_ifs
    · exact h.unqueue _ _
    · exact h
  | receive =>
    rw [act, receive]
    split_ifs
    · exact h
    · exact h.unqueue _ _
    · exact h
    · exact h
  | cancel => exact h
  | reject | refuse => exact h.unqueue _ _

theorem Credit.Below.step (h : c.credit.Below e) (hstep : step e c ev = some c') :
    c'.credit.Below e := by
  revert hstep
  fun_cases Http3Body.step e c ev with
  | case1 | case5 => rintro ⟨⟩
  | case4 => rintro ⟨⟩; exact act_below h
  | case7 => rintro ⟨⟩; exact h.unqueue _ _
  | _ => rintro ⟨⟩; exact h

/-- **BUFFERS BOUNDED**: in every run the buffered bodies of a connection keep together to
    the two high-water marks. -/
theorem buffers_bounded {events : List Event} (hrun : exec (step e) {} events = some c) :
    weight c.streams (fun s => s.bodyBuffer.length) ≤ e.readHighWater
      ∧ weight c.streams Stream.message ≤ e.readHighWaterMessages := by
  have hqueued : Queued c :=
    exec_invariant (fun _ _ _ h hs => (Queued.step h hs).1) events ⟨rfl, rfl⟩ hrun
  have hmarks : c.credit.Below e := exec_invariant (fun _ _ _ h hs => Credit.Below.step h hs)
    events ⟨Int.natCast_nonneg _, Nat.zero_le _⟩ hrun
  exact ⟨Int.ofNat_le.mp (hqueued.bytes ▸ hmarks.bytes), hqueued.messages ▸ hmarks.messages⟩

/-- The first stream reaches both marks, and the second is rejected. -/
theorem buffers_bounded_frame : ∃ c, exec (step ⟨9, 0, 2, 1⟩) {} [.headers 0 none false,
      .act 0 (.data [7, 8]), .headers 4 none false, .act 4 (.data [9])] = some c
    ∧ (c.handed, c.credit) = (3, ⟨2, 1, 0⟩)
    ∧ weight c.streams (fun s => s.bodyBuffer.length) ≤ 2
    ∧ weight c.streams Stream.message ≤ 1 := by
  refine run_ends (fun c => (c.handed, c.credit)) _ (by decide) fun c hrun hc => ⟨hc, ?_⟩
  exact buffers_bounded hrun

/-! ## Delivery -/

/-- What the receives that were not cancelled returned. -/
def Stream.delivered (s : Stream) : Bytes := (s.returned.map Prod.fst).flatten

/-- **EXACT**: nothing is lost or repeated, and a receive waits for a reason. -/
structure Exact (s : Stream) : Prop where
  body : s.delivered ++ s.bodyBuffer = s.payload
  last : ∀ b, (b, false) ∈ s.returned → s.requestEnded = true ∧ s.bodyBuffer = []
  parked : s.receiveWaiter ≠ none → s.bodyBuffer = [] ∧ s.requestEnded = false
  ended : s.requestEnded = true → s.peerEnded = true

/-- Receives are made one at a time, and no payload arrives for one that was cancelled. -/
def awaited (s : Stream) : Act → Bool
  | .receive => s.receiveWaiter ≠ some .waiting
  | .data payload => payload.isEmpty || s.receiveWaiter ≠ some .cancelled
  | _ => true

/-- The stream was rejected or refused. -/
def Stream.shut (s : Stream) : Bool := s.disconnected || s.requestRefused

theorem Exact.receive (h : Exact s) : Exact (receive q s).2 := by
  obtain ⟨hbody, hlast, hparked, hended⟩ := h
  rw [Http3Body.receive]
  split
  · exact ⟨hbody, hlast, hparked, hended⟩
  split
  · constructor <;> simp_all [Stream.answer, Stream.delivered, takeBufferedBody]
  split
  · constructor <;> simp_all [Stream.answer, Stream.delivered]
  · constructor <;> simp_all [Stream.delivered]

/-- The payload is buffered, or handed to the registered future. -/
theorem Exact.arrives (h : Exact s) (hopen : s.peerEnded = false)
    (hawaited : awaited s (.data data) = true) :
    Exact (handOver (queueBody q { s with payload := s.payload ++ data } data).1
      (queueBody q { s with payload := s.payload ++ data } data).2).2 := by
  obtain ⟨hbody, hlast, hparked, hended⟩ := h
  rw [handOver]
  split
  · refine ⟨?_, ?_, ?_, hended⟩
    · exact (append_assoc ..).symm.trans (congrArg (· ++ data) hbody)
    · simp_all [queueBody]
    · simp_all [queueBody]
  · cases hwaiter : s.receiveWaiter with
    | none => simp_all [queueBody]
    | some w =>
      cases w with
      | waiting =>
        constructor <;> simp_all [queueBody, takeBufferedBody, Stream.setResult, Stream.answer,
          Stream.delivered]
      | cancelled =>
        constructor <;> simp_all [queueBody, takeBufferedBody, Stream.setResult, awaited,
          Stream.delivered]

theorem Exact.endStream (h : Exact s) : Exact
    (Stream.setResult { s with peerEnded := true, requestEnded := true } ([], false)) := by
  obtain ⟨hbody, hlast, hparked, hended⟩ := h
  rw [Stream.setResult]
  split
  · exact ⟨hbody, fun b hb => ⟨rfl, (hlast b hb).2⟩, fun hp => absurd ‹_› hp, fun _ => rfl⟩
  · constructor <;> simp_all [Stream.answer, Stream.delivered]
  · constructor <;> simp_all [Stream.delivered]

theorem setResult_shut (s : Stream) (message : Bytes × Bool) :
    (s.setResult message).shut = s.shut := by
  rw [Stream.setResult]
  split <;> rfl

/-- **ONE ACT** on a stream that stays neither rejected nor refused. -/
theorem Exact.act (h : s.shut = false → Exact s) (hpossible : a.possible s = true)
    (hawaited : awaited s a = true) (hopen : (act e q s a).2.shut = false) :
    Exact (act e q s a).2 := by
  cases a with
  | data data =>
    rw [Http3Body.act, recvDataCb] at hopen ⊢
    split at hopen
    · rename_i hshut
      exact absurd (hopen.symm.trans hshut) Bool.false_ne_true
    rename_i hshut
    rw [if_neg hshut]
    split at hopen
    · cases hopen
    rename_i hframes
    rw [if_neg hframes]
    split at hopen
    · cases hopen
    rename_i hsize
    rw [if_neg hsize]
    split at hopen
    · cases hopen
    rename_i hroom
    rw [if_neg hroom]
    exact (h (Bool.not_eq_true _ ▸ hshut)).arrives (Bool.not_eq_true' _ ▸ hpossible) hawaited
  | endStream =>
    rw [Http3Body.act, endStreamCb] at hopen ⊢
    split at hopen
    · cases hopen
    rename_i hlen
    rw [if_neg hlen]
    have hshut := setResult_shut { s with peerEnded := true, requestEnded := true } ([], false)
    exact (h (hshut.symm.trans hopen)).endStream
  | receive =>
    refine Exact.receive (h ?_)
    rw [Http3Body.act, Http3Body.receive] at hopen
    split at hopen
    · exact hopen
    split at hopen
    · exact hopen
    split at hopen <;> exact hopen
  | cancel =>
    obtain ⟨hbody, hlast, hparked, hended⟩ := h hopen
    refine ⟨hbody, hlast, fun hp => hparked fun hnone => hp ?_, hended⟩
    show s.receiveWaiter.map _ = none
    rw [hnone]
    rfl
  | reject => cases hopen
  | refuse => exact absurd (hopen.symm.trans (Bool.or_true _)) Bool.false_ne_true

/-- Every stream that is neither rejected nor refused is exact. -/
def Delivering (c : Conn) : Prop := ∀ id s, c.streams.lookup id = some s → s.shut = false → Exact s

def Awaited (c : Conn) : Event → Prop
  | .act id a => (c.streams.lookup id).all (awaited · a) = true
  | _ => True

instance (c : Conn) : (ev : Event) → Decidable (Awaited c ev)
  | .act .. => inferInstanceAs (Decidable (_ = true))
  | .headers .. | .close _ => isTrue trivial

theorem Delivering.step (h : Delivering c) (hawaited : Awaited c ev)
    (hstep : step e c ev = some c') : Delivering c' := by
  intro id s hs hopen
  revert hstep
  fun_cases Http3Body.step e c ev with
  | case2 =>
    rintro ⟨⟩
    rcases insert_cases hs with rfl | hs
    · exact ⟨rfl, fun _ hb => absurd hb not_mem_nil, fun hp => absurd rfl hp, fun h => h⟩
    · exact h _ s hs hopen
  | case3 | case6 =>
    rintro ⟨⟩
    exact h _ s hs hopen
  | case4 id a t ht hpossible =>
    rintro ⟨⟩
    rcases insert_cases hs with rfl | hs
    · rw [Awaited, ht] at hawaited
      exact Exact.act (h _ t ht) hpossible hawaited hopen
    · exact h _ s hs hopen
  | case7 =>
    rintro ⟨⟩
    exact h _ s (erase_cases hs) hopen
  | _ => rintro ⟨⟩

/-- **BODIES ARE EXACT**: what the receives returned and the buffer are the
    payload so far, a receive that reports the end has the whole of it, and
    none waits over a buffer or an ended request. -/
theorem body_exact (e : Endpoint) {events : List Event} {c : Conn} {id : Nat} {s : Stream}
    (hrun : exec (guarded Awaited (step e)) {} events = some c) (hs : c.streams.lookup id = some s)
    (hrejected : s.disconnected = false) (hrefused : s.requestRefused = false) :
    (s.returned.map Prod.fst).flatten ++ s.bodyBuffer = s.payload
      ∧ ((∃ b, (b, false) ∈ s.returned) →
        s.peerEnded = true ∧ (s.returned.map Prod.fst).flatten = s.payload)
      ∧ (s.receiveWaiter = some .waiting → s.bodyBuffer = [] ∧ s.requestEnded = false) := by
  have hstart : Delivering {} := by
    intro id s hs
    cases (show none = some s from hs)
  have hdelivering : Delivering c := exec_guarded_invariant
    (fun _ _ _ h hg hs => h.step hg hs) hstart hrun
  have hexact := hdelivering id s hs (by rw [Stream.shut, hrejected, hrefused]; rfl)
  refine ⟨hexact.body, fun ⟨b, hb⟩ => ?_, fun hw => hexact.parked (by rw [hw]; exact nofun)⟩
  obtain ⟨hended, hbuffer⟩ := hexact.last b hb
  exact ⟨hexact.ended hended, by rw [← hexact.body, hbuffer, append_nil]; rfl⟩

/-- Two frames, one for a receive that waits and one that is buffered. -/
theorem body_read : ∃ c s, exec (guarded Awaited (step ⟨9, 0, 100, 10⟩)) {}
      [.headers 0 none false, .act 0 .receive, .act 0 (.data [7]), .act 0 (.data [8])] = some c
    ∧ c.streams.lookup 0 = some s
    ∧ (s.returned.map Prod.fst).flatten ++ s.bodyBuffer = s.payload := by
  refine runs_end (fun _ s => (s.disconnected, s.requestRefused)) (false, false) (by decide)
    fun c s hrun hs hflags => ?_
  obtain ⟨hrejected, hrefused⟩ := Prod.mk.inj hflags
  exact (body_exact _ hrun hs hrejected hrefused).1

/-- **PAYLOAD IS LOST** that arrives for a receive that was cancelled. -/
theorem body_lost : ((exec (step ⟨9, 0, 100, 10⟩) {} [.headers 0 none false,
      .act 0 .receive, .act 0 .cancel, .act 0 (.data [7])]).bind (·.streams.lookup 0)).map
      (fun s => (s.shut, s.payload, s.returned, s.bodyBuffer)) = some (false, [7], [], []) := by
  decide

end Http3Body
