import FiberConn.Llhttp
import FiberConn.Receiver
import FiberConn.Transmitter

set_option autoImplicit false

/-! # `APIconnection` (`request_connection_type.h`)

One outgoing HTTP connection: connect, send a request, receive the response. A send that finishes
goes straight on to receiving: it rearms the socket for reading instead of untracking it, and the
callback is the one that `sendRequest` was given. -/

namespace FiberConn

inductive ApiConnectionState
  | idle
  | connecting
  | sending
  | receiving
deriving DecidableEq, Repr

structure APIconnection (L : Llhttp) where
  socket : ℤ
  state : ApiConnectionState
  parent : String
  isError : Bool
  errorDescription : String
  isRequestComplete : Bool
  response : HttpResponse
  parser : L.State
  recvBuffer : RecvBuffer
  sentBytes : ℕ
  sendBuffer : Bytes

/-- A data callback: `append` to its field. There is no `on_method` or `on_url` here. -/
def HttpResponse.append (r : HttpResponse) (bs : Bytes) : SpanKind → HttpResponse
  | .version => { r with version := r.version ++ bs }
  | .status => { r with status := r.status ++ bs }
  | .headerField => { r with key := r.key ++ bs }
  | .headerValue => { r with value := r.value ++ bs }
  | .body => { r with body := r.body ++ bs }
  | .method => r
  | .url => r

/-- `on_header_value_complete`. -/
def HttpResponse.endHeader (r : HttpResponse) : HttpResponse :=
  { r with headers := r.headers.insert r.key r.value, key := [], value := [] }

namespace APIconnection

variable {L : Llhttp}

/-- The constructor. `socket` is not initialised: it starts as whatever the memory held. The last
    line compares `state` with `API_IDLE`, which it has been set to, and does nothing. -/
def new (parent : String) (memory : ℤ) : APIconnection L where
  socket := memory
  state := .idle
  parent := if parent = "" then "#" else parent
  isError := false
  errorDescription := ""
  isRequestComplete := false
  response := .empty
  parser := L.init
  recvBuffer := .cleared
  sentBytes := 0
  sendBuffer := []

/-- `on_reset`. The buffer it clears is the one llhttp is parsing. -/
def onReset (c : APIconnection L) : APIconnection L :=
  { c with
    isError := false
    isRequestComplete := false
    response := .empty
    recvBuffer := .cleared }

/-- The callbacks without data; `on_message_begin` and `on_headers_complete` do nothing. -/
def onNotice (c : APIconnection L) : Notice → APIconnection L
  | .headerValueComplete => { c with response := c.response.endHeader }
  | .messageComplete => { c with isRequestComplete := true }
  | .messageBegin => c
  | .headersComplete => c

/-- `settings`. -/
def settings : Settings (APIconnection L) where
  buffer c := c.recvBuffer.bytes
  span c kind bs := { c with response := c.response.append bs kind }
  notice := onNotice
  reset := onReset

/-- `llhttp_execute(this->parser, recvBuffer, read_bytes)`, after `recv` has written `chunk`. -/
def execute (c : APIconnection L) (chunk : Chunk) : APIconnection L :=
  let r := L.execute settings c.parser { c with recvBuffer := c.recvBuffer.write chunk }
    chunk.bytes.length
  { r.2 with parser := r.1 }

/-- `is_error` with its description, and back to `API_IDLE`. -/
def fail (c : APIconnection L) (description : String) : APIconnection L :=
  { c with isError := true, errorDescription := description, state := .idle }

/-- The `recv` loop of the `API_RECEIVING` branch. -/
def receiver : Receiver (APIconnection L) where
  socket := socket
  execute := execute
  parseFailed c := L.isError c.parser
  complete c := c.isRequestComplete
  clear c := { c with recvBuffer := .cleared }
  fail := fail
  finish c := { c with state := .idle }

/-- `connectApi`; `sockfd` is what `createConnection` returns. -/
def connectApi (c : APIconnection L) (sockfd : ℤ) : APIconnection L × List Effect :=
  if sockfd = -1 then
    ({ c with socket := sockfd, isError := true, errorDescription := "can not create connection" },
      [.callback])
  else
    ({ c with socket := sockfd, state := .connecting }, [.addTrack sockfd writeMask .helperSock])

/-- `sendRequest`. -/
def sendRequest (c : APIconnection L) : APIconnection L × List Effect :=
  ({ c with state := .sending }, [.addTrack c.socket writeMask .helperSock])

/-- The `send` loop of the `API_SENDING` branch. When everything is sent the loop goes on, with
    nothing left to send. Past the end of the list `send` would block. -/
def transmit (c : APIconnection L) : List SendResult → APIconnection L × List Effect
  | [] => (c, [.send (c.sendBuffer.drop c.sentBytes) (.fail .eagain)])
  | .sent 0 :: _ => (c, [.send (c.sendBuffer.drop c.sentBytes) (.sent 0)])
  | .sent (n + 1) :: rest =>
      let call := .send (c.sendBuffer.drop c.sentBytes) (.sent (n + 1))
      if c.sendBuffer.length ≤ c.sentBytes + (n + 1) then
        let r := transmit { c with sendBuffer := [], sentBytes := 0, state := .receiving } rest
        (r.1, call :: .modifyTrack c.socket readMask .newSock :: r.2)
      else
        let r := transmit { c with sentBytes := c.sentBytes + (n + 1) } rest
        (r.1, call :: r.2)
  | .fail .eagain :: _ => (c, [.send (c.sendBuffer.drop c.sentBytes) (.fail .eagain)])
  | .fail .ewouldblock :: _ => (c, [.send (c.sendBuffer.drop c.sentBytes) (.fail .ewouldblock)])
  | .fail (.other code) :: _ =>
      (c.fail "request sending error",
        [.send (c.sendBuffer.drop c.sentBytes) (.fail (.other code)), .removeTrack c.socket,
          .callback])

/-- `handleEvent`; `recvs` and `sends` are the answers of the system calls. -/
def handleEvent (c : APIconnection L) (ev : EpollEvent) (recvs : List RecvResult)
    (sends : List SendResult) : Receipt (APIconnection L) :=
  if ev.has epollErr then
    ⟨c.fail "connection closed abruptly", [.removeTrack c.socket, .callback], recvs⟩
  else match c.state with
    -- whether the connect succeeded is not asked
    | .connecting => ⟨{ c with state := .idle }, [.removeTrack c.socket, .callback], recvs⟩
    | .sending =>
        let r := c.transmit sends
        ⟨r.1, r.2, recvs⟩
    | .receiving => receiver.receive { c with recvBuffer := .cleared } recvs
    | .idle => ⟨c, [], recvs⟩

/-- `getParent`. -/
def getParent (c : APIconnection L) (isAlive : IsAlive) : Option ℕ := isAlive.lookup c.parent

/-- The destructor. -/
def destroy (c : APIconnection L) : List Effect := [.close c.socket]

/-! ## What the handler does to the reactor -/

variable {c : APIconnection L} {ev : EpollEvent} {recvs : List RecvResult} {sends : List SendResult}

theorem settings_appends : (settings (L := L)).Appends where
  span_span c kind xs ys := by cases kind <;> simp [settings, HttpResponse.append]
  buffer_span _ _ _ := rfl
  buffer_notice c n := by cases n <;> rfl

/-- `execute` is the one of this object. -/
def parsing : Parsing L (APIconnection L) where
  settings := settings
  parser := parser
  setParser c s := { c with parser := s }
  write c chunk := { c with recvBuffer := c.recvBuffer.write chunk }

theorem parsing_lawful : (parsing (L := L)).Lawful := ⟨settings_appends, fun _ _ => ⟨_, rfl⟩⟩

/-- All that parsing changes. -/
theorem parsing_frame {α : Type} {f : APIconnection L → α}
    (hf : ∀ c isError isRequestComplete response parser recvBuffer,
      f { c with
        isError := isError
        isRequestComplete := isRequestComplete
        response := response
        parser := parser
        recvBuffer := recvBuffer } = f c) : parsing.Frame f where
  span c _ _ := hf c _ _ _ _ _
  notice c n := by cases n <;> exact hf c _ _ _ _ _
  reset c := hf c _ _ _ _ _
  setParser c _ := hf c _ _ _ _ _
  write c _ := hf c _ _ _ _ _

/-- Parsing does not change the state of the operation. -/
theorem execute_state (c : APIconnection L) (chunk : Chunk) : (c.execute chunk).state = c.state :=
  (parsing_frame fun _ _ _ _ _ _ => rfl).execute c chunk

theorem receiver_keeps : (receiver (L := L)).Keeps :=
  ⟨(parsing_frame fun _ _ _ _ _ _ => rfl).execute, fun _ => rfl, fun _ _ => rfl, fun _ => rfl⟩

/-- The `send` loop: it goes on after the last byte, and waits for the response. -/
def transmitter : Transmitter (APIconnection L) where
  socket := socket
  sendBuffer := sendBuffer
  sentBytes := sentBytes
  advance c n := { c with sentBytes := c.sentBytes + n }
  finish c := { c with sendBuffer := [], sentBytes := 0, state := .receiving }
  fail c := c.fail "request sending error"
  returns := false

theorem transmitter_keeps : (transmitter (L := L)).Keeps :=
  ⟨fun _ _ => rfl, fun _ => rfl, fun _ => rfl⟩

theorem transmitter_lawful : (transmitter (L := L)).Lawful :=
  ⟨fun _ _ => ⟨rfl, rfl⟩, fun _ => ⟨rfl, rfl⟩, fun _ => ⟨rfl, rfl⟩⟩

theorem transmit_pass (c : APIconnection L) (sends : List SendResult) :
    transmitter.Pass c sends (c.transmit sends) := by
  induction sends generalizing c with
  | nil => exact .waits rfl trivial
  | cons r sends ih =>
      cases r with
      | sent n =>
          cases n with
          | zero => exact .waits rfl trivial
          | succ n =>
              rw [transmit]
              dsimp only
              split
              · next hall => exact .rearms rfl hall (ih _)
              · next hmore => exact .part (Nat.lt_of_not_le hmore) (ih _)
      | fail errno =>
          cases errno with
          | eagain => exact .waits rfl trivial
          | ewouldblock => exact .waits rfl trivial
          | other code => exact .fails

theorem handleEvent_socket : (c.handleEvent ev recvs sends).conn.socket = c.socket := by
  unfold handleEvent
  split
  · rfl
  split
  · rfl
  · exact transmitter_keeps.pass_socket (c.transmit_pass sends)
  · exact receiver_keeps.receive_socket { c with recvBuffer := .cleared } recvs
  · rfl

/-- **Every exit of `handleEvent`** either leaves the operation waiting, or untracks the socket,
    calls back and does nothing afterwards. -/
theorem handleEvent_trace : HandlerTrace c.socket (c.handleEvent ev recvs sends).effects := by
  unfold handleEvent
  split
  · exact .ends_now
  split
  · exact .ends_now
  · exact transmitter_keeps.pass_trace (c.transmit_pass sends)
  · exact receiver_keeps.receive_trace { c with recvBuffer := .cleared } recvs
  · exact .waits (by simp)

end APIconnection

end FiberConn
