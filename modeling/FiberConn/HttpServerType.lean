import FiberConn.Llhttp
import FiberConn.Receiver
import FiberConn.Transmitter

set_option autoImplicit false

/-! # `Clientconnection` (`http_server_type.h`)

One accepted HTTP connection. The callbacks it gives to llhttp are `settings`: they build `request`
up and note the end of a message, and `on_reset` starts a new request. Every exit of `handleEvent`
that ends the operation untracks the socket first and calls back last (`handleEvent_trace`). -/

namespace FiberConn

structure Clientconnection (L : Llhttp) where
  connectionId : String
  socket : ℤ
  isError : Bool
  errorDescription : String
  isRequestComplete : Bool
  request : HttpRequest
  parser : L.State
  recvBuffer : RecvBuffer
  sentBytes : ℕ
  sendBuffer : Bytes

/-- A data callback: `append` to the field of that name. There is no `on_status` here. -/
def HttpRequest.append (r : HttpRequest) (bs : Bytes) : SpanKind → HttpRequest
  | .method => { r with method := r.method ++ bs }
  | .url => { r with url := r.url ++ bs }
  | .version => { r with version := r.version ++ bs }
  | .headerField => { r with key := r.key ++ bs }
  | .headerValue => { r with value := r.value ++ bs }
  | .body => { r with body := r.body ++ bs }
  | .status => r

/-- `on_header_value_complete`. -/
def HttpRequest.endHeader (r : HttpRequest) : HttpRequest :=
  { r with headers := r.headers.insert r.key r.value, key := [], value := [] }

namespace Clientconnection

variable {L : Llhttp}

/-- The constructor; `connectionId` is the UUID it draws. -/
def new (sockfd : ℤ) (connectionId : String) : Clientconnection L where
  connectionId := connectionId
  socket := sockfd
  isError := false
  errorDescription := ""
  isRequestComplete := false
  request := .empty
  parser := L.init
  recvBuffer := .cleared
  sentBytes := 0
  sendBuffer := []

/-- `on_reset`. The buffer it clears is the one llhttp is parsing. -/
def onReset (c : Clientconnection L) : Clientconnection L :=
  { c with
    isError := false
    isRequestComplete := false
    request := .empty
    recvBuffer := .cleared }

/-- The callbacks without data; `on_message_begin` and `on_headers_complete` do nothing. -/
def onNotice (c : Clientconnection L) : Notice → Clientconnection L
  | .headerValueComplete => { c with request := c.request.endHeader }
  | .messageComplete => { c with isRequestComplete := true }
  | .messageBegin => c
  | .headersComplete => c

/-- `settings`. -/
def settings : Settings (Clientconnection L) where
  buffer c := c.recvBuffer.bytes
  span c kind bs := { c with request := c.request.append bs kind }
  notice := onNotice
  reset := onReset

/-- `llhttp_execute(this->parser, recvBuffer, read_bytes)`, after `recv` has written `chunk`. -/
def execute (c : Clientconnection L) (chunk : Chunk) : Clientconnection L :=
  let r := L.execute settings c.parser { c with recvBuffer := c.recvBuffer.write chunk }
    chunk.bytes.length
  { r.2 with parser := r.1 }

/-- `is_error` with its description. -/
def fail (c : Clientconnection L) (description : String) : Clientconnection L :=
  { c with isError := true, errorDescription := description }

/-- The `recv` loop of `handleEvent`. -/
def receiver : Receiver (Clientconnection L) where
  socket := socket
  execute := execute
  parseFailed c := L.isError c.parser
  complete c := c.isRequestComplete
  clear c := { c with recvBuffer := .cleared }
  fail := fail
  finish c := c

def receive (c : Clientconnection L) (recvs : List RecvResult) : Receipt (Clientconnection L) :=
  receiver.receive c recvs

/-- The `send` loop of `handleEvent`. Past the end of the list `send` would block. -/
def transmit (c : Clientconnection L) : List SendResult → Clientconnection L × List Effect
  | [] => (c, [.send (c.sendBuffer.drop c.sentBytes) (.fail .eagain)])
  -- only -1 is looked at after the loop, so 0 ends it without a callback
  | .sent 0 :: _ => (c, [.send (c.sendBuffer.drop c.sentBytes) (.sent 0)])
  | .sent (n + 1) :: rest =>
      let call := .send (c.sendBuffer.drop c.sentBytes) (.sent (n + 1))
      if c.sendBuffer.length ≤ c.sentBytes + (n + 1) then
        ({ c with sendBuffer := [], sentBytes := 0 }, [call, .removeTrack c.socket, .callback])
      else
        let r := transmit { c with sentBytes := c.sentBytes + (n + 1) } rest
        (r.1, call :: r.2)
  | .fail .eagain :: _ => (c, [.send (c.sendBuffer.drop c.sentBytes) (.fail .eagain)])
  | .fail .ewouldblock :: _ => (c, [.send (c.sendBuffer.drop c.sentBytes) (.fail .ewouldblock)])
  | .fail (.other code) :: _ =>
      (c.fail "response sending error",
        [.send (c.sendBuffer.drop c.sentBytes) (.fail (.other code)), .removeTrack c.socket,
          .callback])

/-- `handleEvent`; `recvs` and `sends` are the answers of the system calls. -/
def handleEvent (c : Clientconnection L) (ev : EpollEvent) (recvs : List RecvResult)
    (sends : List SendResult) : Receipt (Clientconnection L) :=
  if ev.has epollErr then
    ⟨c.fail "connection closed abruptly", [.removeTrack c.socket, .callback], recvs⟩
  else if ev.has epollIn then
    receive { c with recvBuffer := .cleared } recvs
  else if ev.has epollOut then
    let r := c.transmit sends
    ⟨r.1, r.2, recvs⟩
  -- `EPOLLHUP` alone
  else ⟨c, [], recvs⟩

/-- `write`. -/
def write (c : Clientconnection L) : List Effect := [.addTrack c.socket writeMask .helperSock]

/-- `read`. -/
def read (c : Clientconnection L) : List Effect := [.addTrack c.socket readMask .newSock]

/-- The destructor. -/
def destroy (c : Clientconnection L) : List Effect := [.close c.socket]

/-- The constructor's and the destructor's entry in `isAlive`. -/
def register (c : Clientconnection L) (self : ℕ) (isAlive : IsAlive) : IsAlive :=
  isAlive.insert c.connectionId self

def unregister (c : Clientconnection L) (isAlive : IsAlive) : IsAlive :=
  isAlive.erase c.connectionId

/-! ## What the handler does to the reactor -/

variable {c : Clientconnection L} {ev : EpollEvent} {recvs : List RecvResult}
  {sends : List SendResult}

theorem receive_data {chunk : Chunk} :
    c.receive (.data chunk :: recvs) =
      if L.isError (c.execute chunk).parser then
        ⟨(c.execute chunk).fail "Http parsing error",
          [.recv (.data chunk), .removeTrack (c.execute chunk).socket, .callback], recvs⟩
      else if (c.execute chunk).isRequestComplete then
        ⟨c.execute chunk,
          [.recv (.data chunk), .removeTrack (c.execute chunk).socket, .callback], recvs⟩
      else
        { receive { c.execute chunk with recvBuffer := .cleared } recvs with
          effects := .recv (.data chunk) ::
            (receive { c.execute chunk with recvBuffer := .cleared } recvs).effects } := rfl

theorem settings_appends : (settings (L := L)).Appends where
  span_span c kind xs ys := by cases kind <;> simp [settings, HttpRequest.append]
  buffer_span _ _ _ := rfl
  buffer_notice c n := by cases n <;> rfl

/-- `execute` is the one of this object. -/
def parsing : Parsing L (Clientconnection L) where
  settings := settings
  parser := parser
  setParser c s := { c with parser := s }
  write c chunk := { c with recvBuffer := c.recvBuffer.write chunk }

theorem parsing_lawful : (parsing (L := L)).Lawful := ⟨settings_appends, fun _ _ => ⟨_, rfl⟩⟩

/-- All that parsing changes. -/
theorem parsing_frame {α : Type} {f : Clientconnection L → α}
    (hf : ∀ c isError isRequestComplete request parser recvBuffer,
      f { c with
        isError := isError
        isRequestComplete := isRequestComplete
        request := request
        parser := parser
        recvBuffer := recvBuffer } = f c) : parsing.Frame f where
  span c _ _ := hf c _ _ _ _ _
  notice c n := by cases n <;> exact hf c _ _ _ _ _
  reset c := hf c _ _ _ _ _
  setParser c _ := hf c _ _ _ _ _
  write c _ := hf c _ _ _ _ _

theorem receiver_keeps : (receiver (L := L)).Keeps :=
  ⟨(parsing_frame fun _ _ _ _ _ _ => rfl).execute, fun _ => rfl, fun _ _ => rfl, fun _ => rfl⟩

/-- The `send` loop: it returns after the last byte. -/
def transmitter : Transmitter (Clientconnection L) where
  socket := socket
  sendBuffer := sendBuffer
  sentBytes := sentBytes
  advance c n := { c with sentBytes := c.sentBytes + n }
  finish c := { c with sendBuffer := [], sentBytes := 0 }
  fail c := c.fail "response sending error"
  returns := true

theorem transmitter_keeps : (transmitter (L := L)).Keeps :=
  ⟨fun _ _ => rfl, fun _ => rfl, fun _ => rfl⟩

theorem transmitter_lawful : (transmitter (L := L)).Lawful :=
  ⟨fun _ _ => ⟨rfl, rfl⟩, fun _ => ⟨rfl, rfl⟩, fun _ => ⟨rfl, rfl⟩⟩

theorem transmit_pass (c : Clientconnection L) (sends : List SendResult) :
    transmitter.Pass c sends (c.transmit sends) := by
  induction sends generalizing c with
  | nil => exact .waits rfl trivial
  | cons r sends ih =>
      cases r with
      | sent n =>
          cases n with
          | zero => exact .waits rfl trivial
          | succ n =>
              rw [transmit]
              dsimp only
              split
              · next hall => exact .ends rfl hall
              · next hmore => exact .part (Nat.lt_of_not_le hmore) (ih _)
      | fail errno =>
          cases errno with
          | eagain => exact .waits rfl trivial
          | ewouldblock => exact .waits rfl trivial
          | other code => exact .fails

theorem handleEvent_socket : (c.handleEvent ev recvs sends).conn.socket = c.socket := by
  unfold handleEvent
  split
  · rfl
  split
  · exact receiver_keeps.receive_socket { c with recvBuffer := .cleared } recvs
  split
  · exact transmitter_keeps.pass_socket (c.transmit_pass sends)
  · rfl

/-- **Every exit of `handleEvent`** untracks the socket before it calls back, and does nothing
    afterwards. -/
theorem handleEvent_trace : HandlerTrace c.socket (c.handleEvent ev recvs sends).effects := by
  unfold handleEvent
  split
  · exact .ends_now
  split
  · exact receiver_keeps.receive_trace { c with recvBuffer := .cleared } recvs
  split
  · exact transmitter_keeps.pass_trace (c.transmit_pass sends)
  · exact .waits (by simp)

end Clientconnection

end FiberConn
