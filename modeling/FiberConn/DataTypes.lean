import Mathlib.Data.Finmap

set_option autoImplicit false

/-! # Data types and the outside world (`data_types.h`)

The request and response records, the receive buffer, and what `recv`, `send` and libpq answer.
Strings that come from the network are byte lists. -/

namespace FiberConn

abbrev Bytes := List UInt8

/-- `std::unordered_map<std::string, std::string>`. -/
abbrev HeaderMap := Finmap (fun _ : Bytes => Bytes)

structure HttpRequest where
  method : Bytes
  url : Bytes
  version : Bytes
  key : Bytes
  value : Bytes
  headers : HeaderMap
  body : Bytes
deriving DecidableEq

structure HttpResponse where
  version : Bytes
  status : Bytes
  key : Bytes
  value : Bytes
  headers : HeaderMap
  body : Bytes
deriving DecidableEq

/-- `new HttpRequest()`. -/
def HttpRequest.empty : HttpRequest := ⟨[], [], [], [], [], ∅, []⟩

/-- `new HttpResponse()`. -/
def HttpResponse.empty : HttpResponse := ⟨[], [], [], [], ∅, []⟩

/-- The global `isAlive`: `connectionId` to the live `Clientconnection`, which is named by the
    number of its allocation. -/
abbrev IsAlive := Finmap (fun _ : String => ℕ)

/-! ## System calls -/

inductive Errno
  | eagain
  | ewouldblock
  | other (code : ℕ)
deriving DecidableEq, Repr

/-- `sizeof(recvBuffer)`. -/
def recvBufferSize : ℕ := 1024

/-- What one successful `recv` into the receive buffer delivers. -/
structure Chunk where
  bytes : Bytes
  nonempty : bytes ≠ []
  fits : bytes.length ≤ recvBufferSize
deriving DecidableEq

/-- `char recvBuffer[1024]`. -/
structure RecvBuffer where
  bytes : Bytes
  size : bytes.length = recvBufferSize
deriving DecidableEq

/-- `memset(recvBuffer, 0, sizeof(recvBuffer))`. -/
def RecvBuffer.cleared : RecvBuffer := ⟨List.replicate recvBufferSize 0, List.length_replicate⟩

/-- `recv` writes at the front and leaves the rest as it was. -/
def RecvBuffer.write (buffer : RecvBuffer) (chunk : Chunk) : RecvBuffer where
  bytes := chunk.bytes ++ buffer.bytes.drop chunk.bytes.length
  size := by
    have hsize := buffer.size
    have hfits := chunk.fits
    rw [List.length_append, List.length_drop]
    omega

/-- `recv`: a positive count, 0, or -1 with an `errno`. -/
inductive RecvResult
  | data (chunk : Chunk)
  | eof
  | fail (errno : Errno)
deriving DecidableEq

/-- `send`: the returned count, or -1 with an `errno`. -/
inductive SendResult
  | sent (count : ℕ)
  | fail (errno : Errno)
deriving DecidableEq, Repr

/-! ## libpq -/

inductive PollingStatus
  | failed
  | reading
  | writing
  | ok
  | active
deriving DecidableEq, Repr

inductive ExecStatus
  | emptyQuery
  | commandOk
  | tuplesOk
  | copyOut
  | copyIn
  | badResponse
  | nonfatalError
  | fatalError
  | copyBoth
  | singleTuple
  | pipelineSync
  | pipelineAborted
deriving DecidableEq, Repr

/-- `PGresult`, as its accessors show it. -/
structure PGresult where
  resultStatus : ExecStatus
  ntuples : ℕ
  nfields : ℕ
  getvalue : ℕ → ℕ → String

/-- A libpq call with its answer. -/
inductive PqCall
  | connectStart (conninfo : String) (started : Bool)
  | connectPoll (status : PollingStatus)
  | setnonblocking (ret : ℤ)
  | sendQuery (query : String) (ret : ℤ)
  | flush (ret : ℤ)
  | consumeInput (ret : ℤ)
  | isBusy (ret : ℤ)
  | getResult (res : Option PGresult)
  | finish (socket : Option ℤ)

end FiberConn
