import FiberConn.Effects
import FiberConn.Llhttp

set_option autoImplicit false

/-! # The receive loop of the HTTP connections

`Clientconnection::handleEvent` and `APIconnection::handleEvent` read with the same loop; they
differ in the object they parse into and in what an exit does to it. A `Receiver` is what the loop
uses of such an object, and a `Parsing` what `llhttp_execute` does. -/

namespace FiberConn

variable {σ α : Type} {L : Llhttp}

/-! ## Parsing a chunk -/

/-- What `llhttp_execute(parser, recvBuffer, read_bytes)` uses of the object. -/
structure Parsing (L : Llhttp) (σ : Type) where
  settings : Settings σ
  parser : σ → L.State
  setParser : σ → L.State → σ
  /-- `recv` writes the chunk into the buffer. -/
  write : σ → Chunk → σ

namespace Parsing

/-- `recv` and then `llhttp_execute`. -/
def execute (P : Parsing L σ) (c : σ) (chunk : Chunk) : σ :=
  let r := L.execute P.settings (P.parser c) (P.write c chunk) chunk.bytes.length
  P.setParser r.2 r.1

structure Lawful (P : Parsing L σ) : Prop where
  appends : P.settings.Appends
  write : ∀ c chunk, chunk.bytes <+: P.settings.buffer (P.write c chunk)

/-- Neither `recv` nor a callback changes `f`. -/
structure Frame (P : Parsing L σ) (f : σ → α) : Prop where
  span : ∀ c kind bs, f (P.settings.span c kind bs) = f c
  notice : ∀ c n, f (P.settings.notice c n) = f c
  reset : ∀ c, f (P.settings.reset c) = f c
  setParser : ∀ c s, f (P.setParser c s) = f c
  write : ∀ c chunk, f (P.write c chunk) = f c

variable {P : Parsing L σ} {f : σ → α} {c : σ} {chunk : Chunk}

/-- A chunk within one message. -/
theorem Lawful.execute_reads (hP : P.Lawful) {ts : List Token} {t : L.State}
    (hc : L.isError (P.parser c) = false) (h : L.Reads (P.parser c) chunk.bytes ts t) :
    P.execute c chunk = P.setParser (ts.foldl P.settings.feed (P.write c chunk)) t := by
  obtain ⟨more, hbuf⟩ := hP.write c chunk
  rw [execute, Llhttp.execute_reads hP.appends hc h hbuf.symm]

theorem Frame.execute (h : P.Frame f) (c : σ) (chunk : Chunk) : f (P.execute c chunk) = f c := by
  have hexec := L.execute_frame h.span h.notice h.reset (P.parser c) (P.write c chunk)
    chunk.bytes.length
  exact (h.setParser _ _).trans (hexec.trans (h.write c chunk))

end Parsing

/-! ## The loop -/

structure Receiver (σ : Type) where
  socket : σ → ℤ
  /-- `recv` writes the chunk and `llhttp_execute` parses it. -/
  execute : σ → Chunk → σ
  /-- `llhttp_execute` did not return `HPE_OK`. -/
  parseFailed : σ → Bool
  complete : σ → Bool
  /-- `memset` of the receive buffer. -/
  clear : σ → σ
  /-- What an exit with an error does to the object. -/
  fail : σ → String → σ
  /-- What an exit with a complete message does to the object. -/
  finish : σ → σ

namespace Receiver

/-- The loop. Past the end of the list `recv` would block. -/
def receive (R : Receiver σ) (c : σ) : List RecvResult → Receipt σ
  | [] => ⟨c, [.recv (.fail .eagain)], []⟩
  | .data chunk :: rest =>
      let parsed := R.execute c chunk
      if R.parseFailed parsed then
        ⟨R.fail parsed "Http parsing error",
          [.recv (.data chunk), .removeTrack (R.socket parsed), .callback], rest⟩
      else if R.complete parsed then
        ⟨R.finish parsed, [.recv (.data chunk), .removeTrack (R.socket parsed), .callback], rest⟩
      else
        let r := R.receive (R.clear parsed) rest
        { r with effects := .recv (.data chunk) :: r.effects }
  | .eof :: rest =>
      ⟨R.fail c "client disconnected", [.recv .eof, .removeTrack (R.socket c), .callback], rest⟩
  | .fail errno :: rest => ⟨c, [.recv (.fail errno)], rest⟩

/-- Nothing in the loop changes the socket. -/
structure Keeps (R : Receiver σ) : Prop where
  execute : ∀ c chunk, R.socket (R.execute c chunk) = R.socket c
  clear : ∀ c, R.socket (R.clear c) = R.socket c
  fail : ∀ c description, R.socket (R.fail c description) = R.socket c
  finish : ∀ c, R.socket (R.finish c) = R.socket c

variable {R : Receiver σ}

/-- What neither the parser nor an exit changes, the loop does not change. -/
theorem receive_frame {f : σ → α} (hexec : ∀ c chunk, f (R.execute c chunk) = f c)
    (hclear : ∀ c, f (R.clear c) = f c) (hfail : ∀ c description, f (R.fail c description) = f c)
    (hfinish : ∀ c, f (R.finish c) = f c) (c : σ) (recvs : List RecvResult) :
    f (R.receive c recvs).conn = f c := by
  induction recvs generalizing c with
  | nil => rfl
  | cons r recvs ih =>
      cases r with
      | data chunk =>
          rw [receive]
          dsimp only
          split
          · exact (hfail _ _).trans (hexec _ _)
          split
          · exact (hfinish _).trans (hexec _ _)
          · exact (ih _).trans ((hclear _).trans (hexec _ _))
      | eof => exact hfail _ _
      | fail errno => rfl

theorem Keeps.receive_socket (h : R.Keeps) (c : σ) (recvs : List RecvResult) :
    R.socket (R.receive c recvs).conn = R.socket c :=
  receive_frame h.execute h.clear h.fail h.finish c recvs

/-- Every exit of the loop that ends the operation untracks the socket and then calls back. -/
theorem Keeps.receive_trace (h : R.Keeps) (c : σ) (recvs : List RecvResult) :
    HandlerTrace (R.socket c) (R.receive c recvs).effects := by
  induction recvs generalizing c with
  | nil => exact .waits_one trivial
  | cons r recvs ih =>
      cases r with
      | data chunk =>
          have hends : HandlerTrace (R.socket c)
              [.recv (.data chunk), .removeTrack (R.socket (R.execute c chunk)), .callback] := by
            rw [h.execute]
            exact .ends_one trivial
          rw [receive]
          dsimp only
          split
          · exact hends
          split
          · exact hends
          · have hrest := ih (R.clear (R.execute c chunk))
            rw [h.clear, h.execute] at hrest
            exact hrest.cons trivial
      | eof => exact .ends_one trivial
      | fail errno => exact .waits_one trivial

/-- Each run of the loop uses up at least one answer of `recv`. -/
theorem receive_unread (c : σ) (r : RecvResult) (recvs : List RecvResult) :
    (R.receive c (r :: recvs)).unread <:+ recvs := by
  induction recvs generalizing c r with
  | nil =>
      cases r with
      | data chunk =>
          rw [receive]
          dsimp only
          split
          · exact List.suffix_rfl
          split <;> exact List.suffix_rfl
      | eof => exact List.suffix_rfl
      | fail errno => exact List.suffix_rfl
  | cons r' recvs ih =>
      cases r with
      | data chunk =>
          rw [receive]
          dsimp only
          split
          · exact List.suffix_rfl
          split
          · exact List.suffix_rfl
          · exact (ih _ r').trans (List.suffix_cons r' recvs)
      | eof => exact List.suffix_rfl
      | fail errno => exact List.suffix_rfl

end Receiver

/-- What neither parsing nor an exit changes, the loop does not change. -/
theorem Parsing.Frame.receive {P : Parsing L σ} {f : σ → α} (h : P.Frame f) (R : Receiver σ)
    (hexec : R.execute = P.execute) (hclear : ∀ c, f (R.clear c) = f c)
    (hfail : ∀ c description, f (R.fail c description) = f c) (hfinish : ∀ c, f (R.finish c) = f c)
    (c : σ) (recvs : List RecvResult) : f (R.receive c recvs).conn = f c :=
  Receiver.receive_frame (fun c chunk => hexec ▸ h.execute c chunk) hclear hfail hfinish c recvs

end FiberConn
