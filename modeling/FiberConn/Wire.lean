import FiberConn.Assembly.Proofs

set_option autoImplicit false

/-! # Reading a message from a stream

TCP delivers a prefix of what the peer has sent. `bytesRead` is what the calls of a handler have
taken of it, and `Midway.receive` says how the receive loop leaves an object that is in the middle
of a message, if what it takes belongs to this message: still in the middle, with the whole message,
or with an error. Whatever `recv` answers in between, an object that reports no error has read every
byte. -/

namespace FiberConn

variable {L : Llhttp} {σ μ : Type}

def Effect.bytesRead : Effect → Bytes
  | .recv result => result.bytes
  | _ => []

/-- Everything the calls have read. -/
def bytesRead (effs : List Effect) : Bytes := effs.flatMap Effect.bytesRead

theorem bytesRead_cons (e : Effect) (effs : List Effect) :
    bytesRead (e :: effs) = e.bytesRead ++ bytesRead effs := List.flatMap_cons

/-- Without a callback, the loop has done nothing but parse. -/
theorem Receiver.receive_silent {R : Receiver σ} {α : Type} {f : σ → α}
    (hexec : ∀ c chunk, f (R.execute c chunk) = f c) (hclear : ∀ c, f (R.clear c) = f c) {c : σ}
    {recvs : List RecvResult} (hcb : CallsBack (R.receive c recvs).effects = false) :
    f (R.receive c recvs).conn = f c := by
  induction recvs generalizing c with
  | nil => rfl
  | cons r recvs ih =>
      cases r with
      | eof => cases hcb
      | fail errno => rfl
      | data chunk =>
          rw [receive] at hcb ⊢
          dsimp only at hcb ⊢
          split at hcb
          · cases hcb
          next hgood =>
          rw [if_neg hgood]
          split at hcb
          · cases hcb
          next hmore =>
          rw [if_neg hmore]
          exact (ih hcb).trans ((hclear _).trans (hexec _ _))

namespace MessageReader

/-- `read` has been read of `msg`, which says `ts`, and what it says has been fed to `start`. -/
structure Midway (A : MessageReader L σ μ) (start : μ) (msg : Bytes) (ts : List Token) (t : L.State)
    (read : Bytes) (c : σ) : Prop where
  split : ∃ rest before after, msg = read ++ rest ∧ ts = before ++ after ∧
    A.Awaits c rest after t ∧ (A.progress c).message = before.foldl A.feed start

/-- How the receive loop leaves such an object. -/
inductive ReadOutcome (A : MessageReader L σ μ) (start : μ) (msg : Bytes) (ts : List Token)
    (t : L.State) (read : Bytes) (r : Receipt σ) : Prop
  | waits (hcb : CallsBack r.effects = false)
      (h : A.Midway start msg ts t (read ++ bytesRead r.effects) r.conn)
  | completes (hcb : CallsBack r.effects = true) (herr : (A.progress r.conn).isError = false)
      (hmessage : (A.progress r.conn).message = ts.foldl A.feed start)
      (hall : read ++ bytesRead r.effects = msg)
  | fails (hcb : CallsBack r.effects = true) (herr : (A.progress r.conn).isError = true)

variable {A : MessageReader L σ μ} {start : μ} {msg read : Bytes} {ts : List Token} {t : L.State}
  {c : σ}

/-- Nothing has been read yet. -/
theorem Awaits.midway (h : A.Awaits c msg ts t) :
    A.Midway (A.progress c).message msg ts t [] c :=
  ⟨msg, [], ts, rfl, rfl, h, rfl⟩

/-- Progress is all that matters. -/
theorem Midway.congr (h : A.Midway start msg ts t read c) {c' : σ}
    (hc : A.progress c' = A.progress c) : A.Midway start msg ts t read c' := by
  obtain ⟨rest, before, after, hmsg, hts, hawaits, hmessage⟩ := h.split
  refine ⟨rest, before, after, hmsg, hts, ⟨?_, ?_, ?_, ?_⟩, hc ▸ hmessage⟩
  · exact hc ▸ hawaits.no_error
  · exact hc ▸ hawaits.incomplete
  · exact hc ▸ hawaits.parser_ok
  · exact hc ▸ hawaits.message

/-- How the parser leaves it after one more chunk of the message. -/
inductive ChunkOutcome (A : MessageReader L σ μ) (start : μ) (msg : Bytes) (ts : List Token)
    (t : L.State) (read : Bytes) (parsed : σ) : Prop
  | goesOn (hmore : A.receiver.complete parsed = false)
      (h : A.Midway start msg ts t read (A.receiver.clear parsed))
  | ends (hdone : A.receiver.complete parsed = true) (herr : (A.progress parsed).isError = false)
      (hmessage : (A.progress parsed).message = ts.foldl A.feed start) (hall : read = msg)

theorem Midway.execute (hA : A.Lawful) (h : A.Midway start msg ts t read c) {chunk : Chunk}
    (hread : read ++ chunk.bytes <+: msg) :
    A.receiver.parseFailed (A.receiver.execute c chunk) = false ∧
      A.ChunkOutcome start msg ts t (read ++ chunk.bytes) (A.receiver.execute c chunk) := by
  obtain ⟨rest, before, after, hmsg, rfl, hawaits, hmessage⟩ := h.split
  obtain ⟨more, hmore⟩ := hread
  obtain rfl : rest = chunk.bytes ++ more := by
    rw [hmsg, List.append_assoc] at hmore
    exact (List.append_cancel_left hmore).symm
  have hm := hawaits.message
  by_cases hend : more = []
  · rw [hend, List.append_nil] at hm hmore
    obtain ⟨hreads, hmem⟩ := Llhttp.message_reads hm
    have hexec := hA.execute c chunk after t hawaits.parser_ok hreads
    refine ⟨?_, .ends ?_ ?_ ?_ hmore⟩
    · rw [hA.parseFailed, hexec]
      exact hreads.isError hawaits.parser_ok
    · rw [hA.complete, hexec]
      simp [advance, hmem]
    · rw [hexec]
      exact hawaits.no_error
    · rw [hexec, List.foldl_append, ← hmessage]
      rfl
  · obtain ⟨ts₁, ts₂, s, rfl, hreads, hno, hm⟩ := Llhttp.message_append hm hend
    have hexec := hA.execute c chunk ts₁ s hawaits.parser_ok hreads
    have hok : L.isError s = false := hreads.isError hawaits.parser_ok
    have hincomplete : (A.advance (A.progress c) ts₁ s).complete = false :=
      advance_incomplete hawaits.incomplete hno
    have hnext : A.progress (A.receiver.clear (A.receiver.execute c chunk)) =
        A.advance (A.progress c) ts₁ s := by rw [hA.clear, hexec]
    refine ⟨?_, .goesOn ?_ ⟨more, before ++ ts₁, ts₂, hmore.symm, (List.append_assoc _ _ _).symm,
      ⟨?_, ?_, ?_, ?_⟩, ?_⟩⟩
    · rw [hA.parseFailed, hexec]
      exact hok
    · rw [hA.complete, hexec]
      exact hincomplete
    · rw [hnext]
      exact hawaits.no_error
    · rw [hnext]
      exact hincomplete
    · rw [hnext]
      exact hok
    · rw [hnext]
      exact hm
    · rw [hnext, List.foldl_append, ← hmessage]
      rfl

/-- Whatever the loop does after a chunk, it has read it first. -/
theorem bytesRead_receive (c : σ) (chunk : Chunk) (recvs : List RecvResult) :
    ∃ more, bytesRead (A.receiver.receive c (.data chunk :: recvs)).effects =
      chunk.bytes ++ more := by
  rw [Receiver.receive]
  dsimp only
  split
  · exact ⟨[], rfl⟩
  split
  · exact ⟨[], rfl⟩
  · exact ⟨_, bytesRead_cons _ _⟩

/-- **A stream is read message by message**, or with an error. -/
theorem Midway.receive (hA : A.Lawful) (h : A.Midway start msg ts t read c)
    {recvs : List RecvResult}
    (hread : read ++ bytesRead (A.receiver.receive c recvs).effects <+: msg) :
    A.ReadOutcome start msg ts t read (A.receiver.receive c recvs) := by
  induction recvs generalizing c read with
  | nil => exact .waits rfl ((List.append_nil read).symm ▸ h)
  | cons r recvs ih =>
      cases r with
      | eof => exact .fails rfl (hA.fail c _)
      | fail errno => exact .waits rfl ((List.append_nil read).symm ▸ h)
      | data chunk =>
          obtain ⟨more, hmore⟩ := A.bytesRead_receive c chunk recvs
          rw [hmore, ← List.append_assoc] at hread
          obtain ⟨hgood, ho⟩ := h.execute hA ((List.prefix_append _ _).trans hread)
          rw [Receiver.receive] at hmore ⊢
          set parsed := A.receiver.execute c chunk
          cases ho with
          | ends hdone herr hmessage hall =>
              simp only [hgood, hdone, Bool.false_eq_true, if_false, if_true]
              refine .completes rfl ?_ ?_ (by rw [← hall]; exact congrArg _ (List.append_nil _))
              · rw [hA.finish]
                exact herr
              · rw [hA.finish]
                exact hmessage
          | goesOn hgoes hmid =>
              simp only [hgood, hgoes, Bool.false_eq_true, if_false] at hmore ⊢
              rw [bytesRead_cons] at hmore
              obtain rfl := List.append_cancel_left hmore
              have hbytes := List.append_assoc read chunk.bytes
                (bytesRead (A.receiver.receive (A.receiver.clear parsed) recvs).effects)
              cases ih hmid hread with
              | waits hcb h => exact .waits hcb (hbytes ▸ h)
              | completes hcb herr hmessage hall =>
                  exact .completes hcb herr hmessage (hbytes.symm.trans hall)
              | fails hcb herr => exact .fails hcb herr

end MessageReader

open MessageReader

/-! ## The two classes -/

section Handlers

variable {ev : EpollEvent} {recvs : List RecvResult} {sends : List SendResult}

namespace Clientconnection

variable {c : Clientconnection L} {start : HttpRequest} {msg read : Bytes} {ts : List Token}
  {t : L.State}

/-- An event of an operation `read`. -/
theorem handleEvent_reads (h : (reader L).Midway start msg ts t read c)
    (hev : ev.has epollOut = false)
    (hread : read ++ bytesRead (c.handleEvent ev recvs sends).effects <+: msg) :
    (reader L).ReadOutcome start msg ts t read (c.handleEvent ev recvs sends) := by
  unfold handleEvent at hread ⊢
  split at hread
  · next herr =>
      rw [if_pos herr]
      exact .fails rfl rfl
  next herr =>
  rw [if_neg herr]
  split at hread
  · next hin =>
      rw [if_pos hin]
      have hclear : (reader L).Midway start msg ts t read { c with recvBuffer := .cleared } :=
        h.congr rfl
      exact hclear.receive (reader_lawful L) hread
  next hin =>
  rw [if_neg hin, if_neg (by simp [hev])]
  exact .waits rfl ((List.append_nil read).symm ▸ h)

/-- An event of an operation `write`. -/
theorem handleEvent_request (hev : ev.has epollIn = false) :
    (c.handleEvent ev recvs sends).conn.request = c.request := by
  unfold handleEvent
  split
  · rfl
  rw [if_neg (by simp [hev])]
  split
  · exact (c.transmit_pass sends).frame (fun _ _ => rfl) (fun _ => rfl) fun _ => rfl
  · rfl

end Clientconnection

namespace APIconnection

variable {c : APIconnection L} {start : HttpResponse} {msg read : Bytes} {ts : List Token}
  {t : L.State}

/-- An event while the response is received. -/
theorem handleEvent_reads (h : (reader L).Midway start msg ts t read c)
    (hc : c.state = .receiving)
    (hread : read ++ bytesRead (c.handleEvent ev recvs sends).effects <+: msg) :
    (reader L).ReadOutcome start msg ts t read (c.handleEvent ev recvs sends) := by
  unfold handleEvent at hread ⊢
  split at hread
  · next herr =>
      rw [if_pos herr]
      exact .fails rfl rfl
  next herr =>
  rw [if_neg herr]
  simp only [hc] at hread ⊢
  have hclear : (reader L).Midway start msg ts t read
      { c with state := .receiving, recvBuffer := .cleared } := h.congr rfl
  exact hclear.receive (reader_lawful L) hread

/-- How an event leaves an object that sends its request. -/
inductive TransmitOutcome (c : APIconnection L) (r : APIconnection L × List Effect) : Prop
  | waits (hcb : CallsBack r.2 = false) (hp : (reader L).progress r.1 = (reader L).progress c)
      (hstate : r.1.state = c.state ∨ r.1.state = .receiving)
  | fails (hcb : CallsBack r.2 = true) (herr : r.1.isError = true)

theorem transmit_outcome (c : APIconnection L) (sends : List SendResult) :
    c.TransmitOutcome (c.transmit sends) := by
  have hpass := c.transmit_pass sends
  cases hcb : CallsBack (c.transmit sends).2 with
  | true =>
      obtain ⟨c', hfail⟩ | ⟨hret, -⟩ := hpass.of_callsBack hcb
      · exact .fails hcb (by rw [hfail]; rfl)
      · cases hret
  | false =>
      have hsilent : (reader L).progress (c.transmit sends).1 = (reader L).progress c ∧
          ((c.transmit sends).1.state = c.state ∨ (c.transmit sends).1.state = .receiving) :=
        hpass.silent (P := fun c' => (reader L).progress c' = (reader L).progress c ∧
          (c'.state = c.state ∨ c'.state = .receiving)) (fun _ _ h => h)
          (fun _ h => ⟨h.1, Or.inr rfl⟩) hcb ⟨rfl, Or.inl rfl⟩
      exact .waits hcb hsilent.1 hsilent.2

theorem bytesRead_transmit (c : APIconnection L) (sends : List SendResult) :
    bytesRead (c.transmit sends).2 = [] := by
  have hpass := c.transmit_pass sends
  generalize c.transmit sends = r at hpass
  induction hpass with
  | waits => rfl
  | fails => rfl
  | ends => rfl
  | rearms hret hall h ih => exact ih
  | part hmore h ih => exact ih

end APIconnection

end Handlers

end FiberConn
