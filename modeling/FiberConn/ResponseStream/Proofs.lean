import FiberConn.Assembly.Proofs
import FiberConn.ResponseStream
import FiberConn.Sending.Proofs

set_option autoImplicit false

/-! # Proofs about the responses on one connection

The first response is delivered when its last byte completes it. One that ends with the connection
is read to its end, and then `recv` returning 0 is taken for a failure. A second response begins
with the byte on which llhttp calls `on_reset`, which clears the receive buffer under the parser. -/

namespace FiberConn

variable {L : Llhttp} {needsEof : L.State → Bool}

namespace Llhttp

/-- A message with no end of its own is read without being completed. -/
theorem openMessage_reads {s t : L.State} {bs : Bytes} {ts : List Token}
    (h : L.openMessage needsEof s bs = some (ts, t)) :
    L.Reads s bs ts t ∧ .notice .messageComplete ∉ ts := by
  induction bs generalizing s ts with
  | nil =>
      obtain ⟨-, h⟩ := Option.ite_none_right_eq_some.1 h
      obtain ⟨rfl, rfl⟩ := Prod.mk.inj (Option.some.inj h)
      exact ⟨.nil s, List.not_mem_nil⟩
  | cons b bs ih =>
      obtain ⟨hok, h⟩ := Option.ite_none_left_eq_some.1 h
      simp only [not_or, Bool.not_eq_true] at hok
      obtain ⟨m, hm, hp⟩ := Option.map_eq_some_iff.1 h
      obtain ⟨rfl, rfl⟩ := Prod.mk.inj hp
      obtain ⟨hread, hno⟩ := ih hm
      refine ⟨.cons hok.1 hok.2.1 hread, ?_⟩
      intro hmem
      exact (List.mem_append.1 hmem).elim hok.2.2 hno

end Llhttp

namespace APIconnection

/-! ## Waiting for a response -/

/-- An idle connection handles events without a callback. -/
theorem await_idle {c : APIconnection L} (hc : c.state = .idle) {arrivals : List Arrival}
    (hev : ∀ a ∈ arrivals, a.1.NoError) : c.await arrivals = ([], c) := by
  induction arrivals with
  | nil => rfl
  | cons a arrivals ih =>
      obtain ⟨ha, hev⟩ := List.forall_mem_cons.1 hev
      have hhandle : c.handleEvent a.1 a.2 [] = ⟨c, [], a.2⟩ := by
        rw [handleEvent, if_neg (by simp [show a.1.has epollErr = false from ha]), hc]
      rw [await]
      simp only [hhandle, ih hev]
      rfl

/-- An event with a callback that leaves the connection idle is the last one to have one. -/
theorem await_last {c : APIconnection L} {a : Arrival} {arrivals : List Arrival}
    (hev : ∀ x ∈ arrivals, x.1.NoError) (hcb : CallsBack (c.handleEvent a.1 a.2 []).effects = true)
    (hidle : (c.handleEvent a.1 a.2 []).conn.state = .idle) :
    c.await (a :: arrivals) =
      ([((c.handleEvent a.1 a.2 []).conn.isError, (c.handleEvent a.1 a.2 []).conn.response.reply)],
        (c.handleEvent a.1 a.2 []).conn) := by
  rw [await]
  simp only [hcb, if_true, await_idle hidle hev]

/-- An event without a callback. -/
theorem await_next {c : APIconnection L} {a : Arrival} {arrivals : List Arrival}
    (hcb : CallsBack (c.handleEvent a.1 a.2 []).effects = false) :
    c.await (a :: arrivals) = (c.handleEvent a.1 a.2 []).conn.await arrivals := by
  rw [await]
  simp only [hcb, Bool.false_eq_true, if_false]

/-- **A response that ends with its last byte** is delivered, whatever follows it. -/
theorem await_delimited {c : APIconnection L} (hc : c.state = .receiving) {arrivals : List Arrival}
    (hev : ∀ a ∈ arrivals, a.1.NoError) {recvs tail : List RecvResult}
    (hanswers : arrivals.flatMap Prod.snd = recvs ++ tail) (hdata : ∀ x ∈ recvs, x.IsData)
    {ts : List Token} {t : L.State} (h : (reader L).Awaits c (received recvs) ts t) :
    (c.await arrivals).1 = [(false, (ts.foldl HttpResponse.feed c.response).reply)] ∧
      (c.await arrivals).2.parser = t ∧ (c.await arrivals).2.state = .idle := by
  induction arrivals generalizing c recvs ts with
  | nil =>
      obtain ⟨rfl, -⟩ := List.append_eq_nil_iff.1 hanswers.symm
      exact absurd h.message (by simp [received, Llhttp.message_nil])
  | cons a arrivals ih =>
      obtain ⟨ha, hev⟩ := List.forall_mem_cons.1 hev
      -- the event in which the message ends
      have hend (more : List RecvResult) (hmore : a.2 = recvs ++ more) :
          (c.await (a :: arrivals)).1 = [(false, (ts.foldl HttpResponse.feed c.response).reply)] ∧
            (c.await (a :: arrivals)).2.parser = t ∧
            (c.await (a :: arrivals)).2.state = .idle := by
        obtain ⟨parsed, hconn, hp, hcount⟩ :=
          MessageReader.handle_last (reader_lawful L) hc ha hdata h hmore
        have hcb : CallsBack (c.handleEvent a.1 a.2 []).effects = true := by
          have hpos : 0 < (c.handleEvent a.1 a.2 []).effects.countP Effect.IsCallback := by
            rw [show (c.handleEvent a.1 a.2 []).effects.countP Effect.IsCallback = 1 from hcount]
            exact Nat.one_pos
          obtain ⟨e, he, hcall⟩ := List.countP_pos_iff.1 hpos
          exact List.any_eq_true.2 ⟨e, he, hcall⟩
        have hidle : (c.handleEvent a.1 a.2 []).conn.state = .idle := by
          rw [show (c.handleEvent a.1 a.2 []).conn = receiver.finish parsed from hconn]
          rfl
        have herr : (c.handleEvent a.1 a.2 []).conn.isError = false :=
          (congrArg Progress.isError hp).trans h.no_error
        have hmsg : (c.handleEvent a.1 a.2 []).conn.response =
            ts.foldl HttpResponse.feed c.response := congrArg Progress.message hp
        rw [await_last hev hcb hidle, herr, hmsg]
        exact ⟨rfl, congrArg Progress.parser hp, hidle⟩
      rw [List.flatMap_cons] at hanswers
      rcases List.append_eq_append_iff.1 hanswers with ⟨recvs', rfl, hlater⟩ | ⟨more, hmore, -⟩
      · by_cases hrest : recvs' = []
        · exact hend [] (by rw [hrest, List.append_nil, List.append_nil])
        · have hdata₁ : ∀ x ∈ a.2, x.IsData := fun x hx => hdata x (List.mem_append_left _ hx)
          have hdata₂ : ∀ x ∈ recvs', x.IsData := fun x hx => hdata x (List.mem_append_right _ hx)
          rw [received, List.flatMap_append] at h
          obtain ⟨ts₁, ts₂, rfl, hsilent, hreading, hawaits, hp⟩ :=
            MessageReader.handle_part (reader_lawful L) hc ha hdata₁ h
              (MessageReader.received_ne_nil hrest hdata₂)
          have hmsg : (c.handleEvent a.1 a.2 []).conn.response =
              ts₁.foldl HttpResponse.feed c.response := congrArg Progress.message hp
          have hlast := ih hreading hev hlater hdata₂ hawaits
          rw [show ((reader L).handle c a.1 a.2).conn = (c.handleEvent a.1 a.2 []).conn from rfl,
            hmsg] at hlast
          rw [await_next hsilent, List.foldl_append]
          exact hlast
      · exact hend more hmore

/-- Events on which `recv` would block at once only clear the receive buffer, so the first answer
    comes to the connection as it is. -/
theorem await_first {c : APIconnection L} (hc : c.state = .receiving) {arrivals : List Arrival}
    (hev : ∀ a ∈ arrivals, a.1.NoError) {r : RecvResult} {rest : List RecvResult}
    (hanswers : arrivals.flatMap Prod.snd = r :: rest) :
    ∃ (c' : APIconnection L) (a : Arrival) (later : List Arrival) (more : List RecvResult),
      c.await arrivals = c'.await (a :: later) ∧ (∀ x ∈ later, x.1.NoError) ∧
      c'.handleEvent a.1 a.2 [] =
        receiver.receive { c with recvBuffer := .cleared } (r :: more) := by
  induction arrivals generalizing c with
  | nil => cases hanswers
  | cons a arrivals ih =>
      obtain ⟨ha, hev⟩ := List.forall_mem_cons.1 hev
      have hhandle := handleEvent_receiving hc ha a.2
      rw [List.flatMap_cons] at hanswers
      cases hrecvs : a.2 with
      | nil =>
          rw [hrecvs] at hanswers hhandle
          have hsilent : CallsBack (c.handleEvent a.1 a.2 []).effects = false := by
            rw [hrecvs, hhandle]
            rfl
          obtain ⟨c', a', later, more, hawait, hlater, hfirst⟩ :=
            @ih { c with recvBuffer := .cleared } hc hev hanswers
          refine ⟨c', a', later, more, ?_, hlater, hfirst⟩
          rw [← hawait, await_next hsilent, hrecvs, hhandle]
          rfl
      | cons r' more =>
          rw [hrecvs] at hanswers
          obtain ⟨rfl, -⟩ := List.cons.inj hanswers
          exact ⟨c, a, arrivals, more, rfl, hev, hrecvs ▸ hhandle⟩

/-- The end of the stream, with nothing left to read before it. -/
theorem await_eof {c : APIconnection L} (hc : c.state = .receiving) {arrivals : List Arrival}
    (hev : ∀ a ∈ arrivals, a.1.NoError) (hanswers : arrivals.flatMap Prod.snd = [.eof]) :
    ∃ reply, (c.await arrivals).1 = [(true, reply)] := by
  obtain ⟨c', a, later, more, hawait, hlater, hfirst⟩ := await_first hc hev hanswers
  have hcb : CallsBack (c'.handleEvent a.1 a.2 []).effects = true := by
    rw [hfirst]
    rfl
  rw [hawait, await_last hlater hcb (by rw [hfirst]; rfl), hfirst]
  exact ⟨_, rfl⟩

/-- **A response that ends with the connection** is read to its end, and then `recv` returns 0. -/
theorem await_closing {c : APIconnection L} (hc : c.state = .receiving) {arrivals : List Arrival}
    (hev : ∀ a ∈ arrivals, a.1.NoError) {recvs : List RecvResult}
    (hanswers : arrivals.flatMap Prod.snd = recvs ++ [.eof]) (hdata : ∀ x ∈ recvs, x.IsData)
    {ts : List Token} {t : L.State} (hincomplete : c.isRequestComplete = false)
    (hok : L.isError c.parser = false) (hread : L.Reads c.parser (received recvs) ts t)
    (hno : .notice .messageComplete ∉ ts) :
    ∃ reply, (c.await arrivals).1 = [(true, reply)] := by
  induction arrivals generalizing c recvs ts with
  | nil => exact absurd hanswers.symm (by simp)
  | cons a arrivals ih =>
      obtain ⟨ha, hev⟩ := List.forall_mem_cons.1 hev
      rw [List.flatMap_cons] at hanswers
      rcases List.append_eq_append_iff.1 hanswers with ⟨recvs', rfl, hlater⟩ | ⟨more, hmore, heof⟩
      · -- the stream goes on after this event
        have hdata₁ : ∀ x ∈ a.2, x.IsData := fun x hx => hdata x (List.mem_append_left _ hx)
        have hdata₂ : ∀ x ∈ recvs', x.IsData := fun x hx => hdata x (List.mem_append_right _ hx)
        rw [received, List.flatMap_append] at hread
        obtain ⟨ts₁, ts₂, s, rfl, hread₁, hread₂⟩ := hread.split
        obtain ⟨hno₁, hno₂⟩ := not_or.1 (mt List.mem_append.2 hno)
        obtain ⟨c', hc', hreading, hhandle⟩ := MessageReader.handle_reads (reader_lawful L) hc ha
          (List.append_nil a.2).symm hdata₁ hincomplete hok hread₁ hno₁
        have hparser : c'.parser = s := congrArg Progress.parser hc'
        have hcomplete : c'.isRequestComplete = false :=
          (congrArg Progress.complete hc').trans
            (MessageReader.advance_incomplete (A := reader L) hincomplete hno₁)
        have hhandle' : c.handleEvent a.1 a.2 [] =
            ⟨c', a.2.map .recv ++ [.recv (.fail .eagain)], []⟩ := hhandle
        have hsilent : CallsBack (c.handleEvent a.1 a.2 []).effects = false := by
          rw [hhandle']
          exact MessageReader.callsBack_recvs a.2 _
        rw [await_next hsilent, hhandle']
        refine ih hreading hev hlater hdata₂ hcomplete ?_ ?_ hno₂
        · rw [hparser]
          exact hread₁.isError hok
        · rw [hparser]
          exact hread₂
      · obtain ⟨c', -, hreading, hhandle⟩ := MessageReader.handle_reads (reader_lawful L) hc ha
          hmore hdata hincomplete hok hread hno
        cases more with
        | nil =>
            -- the end of the stream is reported alone, by a later event
            have hhandle' : c.handleEvent a.1 a.2 [] =
                ⟨c', recvs.map .recv ++ [.recv (.fail .eagain)], []⟩ := hhandle
            have hsilent : CallsBack (c.handleEvent a.1 a.2 []).effects = false := by
              rw [hhandle']
              exact MessageReader.callsBack_recvs recvs _
            rw [await_next hsilent, hhandle']
            exact await_eof hreading hev heof.symm
        | cons r more =>
            obtain ⟨rfl, hrest⟩ := List.cons.inj heof
            obtain ⟨rfl, -⟩ := List.append_eq_nil_iff.1 hrest.symm
            have hhandle' : c.handleEvent a.1 a.2 [] =
                ⟨c'.fail "client disconnected", recvs.map .recv ++
                  [.recv .eof, .removeTrack c'.socket, .callback], []⟩ := hhandle
            have hcb : CallsBack (c.handleEvent a.1 a.2 []).effects = true := by
              rw [hhandle', MessageReader.callsBack_recvs]
              rfl
            rw [await_last hev hcb (by rw [hhandle']; rfl), hhandle']
            exact ⟨_, rfl⟩

/-- A chunk that begins another message is an error. -/
theorem execute_restarts (hnul : L.RejectsNul) {c : APIconnection L} {chunk : Chunk} {b : UInt8}
    {more : Bytes} (hc : L.isError c.parser = false) (hchunk : chunk.bytes = b :: more)
    (hb : L.restarts c.parser b = true) : L.isError (c.execute chunk).parser = true := by
  have hbuf : settings.buffer { c with recvBuffer := c.recvBuffer.write chunk } =
      [] ++ b :: (more ++ c.recvBuffer.bytes.drop chunk.bytes.length) := by
    show chunk.bytes ++ c.recvBuffer.bytes.drop chunk.bytes.length = _
    simp only [hchunk, List.nil_append, List.cons_append]
  have hlen : chunk.bytes.length = ([] : Bytes).length + (more.length + 1) := by simp [hchunk]
  have herr := Llhttp.execute_restarts settings_appends (fun _ => RecvBuffer.getD_cleared) hnul hc
    (.nil _) hbuf hb more.length
  rwa [← hlen] at herr

/-- **A second response** is a parse error from its first byte on. -/
theorem await_breaks (hnul : L.RejectsNul) {c : APIconnection L} (hc : c.state = .receiving)
    {arrivals : List Arrival} (hev : ∀ a ∈ arrivals, a.1.NoError) {recvs tail : List RecvResult}
    (hanswers : arrivals.flatMap Prod.snd = recvs ++ tail) (hdata : ∀ x ∈ recvs, x.IsData)
    {b : UInt8} {more : Bytes} (hbytes : received recvs = b :: more)
    (hok : L.isError c.parser = false) (hb : L.restarts c.parser b = true) :
    ∃ reply, (c.await arrivals).1 = [(true, reply)] := by
  obtain ⟨r, recvs, rfl⟩ : ∃ r rs, recvs = r :: rs := by
    refine List.exists_cons_of_ne_nil ?_
    rintro rfl
    exact absurd hbytes (by simp [received])
  cases r with
  | eof => exact absurd (hdata _ List.mem_cons_self) (by simp [RecvResult.IsData])
  | fail errno => exact absurd (hdata _ List.mem_cons_self) (by simp [RecvResult.IsData])
  | data chunk =>
      obtain ⟨c', a, later, more', hawait, hlater, hfirst⟩ := await_first hc hev hanswers
      obtain ⟨b', bs, hchunk⟩ := List.exists_cons_of_ne_nil chunk.nonempty
      have hbegin : chunk.bytes ++ received recvs = b :: more := hbytes
      rw [hchunk, List.cons_append, List.cons.injEq] at hbegin
      obtain ⟨rfl, -⟩ := hbegin
      have hbad : (receiver (L := L)).parseFailed
          (receiver.execute { c with recvBuffer := .cleared } chunk) = true :=
        execute_restarts (c := { c with recvBuffer := .cleared }) hnul hok hchunk hb
      rw [Receiver.receive, if_pos hbad] at hfirst
      have hcb : CallsBack (c'.handleEvent a.1 a.2 []).effects = true := by
        rw [hfirst]
        rfl
      rw [hawait, await_last hlater hcb (by rw [hfirst]; rfl), hfirst]
      exact ⟨_, rfl⟩

/-! ## Conversations -/

/-- The receive loop leaves the state alone or makes it `API_IDLE`. -/
theorem receive_state (c : APIconnection L) (recvs : List RecvResult) :
    (receiver.receive c recvs).conn.state = .idle ∨
      (receiver.receive c recvs).conn.state = c.state := by
  induction recvs generalizing c with
  | nil => exact Or.inr rfl
  | cons r recvs ih =>
      cases r with
      | data chunk =>
          rw [Receiver.receive]
          dsimp only
          split
          · exact Or.inl rfl
          split
          · exact Or.inl rfl
          · refine (ih _).imp_right fun h => h.trans ?_
            exact execute_state c chunk
      | eof => exact Or.inl rfl
      | fail errno => exact Or.inr rfl

/-- Waiting for a response does not touch `sendBuffer`. -/
theorem await_sendBuffer {c : APIconnection L} (hc : c.state = .receiving ∨ c.state = .idle)
    {arrivals : List Arrival} (hev : ∀ a ∈ arrivals, a.1.NoError) :
    ((c.await arrivals).2.sendBuffer, (c.await arrivals).2.sentBytes) =
      (c.sendBuffer, c.sentBytes) := by
  induction arrivals generalizing c with
  | nil => rfl
  | cons a arrivals ih =>
      rcases hc with hc | hc
      · obtain ⟨ha, hev⟩ := List.forall_mem_cons.1 hev
        have hhandle := handleEvent_receiving hc ha a.2
        have hstate : (c.handleEvent a.1 a.2 []).conn.state = .receiving ∨
            (c.handleEvent a.1 a.2 []).conn.state = .idle := by
          rw [hhandle]
          exact (receive_state { c with recvBuffer := .cleared } a.2).symm.imp_left
            fun h => h.trans hc
        have hsame : ((c.handleEvent a.1 a.2 []).conn.sendBuffer,
            (c.handleEvent a.1 a.2 []).conn.sentBytes) = (c.sendBuffer, c.sentBytes) := by
          rw [hhandle]
          exact receive_sendBuffer { c with recvBuffer := .cleared } a.2
        rw [← hsame, ← ih hstate hev, await]
        split <;> rfl
      · rw [await_idle hc hev]

theorem submit_eq {c : APIconnection L} {request : Bytes} (hne : request ≠ [])
    (hbuffer : c.sendBuffer = []) (hpos : c.sentBytes = 0) :
    c.submit request =
      { c with state := .receiving, sendBuffer := [], sentBytes := 0 } := by
  obtain ⟨b, bs, rfl⟩ := List.exists_cons_of_ne_nil hne
  have hev : (⟨epollOut, c.socket⟩ : EpollEvent).has epollErr = false := by
    show (epollOut &&& epollErr != 0) = false
    decide
  rw [submit, handleEvent, hev, if_neg Bool.false_ne_true]
  simp [sendRequest, transmit, hbuffer, hpos]

/-- The first response is delivered, if its own last byte ends it. -/
theorem Pristine.await_delimited {c : APIconnection L} (h : c.Pristine)
    (hc : c.state = .receiving) {r : Response} (hr : r.framing = .delimited) {ts : List Token}
    {t : L.State} (hm : L.response needsEof L.init r = some (ts, t)) {arrivals : List Arrival}
    (ha : Arrives r arrivals) :
    (c.await arrivals).1 = [(false, (responseOf ts).reply)] ∧ (c.await arrivals).2.parser = t := by
  obtain ⟨hev, recvs, tail, hanswers, hdata, hbytes, -⟩ := ha
  rw [Llhttp.response, hr] at hm
  obtain ⟨hseen, hparser, -⟩ :=
    APIconnection.await_delimited hc hev hanswers hdata (h.awaits (hbytes ▸ hm))
  have hreply : (ts.foldl HttpResponse.feed c.response).reply = (responseOf ts).reply := by
    rw [h.response, HttpResponse.foldl_feed]
    simp [HttpResponse.empty, HttpResponse.reply, responseOf, fieldMap]
  exact ⟨hreply ▸ hseen, hparser⟩

/-- A first response that ends with the connection is reported as an error. -/
theorem Pristine.await_closing {c : APIconnection L} (h : c.Pristine) (hc : c.state = .receiving)
    {r : Response} (hr : r.framing = .closing) {ts : List Token} {t : L.State}
    (hm : L.response needsEof L.init r = some (ts, t)) {arrivals : List Arrival}
    (ha : Arrives r arrivals) : ∃ reply, (c.await arrivals).1 = [(true, reply)] := by
  obtain ⟨hev, recvs, tail, hanswers, hdata, hbytes, htail⟩ := ha
  obtain rfl : tail = [.eof] := htail.resolve_left fun hd => by simp [hr] at hd
  rw [Llhttp.response, hr] at hm
  obtain ⟨hread, hno⟩ := Llhttp.openMessage_reads hm
  have hok : L.isError c.parser = false := by
    rw [h.parser]
    exact L.init_ok
  rw [← h.parser, ← hbytes] at hread
  exact APIconnection.await_closing hc hev hanswers hdata h.isRequestComplete hok hread hno

/-- A response that begins with a byte the parser restarts on is reported as an error. -/
theorem await_restarts (hnul : L.RejectsNul) {c : APIconnection L} (hc : c.state = .receiving)
    {r : Response} {arrivals : List Arrival} (ha : Arrives r arrivals)
    (hok : L.isError c.parser = false) (hhead : ∃ b ∈ r.bytes.head?, L.restarts c.parser b) :
    ∃ reply, (c.await arrivals).1 = [(true, reply)] := by
  obtain ⟨hev, recvs, tail, hanswers, hdata, hbytes, -⟩ := ha
  obtain ⟨b, hb, hrestart⟩ := hhead
  obtain ⟨more, hmore⟩ := List.head?_eq_some_iff.1 hb
  exact await_breaks hnul hc hev hanswers hdata (hbytes.trans hmore) hok hrestart

end APIconnection

/-- **Every response is delivered** exactly when there is at most one on the connection and its end
    is marked by its own last byte. -/
theorem replies_delivered_iff (hnul : L.RejectsNul) {resps : List Response} {replies : List Reply}
    (hresps : L.responses needsEof resps = some replies) {exchanges : List Exchange}
    (harrive : List.Forall₂ (fun r e => Arrives r e.arrivals) resps exchanges)
    {c : APIconnection L} (hc : c.Pristine) (hbuffer : c.sendBuffer = []) (hpos : c.sentBytes = 0) :
    c.converse exchanges = replies.map (fun reply => [(false, reply)]) ↔
      resps.length ≤ 1 ∧ ∀ r ∈ resps, r.framing = .delimited := by
  cases harrive with
  | nil =>
      obtain rfl : [] = replies := Option.some.inj hresps
      simp [APIconnection.converse]
  | @cons r e resps exchanges hfirst hothers =>
      obtain ⟨-, hresps⟩ := Option.ite_none_right_eq_some.1 hresps
      obtain ⟨⟨ts, t⟩, hm, hresps⟩ := Option.bind_eq_some_iff.1 hresps
      obtain ⟨later, hlater, rfl⟩ := Option.map_eq_some_iff.1 hresps
      rw [APIconnection.converse, APIconnection.submit_eq e.nonempty hbuffer hpos]
      set c₁ : APIconnection L := { c with state := .receiving, sendBuffer := [], sentBytes := 0 }
        with hc₁
      have hc₁' : c₁.Pristine := ⟨hc.isError, hc.isRequestComplete, hc.response, hc.parser⟩
      cases hframing : r.framing with
      | closing =>
          obtain ⟨reply, hawait⟩ := hc₁'.await_closing rfl hframing hm hfirst
          simp [hawait, hframing]
      | delimited =>
          obtain ⟨hseen, hparser⟩ := hc₁'.await_delimited rfl hframing hm hfirst
          cases hothers with
          | nil =>
              obtain rfl : [] = later := Option.some.inj hlater
              simp [hseen, APIconnection.converse, hframing]
          | @cons r' e' resps exchanges hsecond hothers =>
              -- the parser restarts on the first byte of the second response
              obtain ⟨⟨hhead, -⟩, hlater⟩ := Option.ite_none_right_eq_some.1 hlater
              obtain ⟨⟨ts', t'⟩, -, hlater⟩ := Option.bind_eq_some_iff.1 hlater
              obtain ⟨later', -, rfl⟩ := Option.map_eq_some_iff.1 hlater
              obtain ⟨hbuffer', hpos'⟩ :=
                Prod.mk.inj (APIconnection.await_sendBuffer (c := c₁) (Or.inl rfl) hfirst.events)
              have hsubmit' := APIconnection.submit_eq e'.nonempty hbuffer' hpos'
              rw [Llhttp.response, hframing] at hm
              have hok : L.isError t = false := (Llhttp.message_reads hm).1.isError L.init_ok
              have hreceiving : ((c₁.await e.arrivals).2.submit e'.request).state = .receiving := by
                rw [hsubmit']
              have hparser' : ((c₁.await e.arrivals).2.submit e'.request).parser = t := by
                rw [hsubmit']
                exact hparser
              obtain ⟨reply, hawait⟩ := APIconnection.await_restarts hnul hreceiving hsecond
                (hparser'.symm ▸ hok) (hparser'.symm ▸ hhead)
              simp [APIconnection.converse, hawait]

/-! ## Two connections -/

theorem replyParser_rejectsNul : replyParser.RejectsNul := fun _ _ _ => rfl

/-- `llhttp_message_needs_eof` of `replyParser`. -/
def replyNeedsEof (s : ReplyState) : Bool := s.phase = .identity

def closingReply : Bytes := ascii "HTTP/1.1 200 OK\r\n\r\nhi"

def getExchange (arrivals : List Arrival) : Exchange := ⟨ascii "GET", by decide, arrivals⟩

/-- What both replies say; the second has no header field. -/
def okReplySays : Reply :=
  ⟨ascii "1.1", ascii "OK",
    (∅ : HeaderMap).insert (ascii "Content-Length") (ascii "2"), ascii "hi"⟩

def closingReplySays : Reply := ⟨ascii "1.1", ascii "OK", ∅, ascii "hi"⟩

/-- The response in one chunk, and the end of the stream. -/
def closingArrivals : List Arrival :=
  [(readable, [replyArrival closingReply 0 21 (by decide +kernel), .eof])]

/-- One response with a length is delivered. -/
theorem replies_delivered_one :
    (APIconnection.new "" 5 : APIconnection replyParser).converse [getExchange replyArrivals] =
      [[(false, okReplySays)]] :=
  (replies_delivered_iff replyParser_rejectsNul
    (show replyParser.responses replyNeedsEof [⟨okReply, .delimited⟩] = some [okReplySays] by
      decide +kernel)
    (.cons ⟨by decide +kernel, replyArrivals.flatMap Prod.snd, [], by decide +kernel,
      by decide +kernel, by decide +kernel, Or.inl ⟨rfl, rfl⟩⟩ .nil)
    ⟨rfl, rfl, rfl, rfl⟩ rfl rfl).2 (by decide)

/-- **A response that ends with the connection is an error**, although its parser has read all of
    it; so is the second response on a connection. -/
theorem closing_reply_lost :
    (replyParser.responses replyNeedsEof [⟨closingReply, .closing⟩] = some [closingReplySays] ∧
      Arrives ⟨closingReply, .closing⟩ closingArrivals ∧
      (APIconnection.new "" 5 : APIconnection replyParser).converse [getExchange closingArrivals] =
        [[(true, closingReplySays)]]) ∧
    (replyParser.responses replyNeedsEof [⟨okReply, .delimited⟩, ⟨okReply, .delimited⟩] =
        some [okReplySays, okReplySays] ∧
      Arrives ⟨okReply, .delimited⟩ replyArrivals ∧
      (APIconnection.new "" 5 : APIconnection replyParser).converse
          [getExchange replyArrivals, getExchange replyArrivals] =
        [[(false, okReplySays)], [(true, HttpResponse.empty.reply)]]) := by
  refine ⟨⟨by decide +kernel, ?_, by decide +kernel⟩, by decide +kernel, ?_, by decide +kernel⟩
  · exact ⟨by decide +kernel, [replyArrival closingReply 0 21 (by decide +kernel)], [.eof],
      by decide +kernel, by decide +kernel, by decide +kernel, Or.inr rfl⟩
  · exact ⟨by decide +kernel, replyArrivals.flatMap Prod.snd, [], by decide +kernel,
      by decide +kernel, by decide +kernel, Or.inl ⟨rfl, rfl⟩⟩

end FiberConn
