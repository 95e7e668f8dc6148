import FiberConn.Assembly
import FiberConn.RequestStream.Proofs

set_option autoImplicit false

/-! # Proofs about assembling a message

Both classes are a `MessageReader`: seen through their parser's state, their message and two flags,
reading a chunk is feeding its tokens. `receive_part` and `receive_last` say what the receive loop
does with chunks that end before and with the message; the rest is induction over the events. -/

namespace FiberConn

variable {L : Llhttp} {σ μ : Type}

/-! ## Fields and scratch space -/

theorem foldl_insert_lookup (fields : List (Bytes × Bytes)) (m : HeaderMap) (name : Bytes) :
    (fields.foldl (fun m field => m.insert field.1 field.2) m).lookup name =
      (lastValue name fields).or (m.lookup name) := by
  induction fields generalizing m with
  | nil => rfl
  | cons field fields ih =>
      rw [List.foldl_cons, ih, lastValue, lastValue, List.reverse_cons, List.find?_append]
      by_cases hname : field.1 = name
      · subst hname
        rw [Finmap.lookup_insert]
        cases fields.reverse.find? fun x => x.1 = field.1 <;> simp
      · rw [Finmap.lookup_insert_of_ne _ (Ne.symm hname)]
        cases fields.reverse.find? fun x => x.1 = name <;> simp [hname]

/-- The map holds exactly the names that occurred, each with its last value. -/
theorem fieldMap_lookup (fields : List (Bytes × Bytes)) (name : Bytes) :
    (fieldMap fields).lookup name = lastValue name fields := by
  rw [fieldMap, foldl_insert_lookup, Finmap.lookup_empty, Option.or_none]

/-- What is left in `key` and `value`. -/
def scratch (key value : Bytes) : List Token → Bytes × Bytes
  | [] => (key, value)
  | .notice .headerValueComplete :: ts => scratch [] [] ts
  | .notice _ :: ts => scratch key value ts
  | .byte .headerField b :: ts => scratch (key ++ [b]) value ts
  | .byte .headerValue b :: ts => scratch key (value ++ [b]) ts
  | .byte _ _ :: ts => scratch key value ts

theorem scratch_closed {key value : Bytes} {ts : List Token} (h : HeadersClosed ts)
    (hkv : key = [] ∧ value = [] ∨ .notice .headerValueComplete ∈ ts) :
    scratch key value ts = ([], []) := by
  induction ts generalizing key value with
  | nil =>
      obtain ⟨rfl, rfl⟩ : key = [] ∧ value = [] := by simpa using hkv
      rfl
  | cons token ts ih =>
      obtain ⟨htoken, hts⟩ := h
      cases token with
      | notice n => cases n <;> first
          | exact ih hts (Or.inl ⟨rfl, rfl⟩)
          | exact ih hts (hkv.imp_right fun hmem => by simpa using hmem)
      | byte kind b => cases kind <;> first
          | exact ih hts (Or.inr (htoken trivial))
          | exact ih hts (hkv.imp_right fun hmem => by simpa using hmem)

/-- What the tokens do to the whole request. -/
theorem HttpRequest.foldl_feed (r : HttpRequest) (ts : List Token) :
    ts.foldl HttpRequest.feed r =
      { method := r.method ++ bytesOf .method ts
        url := r.url ++ bytesOf .url ts
        version := r.version ++ bytesOf .version ts
        key := (scratch r.key r.value ts).1
        value := (scratch r.key r.value ts).2
        headers :=
          (headerPairs r.key r.value ts).foldl (fun m field => m.insert field.1 field.2) r.headers
        body := r.body ++ bytesOf .body ts } := by
  induction ts generalizing r with
  | nil => simp [bytesOf, headerPairs, scratch]
  | cons token ts ih =>
      rw [List.foldl_cons, ih]
      cases token with
      | notice n =>
          cases n <;> simp [HttpRequest.feed, HttpRequest.endHeader, bytesOf, headerPairs, scratch]
      | byte kind b =>
          cases kind <;>
            simp [HttpRequest.feed, HttpRequest.append, bytesOf, headerPairs, scratch]

/-- The request that the tokens of a message build. -/
theorem feed_requestOf {ts : List Token} (h : HeadersClosed ts) :
    ts.foldl HttpRequest.feed .empty = requestOf ts := by
  have hscratch : scratch [] [] ts = ([], []) := scratch_closed h (Or.inl ⟨rfl, rfl⟩)
  simp [HttpRequest.foldl_feed, HttpRequest.empty, hscratch, requestOf, fieldMap]

/-- What one token does to the response. -/
def HttpResponse.feed (r : HttpResponse) : Token → HttpResponse
  | .notice .headerValueComplete => r.endHeader
  | .notice _ => r
  | .byte kind b => r.append [b] kind

/-- What the tokens do to the whole response. -/
theorem HttpResponse.foldl_feed (r : HttpResponse) (ts : List Token) :
    ts.foldl HttpResponse.feed r =
      { version := r.version ++ bytesOf .version ts
        status := r.status ++ bytesOf .status ts
        key := (scratch r.key r.value ts).1
        value := (scratch r.key r.value ts).2
        headers :=
          (headerPairs r.key r.value ts).foldl (fun m field => m.insert field.1 field.2) r.headers
        body := r.body ++ bytesOf .body ts } := by
  induction ts generalizing r with
  | nil => simp [bytesOf, headerPairs, scratch]
  | cons token ts ih =>
      rw [List.foldl_cons, ih]
      cases token with
      | notice n =>
          cases n <;>
            simp [HttpResponse.feed, HttpResponse.endHeader, bytesOf, headerPairs, scratch]
      | byte kind b =>
          cases kind <;>
            simp [HttpResponse.feed, HttpResponse.append, bytesOf, headerPairs, scratch]

/-- The response that the tokens of a message build. -/
theorem feed_responseOf {ts : List Token} (h : HeadersClosed ts) :
    ts.foldl HttpResponse.feed .empty = responseOf ts := by
  have hscratch : scratch [] [] ts = ([], []) := scratch_closed h (Or.inl ⟨rfl, rfl⟩)
  simp [HttpResponse.foldl_feed, HttpResponse.empty, hscratch, responseOf, fieldMap]

/-- The last byte comes in the last event. -/
theorem Delivered.split {msg : Bytes} {arrivals : List Arrival} (h : Delivered msg arrivals)
    (hmsg : msg ≠ []) :
    ∃ first a, arrivals = first ++ [a] ∧ msg = received (first.flatMap Prod.snd) ++ received a.2 ∧
      a.2 ≠ [] := by
  have hne : arrivals ≠ [] := by
    rintro rfl
    exact hmsg h.bytes.symm
  obtain ⟨first, a, rfl⟩ := (List.eq_nil_or_concat' arrivals).resolve_left hne
  refine ⟨first, a, rfl, ?_, h.last a (by simp)⟩
  rw [← h.bytes]
  simp [received]

/-- The last byte ends the last chunk. -/
theorem Delivered.last_chunk {init : Bytes} {b : UInt8} {arrivals : List Arrival}
    (h : Delivered (init ++ [b]) arrivals) :
    ∃ first ev before chunk xs, arrivals = first ++ [(ev, before ++ [.data chunk])] ∧
      chunk.bytes = xs ++ [b] ∧
      init = received (first.flatMap Prod.snd) ++ (received before ++ xs) := by
  obtain ⟨first, ⟨ev, recvs⟩, rfl, hbytes, hne⟩ := h.split (by simp)
  obtain ⟨before, r, rfl⟩ := (List.eq_nil_or_concat' recvs).resolve_left hne
  have hr : r.IsData := h.chunks _ List.mem_concat_self r List.mem_concat_self
  cases r with
  | eof => exact hr.elim
  | fail errno => exact hr.elim
  | data chunk =>
      obtain ⟨xs, b', hchunk⟩ := (List.eq_nil_or_concat' chunk.bytes).resolve_left chunk.nonempty
      have hsplit : init ++ [b] =
          (received (first.flatMap Prod.snd) ++ (received before ++ xs)) ++ [b'] := by
        rw [hbytes]
        simp [received, RecvResult.bytes, hchunk]
      obtain ⟨hinit, hlast⟩ := List.append_inj' hsplit rfl
      exact ⟨first, ev, before, chunk, xs, rfl, hlast ▸ hchunk, hinit⟩

/-- A callback in the last event and none before. -/
theorem CalledAtEnd.of_last {P : σ → Prop} {rs : List (Receipt σ)} {r : Receipt σ}
    (hquiet : ∀ x ∈ rs, CallsBack x.effects = false)
    (hcount : r.effects.countP Effect.IsCallback = 1) (hP : P r.conn) :
    CalledAtEnd P (rs ++ [r]) :=
  ⟨by rwa [List.dropLast_concat], r, List.getLast?_concat, hcount, hP⟩

theorem CalledAtEnd.common {P Q : σ → Prop} {rs : List (Receipt σ)} (hp : CalledAtEnd P rs)
    (hq : CalledAtEnd Q rs) : ∃ c, P c ∧ Q c := by
  obtain ⟨r, hr, -, hP⟩ := hp.called
  obtain ⟨r', hr', -, hQ⟩ := hq.called
  obtain rfl : r = r' := Option.mem_unique hr hr'
  exact ⟨r.conn, hP, hQ⟩

/-! ## Events -/

namespace MessageReader

variable {A : MessageReader L σ μ}

/-- An event that begins with chunks within a message. -/
theorem handle_reads (hA : A.Lawful) {c : σ} (hc : A.Reading c) {a : Arrival} (ha : A.Reports a.1)
    {recvs more : List RecvResult} (hrecvs : a.2 = recvs ++ more) (hdata : ∀ r ∈ recvs, r.IsData)
    {ts : List Token} {t : L.State} (hp : (A.progress c).complete = false)
    (hok : L.isError (A.progress c).parser = false)
    (hread : L.Reads (A.progress c).parser (received recvs) ts t)
    (hno : .notice .messageComplete ∉ ts) :
    ∃ c', A.progress c' = A.advance (A.progress c) ts t ∧ A.Reading c' ∧
      A.handle c a.1 a.2 =
        { A.receiver.receive c' more with
          effects := recvs.map .recv ++ (A.receiver.receive c' more).effects } := by
  have hclear := hA.clear c
  obtain ⟨c', hc', hreading, hloop⟩ := receive_part (c := A.receiver.clear c) hA hdata
    (by rw [hclear]; exact hp) (by rw [hclear]; exact hok) (by rw [hclear]; exact hread) hno more
  rw [hclear] at hc'
  refine ⟨c', hc', hreading (hA.reading_clear c hc), ?_⟩
  rw [hA.handle c a.1 a.2 hc ha, hrecvs, hloop]

/-- An event whose chunks end before the message does. -/
theorem handle_part (hA : A.Lawful) {c : σ} (hc : A.Reading c) {a : Arrival} (ha : A.Reports a.1)
    (hdata : ∀ r ∈ a.2, r.IsData) {rest : Bytes} {ts : List Token} {t : L.State}
    (h : A.Awaits c (received a.2 ++ rest) ts t) (hrest : rest ≠ []) :
    ∃ ts₁ ts₂, ts = ts₁ ++ ts₂ ∧ CallsBack (A.handle c a.1 a.2).effects = false ∧
      A.Reading (A.handle c a.1 a.2).conn ∧ A.Awaits (A.handle c a.1 a.2).conn rest ts₂ t ∧
      A.progress (A.handle c a.1 a.2).conn =
        A.advance (A.progress c) ts₁ (A.progress (A.handle c a.1 a.2).conn).parser := by
  obtain ⟨ts₁, ts₂, s, rfl, hread, hno, hm⟩ := Llhttp.message_append h.message hrest
  obtain ⟨c', hc', hreading, hhandle⟩ := handle_reads hA hc ha (List.append_nil a.2).symm hdata
    h.incomplete h.parser_ok hread hno
  rw [hhandle]
  refine ⟨ts₁, ts₂, rfl, callsBack_recvs a.2 _, hreading, ⟨?_, ?_, ?_, ?_⟩, ?_⟩
  · show (A.progress c').isError = false
    rw [hc']
    exact h.no_error
  · show (A.progress c').complete = false
    rw [hc']
    exact advance_incomplete h.incomplete hno
  · show L.isError (A.progress c').parser = false
    rw [hc']
    exact hread.isError h.parser_ok
  · show L.message (A.progress c').parser rest = some (ts₂, t)
    rw [hc']
    exact hm
  · show A.progress c' = A.advance (A.progress c) ts₁ (A.progress c').parser
    rw [hc']
    rfl

/-- An event whose chunks end with the message. -/
theorem handle_last (hA : A.Lawful) {c : σ} (hc : A.Reading c) {a : Arrival} (ha : A.Reports a.1)
    {recvs : List RecvResult} (hdata : ∀ r ∈ recvs, r.IsData) {ts : List Token} {t : L.State}
    (h : A.Awaits c (received recvs) ts t) {more : List RecvResult} (hrecvs : a.2 = recvs ++ more) :
    ∃ parsed, (A.handle c a.1 a.2).conn = A.receiver.finish parsed ∧
      A.progress (A.handle c a.1 a.2).conn = A.advance (A.progress c) ts t ∧
      (A.handle c a.1 a.2).effects.countP Effect.IsCallback = 1 := by
  have hclear := hA.clear c
  have h' : A.Awaits (A.receiver.clear c) (received recvs) ts t :=
    ⟨by rw [hclear]; exact h.no_error, by rw [hclear]; exact h.incomplete,
      by rw [hclear]; exact h.parser_ok, by rw [hclear]; exact h.message⟩
  obtain ⟨parsed, effs, hparsed, hcount, hloop⟩ := receive_last hA hdata h' more
  rw [hA.handle c a.1 a.2 hc ha, hrecvs, hloop]
  refine ⟨parsed, rfl, ?_, hcount⟩
  rw [hA.finish, hparsed, hclear]

/-- **Events within a message** bring no callback. -/
theorem receipts_part (hA : A.Lawful) {c : σ} (hc : A.Reading c) {arrivals : List Arrival}
    (hrep : ∀ a ∈ arrivals, A.Reports a.1) (hdata : ∀ a ∈ arrivals, ∀ x ∈ a.2, x.IsData)
    {ts : List Token} {t : L.State} (hp : (A.progress c).complete = false)
    (hok : L.isError (A.progress c).parser = false)
    (hread : L.Reads (A.progress c).parser (received (arrivals.flatMap Prod.snd)) ts t)
    (hno : .notice .messageComplete ∉ ts) (more : List Arrival) :
    ∃ c' rs, A.progress c' = A.advance (A.progress c) ts t ∧ A.Reading c' ∧
      receipts A.handle c (arrivals ++ more) = rs ++ receipts A.handle c' more ∧
      ∀ r ∈ rs, CallsBack r.effects = false := by
  induction arrivals generalizing c ts with
  | nil =>
      cases hread with
      | nil => exact ⟨c, [], (advance_nil _).symm, hc, rfl, by simp⟩
  | cons a arrivals ih =>
      obtain ⟨ha, hrep⟩ := List.forall_mem_cons.1 hrep
      obtain ⟨hchunks, hdata⟩ := List.forall_mem_cons.1 hdata
      rw [List.flatMap_cons, received, List.flatMap_append] at hread
      obtain ⟨ts₁, ts₂, s, rfl, hread₁, hread₂⟩ := hread.split
      obtain ⟨hno₁, hno₂⟩ := not_or.1 (mt List.mem_append.2 hno)
      obtain ⟨c₁, hc₁, hreading, hhandle⟩ := handle_reads hA hc ha (List.append_nil a.2).symm
        hchunks hp hok hread₁ hno₁
      have hconn : (A.handle c a.1 a.2).conn = c₁ := by
        rw [hhandle]
        rfl
      have hsilent : CallsBack (A.handle c a.1 a.2).effects = false := by
        rw [hhandle]
        exact callsBack_recvs a.2 _
      obtain ⟨c', rs, hc', hreading', hrs, hquiet⟩ := ih hreading hrep hdata
        (by rw [hc₁]; exact advance_incomplete hp hno₁)
        (by rw [hc₁]; exact hread₁.isError hok) (by rw [hc₁]; exact hread₂) hno₂
      refine ⟨c', A.handle c a.1 a.2 :: rs, by rw [hc', hc₁, advance_advance], hreading', ?_,
        List.forall_mem_cons.2 ⟨hsilent, hquiet⟩⟩
      rw [List.cons_append, receipts, hconn, hrs, List.cons_append]

/-- **One message over any events.** The callback comes once, in the event with the last byte. -/
theorem receipts_message (hA : A.Lawful) {c : σ} (hc : A.Reading c) {arrivals : List Arrival}
    {rest : Bytes} {ts : List Token} {t : L.State} (h : A.Awaits c rest ts t)
    (hrep : ∀ a ∈ arrivals, A.Reports a.1) (hdel : Delivered rest arrivals) :
    CalledAtEnd (fun c' => A.progress c' = A.advance (A.progress c) ts t)
      (receipts A.handle c arrivals) := by
  have hm := h.message
  obtain ⟨first, a, rfl, rfl, hne⟩ := hdel.split fun hnil => by
    rw [hnil, Llhttp.message_nil] at hm
    cases hm
  obtain ⟨hrep, ha⟩ := List.forall_mem_append.1 hrep
  obtain ⟨hdata, hlast⟩ := List.forall_mem_append.1 hdel.chunks
  have ha := ha a List.mem_cons_self
  have hlast := hlast a List.mem_cons_self
  obtain ⟨ts₁, ts₂, s, rfl, hread, hno, hm'⟩ :=
    Llhttp.message_append hm (received_ne_nil hne hlast)
  obtain ⟨c', rs, hc', hreading, hrs, hquiet⟩ := receipts_part hA hc hrep hdata h.incomplete
    h.parser_ok hread hno [a]
  have hawaits : A.Awaits c' (received a.2) ts₂ t := by
    refine ⟨?_, ?_, ?_, ?_⟩ <;> rw [hc']
    · exact h.no_error
    · exact advance_incomplete h.incomplete hno
    · exact hread.isError h.parser_ok
    · exact hm'
  obtain ⟨-, -, hp, hcount⟩ :=
    handle_last hA hreading ha hlast hawaits (List.append_nil a.2).symm
  rw [hc', advance_advance] at hp
  rw [hrs]
  exact .of_last hquiet hcount hp

end MessageReader

/-! ## The two readers -/

namespace Clientconnection

def reader (L : Llhttp) : MessageReader L (Clientconnection L) HttpRequest where
  receiver := receiver
  progress c := ⟨c.parser, c.request, c.isError, c.isRequestComplete⟩
  feed := HttpRequest.feed
  handle c ev recvs := c.handleEvent ev recvs []
  Reading _ := True
  Reports := EpollEvent.Readable

theorem reader_lawful (L : Llhttp) : (reader L).Lawful where
  parseFailed _ := rfl
  complete _ := rfl
  execute c chunk ts t hok hread := by
    refine MessageReader.progress_execute (A := reader L) parsing_lawful (fun _ => rfl)
      (fun _ _ => rfl) (fun _ _ => rfl) (fun c token => ?_) hok hread
    rcases token with n | ⟨kind, b⟩
    · cases n <;> simp [reader, MessageReader.advance, Settings.feed, parsing, settings, onNotice,
        HttpRequest.feed]
    · simp [reader, MessageReader.advance, Settings.feed, parsing, settings, HttpRequest.feed]
  clear _ := rfl
  finish _ := rfl
  fail _ _ := rfl
  handle c ev recvs _ hev := handleEvent_readable hev recvs []
  reading_execute _ _ _ := trivial
  reading_clear _ _ := trivial

theorem Pristine.awaits {c : Clientconnection L} (h : c.Pristine) {msg : Bytes} {ts : List Token}
    {t : L.State} (hm : L.message L.init msg = some (ts, t)) : (reader L).Awaits c msg ts t :=
  MessageReader.awaits_start h.parser h.isError h.isRequestComplete hm

end Clientconnection

namespace APIconnection

theorem handleEvent_receiving {c : APIconnection L} (hc : c.state = .receiving) {ev : EpollEvent}
    (hev : ev.NoError) (recvs : List RecvResult) :
    c.handleEvent ev recvs [] = receiver.receive { c with recvBuffer := .cleared } recvs := by
  rw [handleEvent, if_neg (by simp [show ev.has epollErr = false from hev]), hc]

def reader (L : Llhttp) : MessageReader L (APIconnection L) HttpResponse where
  receiver := receiver
  progress c := ⟨c.parser, c.response, c.isError, c.isRequestComplete⟩
  feed := HttpResponse.feed
  handle c ev recvs := c.handleEvent ev recvs []
  Reading c := c.state = .receiving
  Reports := EpollEvent.NoError

theorem reader_lawful (L : Llhttp) : (reader L).Lawful where
  parseFailed _ := rfl
  complete _ := rfl
  execute c chunk ts t hok hread := by
    refine MessageReader.progress_execute (A := reader L) parsing_lawful (fun _ => rfl)
      (fun _ _ => rfl) (fun _ _ => rfl) (fun c token => ?_) hok hread
    rcases token with n | ⟨kind, b⟩
    · cases n <;> simp [reader, MessageReader.advance, Settings.feed, parsing, settings, onNotice,
        HttpResponse.feed]
    · simp [reader, MessageReader.advance, Settings.feed, parsing, settings, HttpResponse.feed]
  clear _ := rfl
  finish _ := rfl
  fail _ _ := rfl
  handle c ev recvs hc hev := handleEvent_receiving hc hev recvs
  reading_execute c chunk hc := (execute_state c chunk).trans hc
  reading_clear _ hc := hc

theorem Pristine.awaits {c : APIconnection L} (h : c.Pristine) {msg : Bytes} {ts : List Token}
    {t : L.State} (hm : L.message L.init msg = some (ts, t)) : (reader L).Awaits c msg ts t :=
  MessageReader.awaits_start h.parser h.isError h.isRequestComplete hm

end APIconnection

/-! ## Fragments -/

/-- A data callback with nothing in it does nothing. -/
def Settings.SkipsEmpty (S : Settings σ) : Prop := ∀ c kind, S.span c kind [] = c

theorem Settings.call_tokens {S : Settings σ} (hS : S.Appends) (hnil : S.SkipsEmpty) (c : σ)
    (call : LlCall) : S.call c call = call.tokens.foldl S.feed c := by
  cases call with
  | notice n => rfl
  | data kind bytes =>
      show S.span c kind bytes = (bytes.map (Token.byte kind)).foldl S.feed c
      induction bytes generalizing c with
      | nil => exact hnil c kind
      | cons b bytes ih =>
          rw [List.map_cons, List.foldl_cons, ← ih]
          exact (hS.span_span c kind [b] bytes).symm

/-- However the spans are divided into callbacks, their effect is that of the tokens. -/
theorem Settings.calls_tokens {S : Settings σ} (hS : S.Appends) (hnil : S.SkipsEmpty) (c : σ)
    (calls : List LlCall) :
    calls.foldl S.call c = (calls.flatMap LlCall.tokens).foldl S.feed c := by
  induction calls generalizing c with
  | nil => rfl
  | cons call calls ih =>
      rw [List.foldl_cons, List.flatMap_cons, List.foldl_append, ih,
        Settings.call_tokens hS hnil]

/-- `llhttp_execute` on a chunk within one message, with its spans in any fragments. -/
theorem Parsing.Lawful.execute_fragments {P : Parsing L σ} (hP : P.Lawful)
    (hnil : P.settings.SkipsEmpty) {c : σ} {chunk : Chunk} {calls : List LlCall} {t : L.State}
    (hc : L.isError (P.parser c) = false)
    (h : L.Reads (P.parser c) chunk.bytes (calls.flatMap LlCall.tokens) t) :
    P.setParser (calls.foldl P.settings.call (P.write c chunk)) t = P.execute c chunk := by
  rw [hP.execute_reads hc h, Settings.calls_tokens hP.appends hnil]

theorem Clientconnection.settings_skipsEmpty : (settings (L := L)).SkipsEmpty := by
  intro c kind
  cases kind <;> simp [settings, HttpRequest.append]

theorem APIconnection.settings_skipsEmpty : (settings (L := L)).SkipsEmpty := by
  intro c kind
  cases kind <;> simp [settings, HttpResponse.append]

/-! ## A parser for responses -/

inductive ReplyPhase
  | start
  | protocol
  | version
  | code
  | status
  | lineEnd
  | fieldStart (pending : Bool)
  | field
  | valueStart
  | value
  | valueEnd
  | headEnd
  | body
  | identity
  | between
  | failed
deriving DecidableEq

/-- Where the parser is, and the bytes of the body still to come if it has a length. -/
structure ReplyState where
  phase : ReplyPhase
  left : Option ℕ
deriving DecidableEq

/-- The reactions of llhttp on a response whose only header field may be `Content-Length`. Without
    it the body goes on until the connection is closed. -/
def ReplyState.react (s : ReplyState) (b : UInt8) : Reaction ReplyState :=
  let cr : UInt8 := 13
  let lf : UInt8 := 10
  let space : UInt8 := 32
  let quiet (next : ReplyPhase) : Reaction ReplyState := ⟨[], none, [], ⟨next, s.left⟩⟩
  let inSpan (kind : SpanKind) (next : ReplyPhase) : Reaction ReplyState :=
    ⟨[], some kind, [], ⟨next, s.left⟩⟩
  let digit : ReplyState := ⟨.value, some (s.left.getD 0 * 10 + (b.toNat - 48))⟩
  match s.phase with
  | .start => if b = 72 then ⟨[.messageBegin], none, [], ⟨.protocol, none⟩⟩ else quiet .failed
  | .protocol => if b = 47 then quiet .version else quiet .protocol
  | .version => if b = space then quiet .code else inSpan .version .version
  | .code => if b = space then quiet .status else quiet .code
  | .status => if b = cr then quiet .lineEnd else inSpan .status .status
  | .lineEnd => if b = lf then quiet (.fieldStart false) else quiet .failed
  | .fieldStart pending =>
      let done : List Notice := if pending then [.headerValueComplete] else []
      if b = cr then ⟨done, none, [], ⟨.headEnd, s.left⟩⟩
      else ⟨done, some .headerField, [], ⟨.field, s.left⟩⟩
  | .field => if b = 58 then quiet .valueStart else inSpan .headerField .field
  | .valueStart =>
      if b = space then quiet .valueStart
      else if b = cr then quiet .valueEnd
      else ⟨[], some .headerValue, [], digit⟩
  | .value => if b = cr then quiet .valueEnd else ⟨[], some .headerValue, [], digit⟩
  | .valueEnd => if b = lf then quiet (.fieldStart true) else quiet .failed
  | .headEnd =>
      if b = lf then
        match s.left with
        | none => ⟨[], none, [.headersComplete], ⟨.identity, none⟩⟩
        | some 0 => ⟨[], none, [.headersComplete, .messageComplete], ⟨.between, none⟩⟩
        | some (n + 1) => ⟨[], none, [.headersComplete], ⟨.body, some (n + 1)⟩⟩
      else quiet .failed
  | .body =>
      match s.left with
      | some (n + 2) => ⟨[], some .body, [], ⟨.body, some (n + 1)⟩⟩
      | _ => ⟨[], some .body, [.messageComplete], ⟨.between, none⟩⟩
  | .identity => inSpan .body .identity
  | .between => quiet .between
  | .failed => quiet .failed

def replyParser : Llhttp where
  State := ReplyState
  init := ⟨.start, none⟩
  isError s := s.phase = .failed
  init_ok := rfl
  restarts s b := s.phase = .between && b != 13 && b != 10
  restart _ := ⟨.start, none⟩
  react := ReplyState.react

def okReply : Bytes := ascii "HTTP/1.1 200 OK\r\nContent-Length: 2\r\n\r\nhi"

/-- `recv` delivers the bytes of a reply from `start` up to `stop`. -/
def replyArrival (reply : Bytes) (start stop : ℕ)
    (h : slice reply start stop ≠ [] ∧ (slice reply start stop).length ≤ recvBufferSize) :
    RecvResult :=
  .data ⟨slice reply start stop, h.1, h.2⟩

/-! ## The law -/

/-- **Assembly does not depend on the chunking.** A message that is alone on its connection is
    delivered once, in the event with its last byte, and the object holds what its tokens say; the
    same object results when the spans of a chunk are reported in other fragments. -/
theorem message_assembled (Lq Lr : Llhttp) :
    (∀ msg ts t, Lq.message Lq.init msg = some (ts, t) → HeadersClosed ts →
      ∀ c : Clientconnection Lq, c.Pristine →
      ∀ arrivals, (∀ a ∈ arrivals, a.1.Readable) → Delivered msg arrivals →
        CalledAtEnd
          (fun c' => c'.isError = false ∧ c'.request = requestOf ts ∧ ∀ name,
            c'.request.headers.lookup name = lastValue name (headerPairs [] [] ts))
          (receipts (fun c ev recvs => c.handleEvent ev recvs []) c arrivals)) ∧
    (∀ msg ts t, Lr.message Lr.init msg = some (ts, t) → HeadersClosed ts →
      ∀ c : APIconnection Lr, c.Pristine → c.state = .receiving →
      ∀ arrivals, (∀ a ∈ arrivals, a.1.NoError) → Delivered msg arrivals →
        CalledAtEnd
          (fun c' => c'.isError = false ∧ c'.response = responseOf ts ∧ ∀ name,
            c'.response.headers.lookup name = lastValue name (headerPairs [] [] ts))
          (receipts (fun c ev recvs => c.handleEvent ev recvs []) c arrivals)) ∧
    (∀ (c : Clientconnection Lq) (chunk : Chunk) (calls : List LlCall) t,
      Lq.isError c.parser = false →
      Lq.Reads c.parser chunk.bytes (calls.flatMap LlCall.tokens) t →
        c.executeCalls chunk calls t = c.execute chunk) ∧
    (∀ (c : APIconnection Lr) (chunk : Chunk) (calls : List LlCall) t,
      Lr.isError c.parser = false →
      Lr.Reads c.parser chunk.bytes (calls.flatMap LlCall.tokens) t →
        c.executeCalls chunk calls t = c.execute chunk) := by
  refine ⟨?_, ?_, fun _ _ _ _ hc h => Clientconnection.parsing_lawful.execute_fragments
    Clientconnection.settings_skipsEmpty hc h, fun _ _ _ _ hc h =>
    APIconnection.parsing_lawful.execute_fragments APIconnection.settings_skipsEmpty hc h⟩
  · intro msg ts t hm hclosed c hc arrivals hev hdel
    obtain ⟨hsilent, r, hr, hcount, hp⟩ := MessageReader.receipts_message
      (Clientconnection.reader_lawful Lq) trivial (hc.awaits hm) hev hdel
    have hrequest : r.conn.request = requestOf ts := by
      have hfed : r.conn.request = ts.foldl HttpRequest.feed c.request :=
        congrArg Progress.message hp
      rw [hfed, hc.request, feed_requestOf hclosed]
    refine ⟨hsilent, r, hr, hcount, ?_, hrequest, ?_⟩
    · exact (congrArg Progress.isError hp).trans hc.isError
    · intro name
      rw [hrequest]
      exact fieldMap_lookup _ name
  · intro msg ts t hm hclosed c hc hstate arrivals hev hdel
    obtain ⟨hsilent, r, hr, hcount, hp⟩ := MessageReader.receipts_message
      (APIconnection.reader_lawful Lr) hstate (hc.awaits hm) hev hdel
    have hresponse : r.conn.response = responseOf ts := by
      have hfed : r.conn.response = ts.foldl HttpResponse.feed c.response :=
        congrArg Progress.message hp
      rw [hfed, hc.response, feed_responseOf hclosed]
    refine ⟨hsilent, r, hr, hcount, ?_, hresponse, ?_⟩
    · exact (congrArg Progress.isError hp).trans hc.isError
    · intro name
      rw [hresponse]
      exact fieldMap_lookup _ name

/-- What `getRequest` and `okReply` are parsed into. -/
def getTokens : List Token := ((headParser.message .first getRequest).map Prod.fst).getD []

def okTokens : List Token := ((replyParser.message ⟨.start, none⟩ okReply).map Prod.fst).getD []

/-- The request in two chunks and three events. -/
def cutArrivals : List Arrival :=
  [(readable, cutRequest.take 1), (readable, []), (readable, cutRequest.drop 2)]

/-- The response cut in its header's value and in its body. -/
def replyArrivals : List Arrival :=
  [(readable, [replyArrival okReply 0 33 (by decide +kernel),
      replyArrival okReply 33 39 (by decide +kernel)]),
    (readable, [replyArrival okReply 39 40 (by decide +kernel)])]

def twoBytes : Chunk := ⟨ascii "GE", by decide, by decide⟩

/-- A request and a response in pieces, and two bytes of a method in two fragments. -/
theorem message_assembled_cut :
    CalledAtEnd
      (fun c' => c'.isError = false ∧ c'.request = requestOf getTokens ∧ ∀ name,
        c'.request.headers.lookup name = lastValue name (headerPairs [] [] getTokens))
      (receipts (fun c ev recvs => c.handleEvent ev recvs [])
        (.new 5 "c" : Clientconnection headParser) cutArrivals) ∧
    CalledAtEnd
      (fun c' => c'.isError = false ∧ c'.response = responseOf okTokens ∧ ∀ name,
        c'.response.headers.lookup name = lastValue name (headerPairs [] [] okTokens))
      (receipts (fun c ev recvs => c.handleEvent ev recvs [])
        ({ APIconnection.new "" 5 with state := .receiving } : APIconnection replyParser)
        replyArrivals) ∧
    (Clientconnection.new 5 "c" : Clientconnection headParser).executeCalls twoBytes
        [.notice .messageBegin, .data .method [71], .data .method [69]] .method =
      (Clientconnection.new 5 "c" : Clientconnection headParser).execute twoBytes := by
  have hget : (headParser.message headParser.init getRequest).map Prod.fst = some getTokens := by
    decide +kernel
  have hok : (replyParser.message replyParser.init okReply).map Prod.fst = some okTokens := by
    decide +kernel
  obtain ⟨⟨_, t⟩, hget, rfl⟩ := Option.map_eq_some_iff.1 hget
  obtain ⟨⟨_, t'⟩, hok, rfl⟩ := Option.map_eq_some_iff.1 hok
  refine ⟨?_, ?_, ?_⟩
  · exact (message_assembled headParser replyParser).1 _ _ _ hget (by decide +kernel) _
      ⟨rfl, rfl, rfl, rfl⟩ cutArrivals (by decide +kernel)
      ⟨by decide +kernel, by decide +kernel, by decide +kernel⟩
  · exact (message_assembled headParser replyParser).2.1 _ _ _ hok (by decide +kernel) _
      ⟨rfl, rfl, rfl, rfl⟩ rfl replyArrivals (by decide +kernel)
      ⟨by decide +kernel, by decide +kernel, by decide +kernel⟩
  · exact (message_assembled headParser replyParser).2.2.1 _ twoBytes _ _ rfl
      (.cons rfl rfl (.cons rfl rfl (.nil _)))

end FiberConn
