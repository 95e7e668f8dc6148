import FiberConn.RequestStream

set_option autoImplicit false

/-! # Proofs about request streams

A request that arrives alone is delivered unchanged however the kernel cuts it: `execFrom_append`
makes the receive loop a fold over tokens, and the fold builds what `decode` says. A second request
never gets that far. On its first byte llhttp calls `on_reset`, which clears the receive buffer
llhttp is parsing in place, so the byte the parser reads next is a NUL. -/

namespace FiberConn

variable {L : Llhttp}

/-! ## Messages and reading -/

namespace Llhttp

theorem Reads.isError {s t : L.State} {bs : Bytes} {ts : List Token} (h : L.Reads s bs ts t)
    (hs : L.isError s = false) : L.isError t = false := by
  induction h with
  | nil s => exact hs
  | cons hr he h ih => exact ih he

/-- Reading can stop and go on anywhere. -/
theorem Reads.split {s t : L.State} {xs ys : Bytes} {ts : List Token}
    (h : L.Reads s (xs ++ ys) ts t) :
    ∃ ts₁ ts₂ s', ts = ts₁ ++ ts₂ ∧ L.Reads s xs ts₁ s' ∧ L.Reads s' ys ts₂ t := by
  induction xs generalizing s ts with
  | nil => exact ⟨[], ts, s, rfl, .nil s, h⟩
  | cons b xs ih =>
      cases h with
      | cons hr he h =>
          obtain ⟨ts₁, ts₂, s', rfl, hxs, hys⟩ := ih h
          exact ⟨_ ++ ts₁, ts₂, s', (List.append_assoc _ _ _).symm, .cons hr he hxs, hys⟩

theorem message_nil {s : L.State} : L.message s [] = none := rfl

/-- A message is read as a whole and says that it is complete. -/
theorem message_reads {s t : L.State} {bs : Bytes} {ts : List Token}
    (h : L.message s bs = some (ts, t)) :
    L.Reads s bs ts t ∧ .notice .messageComplete ∈ ts := by
  induction bs generalizing s ts with
  | nil => exact absurd h (by simp [message])
  | cons b bs ih =>
      rw [message] at h
      split at h
      · exact absurd h (by simp)
      next hok =>
      simp only [not_or, Bool.not_eq_true] at hok
      split at h
      · next hlast =>
          rw [Option.ite_none_right_eq_some] at h
          obtain ⟨rfl, h⟩ := h
          obtain ⟨rfl, rfl⟩ := Prod.mk.inj (Option.some.inj h)
          have hread := Reads.cons hok.1 hok.2 (.nil _)
          rw [List.append_nil] at hread
          exact ⟨hread, hlast⟩
      · obtain ⟨m, hm, hp⟩ := Option.map_eq_some_iff.1 h
        obtain ⟨rfl, rfl⟩ := Prod.mk.inj hp
        obtain ⟨hread, hmem⟩ := ih hm
        exact ⟨.cons hok.1 hok.2 hread, List.mem_append_right _ hmem⟩

/-- A proper prefix of a message is read without completing it, and the rest of it is a message. -/
theorem message_append {s t : L.State} {xs ys : Bytes} {ts : List Token}
    (h : L.message s (xs ++ ys) = some (ts, t)) (hys : ys ≠ []) :
    ∃ ts₁ ts₂ s', ts = ts₁ ++ ts₂ ∧ L.Reads s xs ts₁ s' ∧
      .notice .messageComplete ∉ ts₁ ∧ L.message s' ys = some (ts₂, t) := by
  induction xs generalizing s ts with
  | nil => exact ⟨[], ts, s, rfl, .nil s, by simp, h⟩
  | cons b xs ih =>
      rw [List.cons_append, message] at h
      split at h
      · exact absurd h (by simp)
      next hok =>
      simp only [not_or, Bool.not_eq_true] at hok
      split at h
      · rw [if_neg (by simp [hys])] at h
        exact absurd h (by simp)
      next hnot =>
      obtain ⟨m, hm, hp⟩ := Option.map_eq_some_iff.1 h
      obtain ⟨rfl, rfl⟩ := Prod.mk.inj hp
      obtain ⟨ts₁, ts₂, s', hts, hread, hno, hrest⟩ := ih hm
      refine ⟨_ ++ ts₁, ts₂, s', by rw [hts, List.append_assoc], .cons hok.1 hok.2 hread, ?_, hrest⟩
      exact fun hmem => (List.mem_append.1 hmem).elim hnot hno

/-- **A buffer that goes on into the next message.** `on_reset` clears it, the parser reads a NUL
    where the message begins, and that is an error. -/
theorem execute_restarts {σ : Type} {S : Settings σ} (hS : S.Appends)
    (hreset : ∀ c i, (S.buffer (S.reset c)).getD i 0 = 0) (hnul : L.RejectsNul) {s t : L.State}
    {c : σ} {xs later : Bytes} {b : UInt8} {ts : List Token} (hs : L.isError s = false)
    (h : L.Reads s xs ts t) (hbuf : S.buffer c = xs ++ b :: later) (hb : L.restarts t b = true)
    (n : ℕ) : L.isError (L.execute S s c (xs.length + (n + 1))).1 = true := by
  have hdrop : (S.buffer c).drop 0 = xs ++ b :: later := by rw [List.drop_zero, hbuf]
  -- up to the next message the buffer is what `recv` has written
  obtain ⟨c', span, hexec, -, hkept⟩ := execFrom_append hS h (n + 1) 0 c none (by simp) hdrop
  have hat : (S.buffer c').getD (0 + xs.length) 0 = b := by
    have hrest : (S.buffer c').drop (0 + xs.length) = b :: [] ++ later := by
      rw [hkept, Nat.zero_add, hbuf, List.drop_left]
      rfl
    exact (drop_eq_cons hrest).2.1
  have herr := hnul t b hb
  rw [Llhttp.execute, hs, if_neg Bool.false_ne_true, hexec, Llhttp.execFrom]
  simp only [hat, hb, if_true, hreset, herr]

end Llhttp

/-- Every byte of a cleared buffer is 0. -/
theorem RecvBuffer.getD_cleared (i : ℕ) : RecvBuffer.cleared.bytes.getD i 0 = 0 := by
  show (List.replicate recvBufferSize (0 : UInt8)).getD i 0 = 0
  rw [List.getD_eq_getElem?_getD, List.getElem?_replicate]
  split <;> rfl

/-! ## Feeding tokens to the request -/

/-- What one token does to the request. -/
def HttpRequest.feed (r : HttpRequest) : Token → HttpRequest
  | .notice .headerValueComplete => r.endHeader
  | .notice _ => r
  | .byte kind b => r.append [b] kind

theorem feed_content (r : HttpRequest) (ts : List Token) :
    (ts.foldl HttpRequest.feed r).content =
      ⟨r.method ++ bytesOf .method ts, r.url ++ bytesOf .url ts, r.version ++ bytesOf .version ts,
        (headerPairs r.key r.value ts).foldl (fun m field => m.insert field.1 field.2) r.headers,
        r.body ++ bytesOf .body ts⟩ := by
  induction ts generalizing r with
  | nil => simp [HttpRequest.content, bytesOf, headerPairs]
  | cons token ts ih =>
      rw [List.foldl_cons, ih]
      cases token with
      | notice n =>
          cases n <;>
            simp [HttpRequest.feed, HttpRequest.endHeader, bytesOf, headerPairs, List.foldl_cons]
      | byte kind b =>
          cases kind <;>
            simp [HttpRequest.feed, HttpRequest.append, bytesOf, headerPairs, List.append_assoc]

/-- The request object ends up saying what the message says. -/
theorem feed_empty (ts : List Token) :
    (ts.foldl HttpRequest.feed .empty).content = decode ts := by
  rw [feed_content]
  simp [HttpRequest.empty, decode]

namespace Clientconnection

/-- What tokens do to the connection object. -/
theorem foldl_feed (c : Clientconnection L) (ts : List Token) :
    ts.foldl settings.feed c =
      { c with
        request := ts.foldl HttpRequest.feed c.request
        isRequestComplete :=
          c.isRequestComplete || decide (.notice .messageComplete ∈ ts) } := by
  induction ts generalizing c with
  | nil => simp
  | cons token ts ih =>
      rw [List.foldl_cons, ih, List.foldl_cons]
      cases token with
      | notice n =>
          cases n <;> simp [Settings.feed, settings, onNotice, HttpRequest.feed]
      | byte kind b => simp [Settings.feed, settings, HttpRequest.feed]

/-- A chunk within one message. -/
theorem execute_reads {c : Clientconnection L} {chunk : Chunk} {ts : List Token} {t : L.State}
    (hc : L.isError c.parser = false) (h : L.Reads c.parser chunk.bytes ts t) :
    c.execute chunk =
      { c with
        parser := t
        recvBuffer := c.recvBuffer.write chunk
        request := ts.foldl HttpRequest.feed c.request
        isRequestComplete :=
          c.isRequestComplete || decide (.notice .messageComplete ∈ ts) } := by
  have hexec : c.execute chunk = parsing.setParser (ts.foldl settings.feed
      { c with recvBuffer := c.recvBuffer.write chunk }) t := parsing_lawful.execute_reads hc h
  rw [hexec, foldl_feed]
  rfl

/-- **A chunk that goes on into the next message** is an error. -/
theorem execute_restarts (hnul : L.RejectsNul) {c : Clientconnection L} {chunk : Chunk}
    {xs more : Bytes} {b : UInt8} {ts : List Token} {t : L.State}
    (hc : L.isError c.parser = false) (h : L.Reads c.parser xs ts t)
    (hchunk : chunk.bytes = xs ++ b :: more) (hb : L.restarts t b = true) :
    L.isError (c.execute chunk).parser = true := by
  have hbuf : settings.buffer { c with recvBuffer := c.recvBuffer.write chunk } =
      xs ++ b :: (more ++ c.recvBuffer.bytes.drop chunk.bytes.length) := by
    show chunk.bytes ++ c.recvBuffer.bytes.drop chunk.bytes.length = _
    simp only [hchunk, List.append_assoc, List.cons_append]
  have hlen : chunk.bytes.length = xs.length + (more.length + 1) := by simp [hchunk]
  have herr := Llhttp.execute_restarts settings_appends (fun _ => RecvBuffer.getD_cleared) hnul hc h
    hbuf hb more.length
  rwa [← hlen] at herr

/-! ## Receiving one message -/

/-- `c` has read the first part of a message that says `want`: `rest` is still to come, and after it
    the parser is in state `t`. -/
structure Awaiting (c : Clientconnection L) (rest : Bytes) (want : Content) (t : L.State) :
    Prop where
  no_error : c.isError = false
  incomplete : c.isRequestComplete = false
  parser_ok : L.isError c.parser = false
  message : ∃ ts, L.message c.parser rest = some (ts, t) ∧
    (ts.foldl HttpRequest.feed c.request).content = want

theorem Awaiting.rest_ne_nil {c : Clientconnection L} {rest : Bytes} {want : Content} {t : L.State}
    (h : c.Awaiting rest want t) : rest ≠ [] := by
  obtain ⟨ts, hm, -⟩ := h.message
  rintro rfl
  exact absurd hm (by simp [Llhttp.message_nil])

theorem Awaiting.cleared {c : Clientconnection L} {rest : Bytes} {want : Content} {t : L.State}
    (h : c.Awaiting rest want t) : Awaiting { c with recvBuffer := .cleared } rest want t :=
  ⟨h.no_error, h.incomplete, h.parser_ok, h.message⟩

/-- How the receive loop leaves such a connection, when `next` comes after the message: with some of
    the message still to come, with the message delivered, or with a parse error in `next`. -/
inductive ReceiveOutcome (want : Content) (t : L.State) (next : Bytes)
    (r : Receipt (Clientconnection L)) : Prop
  | waits {rest : Bytes} (hcb : CallsBack r.effects = false) (h : r.conn.Awaiting rest want t)
      (hdata : received r.unread = rest ++ next)
  | delivers (hcb : CallsBack r.effects = true) (hok : r.conn.isError = false)
      (hwant : r.conn.request.content = want) (hp : r.conn.parser = t)
      (hdata : received r.unread = next)
  | breaks (hcb : CallsBack r.effects = true) (herr : r.conn.isError = true) (hnext : next ≠ [])

theorem receive_outcome (hnul : L.RejectsNul) {c : Clientconnection L} {rest next : Bytes}
    {want : Content} {t : L.State} (h : c.Awaiting rest want t) {recvs : List RecvResult}
    (hlive : ∀ r ∈ recvs, r.Live) (hdata : received recvs = rest ++ next)
    (hnext : ∀ b ∈ next.head?, L.restarts t b = true) :
    ReceiveOutcome want t next (c.receive recvs) := by
  induction recvs generalizing c rest with
  | nil => exact .waits rfl h hdata
  | cons r recvs ih =>
      obtain ⟨hr, hrecvs⟩ := List.forall_mem_cons.1 hlive
      cases r with
      | eof => exact absurd hr (by simp [RecvResult.Live])
      | fail errno => exact .waits rfl h hdata
      | data chunk =>
          have hsplit : chunk.bytes ++ received recvs = rest ++ next := hdata
          obtain ⟨ts, hm, hwant⟩ := h.message
          rw [receive_data]
          rcases List.append_eq_append_iff.1 hsplit with
            ⟨rest', hrest, hmore⟩ | ⟨beyond, hchunk, hbeyond⟩
          · -- the chunk ends within the message or with it
            by_cases hend : rest' = []
            · rw [hend, List.append_nil] at hrest
              obtain ⟨hread, hmem⟩ := Llhttp.message_reads hm
              have hexec := execute_reads h.parser_ok (hrest ▸ hread)
              have hok := hread.isError h.parser_ok
              rw [hexec, if_neg (by simp [hok]), if_pos (by simp [hmem])]
              exact .delivers rfl h.no_error hwant rfl (by rw [hmore, hend, List.nil_append])
            · rw [hrest] at hm
              obtain ⟨ts₁, ts₂, s', rfl, hread, hno, hm'⟩ := Llhttp.message_append hm hend
              have hexec := execute_reads h.parser_ok hread
              have hok := hread.isError h.parser_ok
              rw [hexec, if_neg (by simp [hok]), if_neg (by simp [hno, h.incomplete])]
              rw [List.foldl_append] at hwant
              have hc' : Awaiting { c with
                  parser := s'
                  recvBuffer := .cleared
                  request := ts₁.foldl HttpRequest.feed c.request
                  isRequestComplete := c.isRequestComplete ||
                    decide (.notice .messageComplete ∈ ts₁) } rest' want t :=
                ⟨h.no_error, by simp [hno, h.incomplete], hok, ts₂, hm', hwant⟩
              cases ih hc' hrecvs hmore with
              | waits hcb h hdata => exact .waits hcb h hdata
              | delivers hcb hok hwant hp hdata => exact .delivers hcb hok hwant hp hdata
              | breaks hcb herr hnext => exact .breaks hcb herr hnext
          · cases beyond with
            | nil =>
                -- the same case as above: the chunk ends with the message
                rw [List.append_nil] at hchunk
                obtain ⟨hread, hmem⟩ := Llhttp.message_reads hm
                have hexec := execute_reads h.parser_ok (hchunk ▸ hread)
                have hok := hread.isError h.parser_ok
                rw [hexec, if_neg (by simp [hok]), if_pos (by simp [hmem])]
                exact .delivers rfl h.no_error hwant rfl (by rw [hbeyond, List.nil_append])
            | cons b more =>
                have hb : L.restarts t b = true := hnext b (by rw [hbeyond]; rfl)
                have herr := execute_restarts hnul h.parser_ok (Llhttp.message_reads hm).1 hchunk hb
                rw [if_pos herr]
                exact .breaks rfl rfl (by rw [hbeyond]; simp)

/-! ## Serving -/

theorem handleEvent_readable {c : Clientconnection L} {ev : EpollEvent} (hev : ev.Readable)
    (recvs : List RecvResult) (sends : List SendResult) :
    c.handleEvent ev recvs sends = receive { c with recvBuffer := .cleared } recvs := by
  rw [handleEvent, if_neg (by simp [hev.1]), if_pos hev.2]

/-- Each event uses up at least one answer of `recv`. -/
theorem receive_unread (c : Clientconnection L) {r : RecvResult} {recvs : List RecvResult} {n : ℕ}
    (hlive : ∀ x ∈ r :: recvs, x.Live) (hlen : (r :: recvs).length ≤ n + 1) :
    (∀ x ∈ (c.receive (r :: recvs)).unread, x.Live) ∧
      (c.receive (r :: recvs)).unread.length ≤ n := by
  have hsuf := Receiver.receive_unread (R := receiver) c r recvs
  exact ⟨fun x hx => hlive x (List.mem_cons_of_mem r (hsuf.subset hx)),
    hsuf.length_le.trans (Nat.le_of_succ_le_succ hlen)⟩

/-- With nothing left to read there is no callback. -/
theorem serve_silent {c : Clientconnection L} {evs : List EpollEvent} {recvs : List RecvResult}
    (hevs : ∀ ev ∈ evs, ev.Readable) (hlive : ∀ r ∈ recvs, r.Live) (hdata : received recvs = []) :
    c.serve evs recvs = [] := by
  induction evs generalizing c recvs with
  | nil => rfl
  | cons ev evs ih =>
      obtain ⟨hev, hevs⟩ := List.forall_mem_cons.1 hevs
      rw [serve, handleEvent_readable hev]
      cases recvs with
      | nil => exact @ih _ [] hevs (by simp) rfl
      | cons r recvs =>
          obtain ⟨hr, hrecvs⟩ := List.forall_mem_cons.1 hlive
          cases r with
          | data chunk => exact absurd (List.append_eq_nil_iff.1 hdata).1 chunk.nonempty
          | eof => exact absurd hr (by simp [RecvResult.Live])
          | fail errno => exact ih hevs hrecvs hdata

/-- **One request** is delivered unchanged, once, however the kernel cuts it. -/
theorem serve_one (hnul : L.RejectsNul) {c : Clientconnection L} {rest : Bytes} {want : Content}
    {t : L.State} (h : c.Awaiting rest want t) {evs : List EpollEvent} {recvs : List RecvResult}
    (hevs : ∀ ev ∈ evs, ev.Readable) (hlive : ∀ r ∈ recvs, r.Live) (hdata : received recvs = rest)
    (hlen : recvs.length ≤ evs.length) : c.serve evs recvs = [(false, want)] := by
  induction evs generalizing c rest recvs with
  | nil =>
      obtain rfl := List.length_eq_zero_iff.1 (Nat.le_zero.1 hlen)
      exact absurd hdata.symm h.rest_ne_nil
  | cons ev evs ih =>
      obtain ⟨hev, hevs⟩ := List.forall_mem_cons.1 hevs
      cases recvs with
      | nil => exact absurd hdata.symm h.rest_ne_nil
      | cons r recvs =>
          rw [serve, handleEvent_readable hev]
          obtain ⟨hlive', hlen'⟩ := receive_unread { c with recvBuffer := .cleared } hlive hlen
          have hdata' : received (r :: recvs) = rest ++ [] := by rw [hdata, List.append_nil]
          cases receive_outcome hnul h.cleared hlive hdata' (by simp) with
          | waits hcb h hrest =>
              rw [hcb, if_neg Bool.false_ne_true]
              exact ih h hevs hlive' (by simpa using hrest) hlen'
          | delivers hcb hok hwant hp hrest =>
              rw [hcb, if_pos rfl, hok, hwant, serve_silent hevs hlive' hrest]
          | breaks hcb herr hnext => exact absurd rfl hnext

/-- After a complete message the first byte of the next one is an error. -/
theorem serve_breaks (hnul : L.RejectsNul) {c : Clientconnection L} {b : UInt8} {more : Bytes}
    (hc : L.isError c.parser = false) (hb : L.restarts c.parser b = true) {evs : List EpollEvent}
    {recvs : List RecvResult} (hevs : ∀ ev ∈ evs, ev.Readable) (hlive : ∀ r ∈ recvs, r.Live)
    (hdata : received recvs = b :: more) (hlen : recvs.length ≤ evs.length) :
    ∃ x, (true, x) ∈ c.serve evs recvs := by
  induction evs generalizing c recvs with
  | nil =>
      obtain rfl := List.length_eq_zero_iff.1 (Nat.le_zero.1 hlen)
      exact absurd hdata (by simp [received])
  | cons ev evs ih =>
      obtain ⟨hev, hevs⟩ := List.forall_mem_cons.1 hevs
      rw [serve, handleEvent_readable hev]
      cases recvs with
      | nil => exact absurd hdata (by simp [received])
      | cons r recvs =>
          obtain ⟨hr, hrecvs⟩ := List.forall_mem_cons.1 hlive
          cases r with
          | eof => exact absurd hr (by simp [RecvResult.Live])
          | fail errno =>
              have hlen' : recvs.length ≤ evs.length := Nat.le_of_succ_le_succ hlen
              exact ih (c := { c with recvBuffer := .cleared }) hc hb hevs hrecvs hdata hlen'
          | data chunk =>
              obtain ⟨more', hchunk⟩ : ∃ more', chunk.bytes = [] ++ b :: more' := by
                obtain ⟨b', more', hchunk⟩ := List.exists_cons_of_ne_nil chunk.nonempty
                have hdata' : chunk.bytes ++ received recvs = b :: more := hdata
                rw [hchunk, List.cons_append, List.cons.injEq] at hdata'
                exact ⟨more', by rw [hchunk, hdata'.1, List.nil_append]⟩
              have herr :=
                @execute_restarts L hnul { c with recvBuffer := .cleared } chunk _ _ _ _ _
                  hc (.nil _) hchunk hb
              rw [receive_data, if_pos herr]
              exact ⟨_, List.mem_cons_self⟩

/-- With a second message there is a callback with a parse error. -/
theorem serve_two (hnul : L.RejectsNul) {c : Clientconnection L} {rest more : Bytes} {b : UInt8}
    {want : Content} {t : L.State} (h : c.Awaiting rest want t) (ht : L.isError t = false)
    (hb : L.restarts t b = true) {evs : List EpollEvent} {recvs : List RecvResult}
    (hevs : ∀ ev ∈ evs, ev.Readable) (hlive : ∀ r ∈ recvs, r.Live)
    (hdata : received recvs = rest ++ b :: more) (hlen : recvs.length ≤ evs.length) :
    ∃ x, (true, x) ∈ c.serve evs recvs := by
  induction evs generalizing c rest recvs with
  | nil =>
      obtain rfl := List.length_eq_zero_iff.1 (Nat.le_zero.1 hlen)
      exact absurd hdata (by simp [received])
  | cons ev evs ih =>
      obtain ⟨hev, hevs⟩ := List.forall_mem_cons.1 hevs
      cases recvs with
      | nil => exact absurd hdata (by simp [received])
      | cons r recvs =>
          rw [serve, handleEvent_readable hev]
          obtain ⟨hlive', hlen'⟩ := receive_unread { c with recvBuffer := .cleared } hlive hlen
          cases receive_outcome hnul h.cleared hlive hdata (by simpa using hb) with
          | waits hcb h hrest =>
              rw [hcb, if_neg Bool.false_ne_true]
              exact ih h hevs hlive' hrest hlen'
          | delivers hcb hok hwant hp hrest =>
              rw [hcb, if_pos rfl]
              obtain ⟨x, hx⟩ := serve_breaks hnul (hp ▸ ht) (hp ▸ hb) hevs hlive' hrest hlen'
              exact ⟨x, List.mem_cons_of_mem _ hx⟩
          | breaks hcb herr hnext =>
              rw [hcb, if_pos rfl, herr]
              exact ⟨_, List.mem_cons_self⟩

end Clientconnection

open Clientconnection

/-- A new connection awaits the first message. -/
theorem awaiting_new {fd : ℤ} {id : String} {msg : Bytes} {ts : List Token} {t : L.State}
    (h : L.message L.init msg = some (ts, t)) :
    (Clientconnection.new fd id : Clientconnection L).Awaiting msg (decode ts) t :=
  ⟨rfl, rfl, L.init_ok, ts, h, feed_empty ts⟩

/-- **Request stream fidelity** holds exactly for connections that carry at most one request. -/
theorem requests_delivered_iff (hnul : L.RejectsNul)
    {msgs : List Bytes} {reqs : List Content} (hreqs : L.requests msgs = some reqs)
    {recvs : List RecvResult} (hlive : ∀ r ∈ recvs, r.Live) (hdata : received recvs = msgs.flatten)
    {evs : List EpollEvent} (hevs : ∀ ev ∈ evs, ev.Readable) (hlen : recvs.length ≤ evs.length)
    (fd : ℤ) (id : String) :
    (Clientconnection.new fd id : Clientconnection L).serve evs recvs =
      reqs.map (fun req => (false, req)) ↔ reqs.length ≤ 1 := by
  cases msgs with
  | nil =>
      obtain rfl : [] = reqs := Option.some.inj hreqs
      simp [serve_silent hevs hlive hdata]
  | cons msg msgs =>
      obtain ⟨⟨ts, t⟩, hm, hrest⟩ := Option.bind_eq_some_iff.1 hreqs
      obtain ⟨later, hlater, rfl⟩ := Option.map_eq_some_iff.1 hrest
      have hawait := @awaiting_new L fd id _ _ _ hm
      cases msgs with
      | nil =>
          obtain rfl : [] = later := Option.some.inj hlater
          simp [serve_one hnul hawait hevs hlive (by simpa using hdata) hlen]
      | cons msg' msgs =>
          -- the second message begins with a byte the parser restarts on
          rw [Llhttp.following] at hlater
          split at hlater
          · next hhead =>
              obtain ⟨b, hb, hrestart⟩ := hhead
              obtain ⟨more, rfl⟩ := List.head?_eq_some_iff.1 hb
              obtain ⟨m, -, hlater⟩ := Option.bind_eq_some_iff.1 hlater
              obtain ⟨reqs, -, rfl⟩ := Option.map_eq_some_iff.1 hlater
              have ht := (Llhttp.message_reads hm).1.isError L.init_ok
              obtain ⟨x, hx⟩ := serve_two hnul hawait ht hrestart hevs hlive hdata hlen
              constructor
              · intro heq
                rw [heq] at hx
                obtain ⟨req, -, hreq⟩ := List.mem_map.1 hx
                exact absurd (Prod.mk.inj hreq).1 Bool.false_ne_true
              · intro hle
                exact absurd hle (by simp)
          · exact absurd hlater (by simp)

/-! ## A parser for requests without a body -/

inductive HeadState
  | first
  | method
  | url
  | protocol
  | version
  | lineEnd
  | fieldStart (pending : Bool)
  | field
  | valueStart
  | value
  | valueEnd
  | headEnd
  | between
  | failed
deriving DecidableEq

/-- The reactions of llhttp on the head of a request, which is all there is of a `GET` request. -/
def HeadState.react (s : HeadState) (b : UInt8) : Reaction HeadState :=
  let cr : UInt8 := 13
  let lf : UInt8 := 10
  let space : UInt8 := 32
  let quiet (next : HeadState) : Reaction HeadState := ⟨[], none, [], next⟩
  match s with
  | .first =>
      if b = cr ∨ b = lf then quiet .first
      else if 65 ≤ b ∧ b ≤ 90 then ⟨[.messageBegin], some .method, [], .method⟩
      else quiet .failed
  | .method =>
      if b = space then quiet .url
      else if 65 ≤ b ∧ b ≤ 90 then ⟨[], some .method, [], .method⟩
      else quiet .failed
  | .url => if b = space then quiet .protocol else ⟨[], some .url, [], .url⟩
  | .protocol => if b = 47 then quiet .version else quiet .protocol
  | .version => if b = cr then quiet .lineEnd else ⟨[], some .version, [], .version⟩
  | .lineEnd => if b = lf then quiet (.fieldStart false) else quiet .failed
  | .fieldStart pending =>
      let done : List Notice := if pending then [.headerValueComplete] else []
      if b = cr then ⟨done, none, [], .headEnd⟩ else ⟨done, some .headerField, [], .field⟩
  | .field => if b = 58 then quiet .valueStart else ⟨[], some .headerField, [], .field⟩
  | .valueStart =>
      if b = space then quiet .valueStart
      else if b = cr then quiet .valueEnd
      else ⟨[], some .headerValue, [], .value⟩
  | .value => if b = cr then quiet .valueEnd else ⟨[], some .headerValue, [], .value⟩
  | .valueEnd => if b = lf then quiet (.fieldStart true) else quiet .failed
  | .headEnd =>
      if b = lf then ⟨[], none, [.headersComplete, .messageComplete], .between⟩
      else quiet .failed
  | .between => quiet .between
  | .failed => quiet .failed

/-- A parser for requests that consist of their head. Between messages it skips line ends. -/
def headParser : Llhttp where
  State := HeadState
  init := .first
  isError s := s = .failed
  init_ok := rfl
  restarts s b := s = .between && b != 13 && b != 10
  restart _ := .first
  react := HeadState.react

theorem headParser_rejectsNul : headParser.RejectsNul := fun _ _ _ => rfl

def ascii (s : String) : Bytes := s.toList.map fun c => UInt8.ofNat c.toNat

def getRequest : Bytes := ascii "GET / HTTP/1.1\r\nHost: h\r\n\r\n"

/-- What it says. -/
def getContent : Content :=
  ⟨ascii "GET", ascii "/", ascii "1.1", (∅ : HeaderMap).insert (ascii "Host") (ascii "h"), []⟩

/-- `recv` delivers the bytes of `getRequest` from `start` up to `stop`. -/
def arrival (start stop : ℕ)
    (h : slice getRequest start stop ≠ [] ∧ (slice getRequest start stop).length ≤ recvBufferSize) :
    RecvResult :=
  .data ⟨slice getRequest start stop, h.1, h.2⟩

/-- The request cut in the middle of its URL line. -/
def cutRequest : List RecvResult :=
  [arrival 0 5 (by decide +kernel), .fail .eagain, arrival 5 27 (by decide +kernel)]

/-- The request in one chunk. -/
def wholeRequest : RecvResult := arrival 0 27 (by decide +kernel)

def readable : EpollEvent := ⟨epollIn, 5⟩

/-- One request in two chunks is delivered. -/
theorem requests_delivered_one :
    (Clientconnection.new 5 "c" : Clientconnection headParser).serve (.replicate 3 readable)
      cutRequest = [(false, getContent)] :=
  (requests_delivered_iff headParser_rejectsNul
    (show headParser.requests [getRequest] = some [getContent] by decide +kernel)
    (show ∀ r ∈ cutRequest, r.Live by simp [cutRequest, arrival, RecvResult.Live])
    (by decide +kernel) (show ∀ ev ∈ List.replicate 3 readable, ev.Readable by decide +kernel)
    (by decide) 5 "c").2 (by decide)

/-- **The second request is lost.** The peer sends the same request twice and each arrives in one
    chunk: the second callback sees a parse error and an empty request. -/
theorem second_request_lost :
    headParser.RejectsNul ∧
    headParser.requests [getRequest, getRequest] = some [getContent, getContent] ∧
    received [wholeRequest, wholeRequest] = [getRequest, getRequest].flatten ∧
    wholeRequest.Live ∧ readable.Readable ∧
    (Clientconnection.new 5 "c" : Clientconnection headParser).serve (.replicate 2 readable)
        [wholeRequest, wholeRequest] =
      [(false, getContent), (true, HttpRequest.empty.content)] ∧
    [(false, getContent), (true, HttpRequest.empty.content)] ≠
      [getContent, getContent].map fun req => (false, req) := by
  refine ⟨headParser_rejectsNul, ?_, ?_, trivial, ?_, ?_, ?_⟩ <;> decide +kernel

end FiberConn
