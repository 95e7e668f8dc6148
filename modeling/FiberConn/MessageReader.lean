import FiberConn.RequestStream.Proofs

set_option autoImplicit false

/-! # Objects that read messages

The receive loop for an object that parses with `L` into some message. `Progress` is all that
matters of such an object; a `MessageReader` is lawful when a chunk within one message has the
effect of its tokens. Then the loop uses up chunks without calling back as long as the message goes
on (`receive_part`), and ends at the chunk that completes it (`receive_last`). -/

namespace FiberConn

variable {L : Llhttp} {σ μ : Type}

def RecvResult.IsData : RecvResult → Prop
  | .data _ => True
  | _ => False

instance (r : RecvResult) : Decidable r.IsData := by
  cases r <;> unfold RecvResult.IsData <;> infer_instance

/-- The parser's state, the message so far and the two flags. -/
structure Progress (L : Llhttp) (μ : Type) where
  parser : L.State
  message : μ
  isError : Bool
  complete : Bool

structure MessageReader (L : Llhttp) (σ μ : Type) where
  receiver : Receiver σ
  progress : σ → Progress L μ
  feed : μ → Token → μ
  /-- `handleEvent`, on an event that calls no `send`. -/
  handle : σ → EpollEvent → List RecvResult → Receipt σ
  /-- The object is in a state, and the event of a kind, in which the handler reads. -/
  Reading : σ → Prop
  Reports : EpollEvent → Prop

namespace MessageReader

/-- Progress after the tokens `ts`, with the parser in state `t`. -/
def advance (A : MessageReader L σ μ) (p : Progress L μ) (ts : List Token) (t : L.State) :
    Progress L μ where
  parser := t
  message := ts.foldl A.feed p.message
  isError := p.isError
  complete := p.complete || decide (.notice .messageComplete ∈ ts)

structure Lawful (A : MessageReader L σ μ) : Prop where
  parseFailed : ∀ c, A.receiver.parseFailed c = L.isError (A.progress c).parser
  complete : ∀ c, A.receiver.complete c = (A.progress c).complete
  execute : ∀ c chunk ts t, L.isError (A.progress c).parser = false →
    L.Reads (A.progress c).parser chunk.bytes ts t →
    A.progress (A.receiver.execute c chunk) = A.advance (A.progress c) ts t
  clear : ∀ c, A.progress (A.receiver.clear c) = A.progress c
  finish : ∀ c, A.progress (A.receiver.finish c) = A.progress c
  fail : ∀ c description, (A.progress (A.receiver.fail c description)).isError = true
  handle : ∀ c ev recvs, A.Reading c → A.Reports ev →
    A.handle c ev recvs = A.receiver.receive (A.receiver.clear c) recvs
  reading_execute : ∀ c chunk, A.Reading c → A.Reading (A.receiver.execute c chunk)
  reading_clear : ∀ c, A.Reading c → A.Reading (A.receiver.clear c)

/-- The object has read the first part of a message; `rest` is still to come, with tokens `ts`. -/
structure Awaits (A : MessageReader L σ μ) (c : σ) (rest : Bytes) (ts : List Token) (t : L.State) :
    Prop where
  no_error : (A.progress c).isError = false
  incomplete : (A.progress c).complete = false
  parser_ok : L.isError (A.progress c).parser = false
  message : L.message (A.progress c).parser rest = some (ts, t)

variable {A : MessageReader L σ μ}

theorem advance_nil (p : Progress L μ) : A.advance p [] p.parser = p := by
  simp [advance]

theorem advance_advance (p : Progress L μ) (ts₁ ts₂ : List Token) (t₁ t₂ : L.State) :
    A.advance (A.advance p ts₁ t₁) ts₂ t₂ = A.advance p (ts₁ ++ ts₂) t₂ := by
  simp [advance, List.foldl_append, Bool.or_assoc]

/-- What is read without completing a message leaves it incomplete. -/
theorem advance_incomplete {p : Progress L μ} {ts : List Token} {t : L.State}
    (hp : p.complete = false) (hno : .notice .messageComplete ∉ ts) :
    (A.advance p ts t).complete = false := by
  simp [advance, hp, hno]

/-- An object whose callbacks feed each token to the message reads a chunk as its tokens. -/
theorem progress_execute {P : Parsing L σ} (hP : P.Lawful)
    (hparser : ∀ c, P.parser c = (A.progress c).parser)
    (hset : ∀ c t, A.progress (P.setParser c t) = { A.progress c with parser := t })
    (hwrite : ∀ c chunk, A.progress (P.write c chunk) = A.progress c)
    (hfeed : ∀ c token, A.progress (P.settings.feed c token) =
      A.advance (A.progress c) [token] (A.progress c).parser)
    {c : σ} {chunk : Chunk} {ts : List Token} {t : L.State}
    (hok : L.isError (A.progress c).parser = false)
    (hread : L.Reads (A.progress c).parser chunk.bytes ts t) :
    A.progress (P.execute c chunk) = A.advance (A.progress c) ts t := by
  have hfold (ts : List Token) (c : σ) : A.progress (ts.foldl P.settings.feed c) =
      A.advance (A.progress c) ts (A.progress c).parser := by
    induction ts generalizing c with
    | nil => exact (advance_nil _).symm
    | cons token ts ih =>
        rw [List.foldl_cons, ih, hfeed, advance_advance]
        rfl
  rw [← hparser] at hok hread
  rw [hP.execute_reads hok hread, hset, hfold, hwrite]
  rfl

/-- An object on which nothing has been received. -/
theorem awaits_start {c : σ} (hparser : (A.progress c).parser = L.init)
    (hok : (A.progress c).isError = false) (hcomplete : (A.progress c).complete = false)
    {msg : Bytes} {ts : List Token} {t : L.State} (hm : L.message L.init msg = some (ts, t)) :
    A.Awaits c msg ts t :=
  ⟨hok, hcomplete, hparser.symm ▸ L.init_ok, hparser.symm ▸ hm⟩

/-- **Chunks within a message** are read without a callback, and the loop goes on. -/
theorem receive_part (hA : A.Lawful) {c : σ} {recvs : List RecvResult}
    (hdata : ∀ r ∈ recvs, r.IsData) {ts : List Token} {t : L.State}
    (hp : (A.progress c).complete = false) (hok : L.isError (A.progress c).parser = false)
    (hread : L.Reads (A.progress c).parser (received recvs) ts t)
    (hno : .notice .messageComplete ∉ ts) (more : List RecvResult) :
    ∃ c', A.progress c' = A.advance (A.progress c) ts t ∧ (A.Reading c → A.Reading c') ∧
      A.receiver.receive c (recvs ++ more) =
        { A.receiver.receive c' more with
          effects := recvs.map .recv ++ (A.receiver.receive c' more).effects } := by
  induction recvs generalizing c ts with
  | nil =>
      cases hread with
      | nil => exact ⟨c, (advance_nil _).symm, id, rfl⟩
  | cons r recvs ih =>
      obtain ⟨hr, hrecvs⟩ := List.forall_mem_cons.1 hdata
      cases r with
      | eof => exact absurd hr (by simp [RecvResult.IsData])
      | fail errno => exact absurd hr (by simp [RecvResult.IsData])
      | data chunk =>
          obtain ⟨ts₁, ts₂, s, rfl, hread₁, hread₂⟩ := hread.split
          obtain ⟨hno₁, hno₂⟩ := not_or.1 (mt List.mem_append.2 hno)
          have hexec := hA.execute c chunk _ _ hok hread₁
          set parsed := A.receiver.execute c chunk with hparsed
          have hgood : A.receiver.parseFailed parsed = false := by
            rw [hA.parseFailed, hexec]
            exact hread₁.isError hok
          have hmore : A.receiver.complete parsed = false := by
            rw [hA.complete, hexec]
            exact advance_incomplete hp hno₁
          have hcleared : A.progress (A.receiver.clear parsed) =
              A.advance (A.progress c) ts₁ s := by rw [hA.clear, hexec]
          obtain ⟨c', hc', hreading, hloop⟩ := @ih (A.receiver.clear parsed) hrecvs ts₂
            (by rw [hcleared]; exact advance_incomplete hp hno₁)
            (by rw [hcleared]; exact hread₁.isError hok)
            (by rw [hcleared]; exact hread₂) hno₂
          refine ⟨c', by rw [hc', hcleared, advance_advance], ?_, ?_⟩
          · intro hc
            exact hreading (hA.reading_clear _ (hA.reading_execute c chunk hc))
          rw [List.cons_append, Receiver.receive]
          simp only [← hparsed, hgood, hmore, Bool.false_eq_true, if_false, hloop]
          rfl

theorem received_ne_nil {recvs : List RecvResult} (hne : recvs ≠ [])
    (hdata : ∀ r ∈ recvs, r.IsData) : received recvs ≠ [] := by
  obtain ⟨r, recvs, rfl⟩ := List.exists_cons_of_ne_nil hne
  cases r with
  | data chunk =>
      intro h
      exact chunk.nonempty (List.append_eq_nil_iff.1 h).1
  | eof => exact absurd (hdata _ List.mem_cons_self) (by simp [RecvResult.IsData])
  | fail errno => exact absurd (hdata _ List.mem_cons_self) (by simp [RecvResult.IsData])

/-- The calls of `recv` are no callbacks. -/
theorem recvs_silent (recvs : List RecvResult) :
    ∀ e ∈ recvs.map Effect.recv, ¬ e.IsCallback = true := by
  intro e he
  obtain ⟨r, -, rfl⟩ := List.mem_map.1 he
  exact Bool.false_ne_true

theorem callsBack_recvs (recvs : List RecvResult) (effs : List Effect) :
    CallsBack (recvs.map .recv ++ effs) = CallsBack effs := by
  have hnone : CallsBack (recvs.map .recv) = false := List.any_eq_false.2 (recvs_silent recvs)
  rw [callsBack_append, hnone, Bool.false_or]

theorem countP_recvs (recvs : List RecvResult) (effs : List Effect) :
    (recvs.map Effect.recv ++ effs).countP Effect.IsCallback = effs.countP Effect.IsCallback := by
  rw [List.countP_append, List.countP_eq_zero.2 (recvs_silent recvs), Nat.zero_add]

/-- **Chunks that end with the message**: the loop ends with one callback, and asks for nothing
    more. -/
theorem receive_last (hA : A.Lawful) {c : σ} {recvs : List RecvResult}
    (hdata : ∀ r ∈ recvs, r.IsData) {ts : List Token} {t : L.State}
    (h : A.Awaits c (received recvs) ts t)
    (more : List RecvResult) :
    ∃ parsed effs, A.progress parsed = A.advance (A.progress c) ts t ∧
      effs.countP Effect.IsCallback = 1 ∧
      A.receiver.receive c (recvs ++ more) = ⟨A.receiver.finish parsed, effs, more⟩ := by
  have hne : recvs ≠ [] := by
    rintro rfl
    have hm := h.message
    rw [show received [] = [] from rfl, Llhttp.message_nil] at hm
    exact absurd hm (by simp)
  obtain ⟨first, last, rfl⟩ := (List.eq_nil_or_concat' recvs).resolve_left hne
  have hfirst : ∀ r ∈ first, r.IsData := fun r hr => hdata r (List.mem_append_left _ hr)
  have hlast := hdata last (by simp)
  have hm := h.message
  rw [received, List.flatMap_append] at hm
  -- all chunks but the last are part of the message
  obtain ⟨ts₁, ts₂, s, rfl, hread, hno, hm'⟩ :=
    Llhttp.message_append hm (@received_ne_nil [last] (by simp) (by simpa using hlast))
  obtain ⟨c', hc', -, hloop⟩ := receive_part hA hfirst h.incomplete h.parser_ok hread hno
    ([last] ++ more)
  cases last with
  | eof => exact absurd hlast (by simp [RecvResult.IsData])
  | fail errno => exact absurd hlast (by simp [RecvResult.IsData])
  | data chunk =>
      obtain ⟨hread', hmem⟩ := Llhttp.message_reads hm'
      have hok : L.isError (A.progress c').parser = false := by
        rw [hc']
        exact hread.isError h.parser_ok
      have hchunk : L.Reads s chunk.bytes ts₂ t := by simpa [RecvResult.bytes] using hread'
      have hexec := hA.execute c' chunk ts₂ t hok (by rw [hc']; exact hchunk)
      set parsed := A.receiver.execute c' chunk with hparsed
      have hgood : A.receiver.parseFailed parsed = false := by
        rw [hA.parseFailed, hexec]
        exact hread'.isError (hread.isError h.parser_ok)
      have hdone : A.receiver.complete parsed = true := by
        rw [hA.complete, hexec]
        simp [advance, hmem]
      refine ⟨parsed, first.map .recv ++ [.recv (.data chunk),
        .removeTrack (A.receiver.socket parsed), .callback], ?_, ?_, ?_⟩
      · rw [hexec, hc', advance_advance]
      · rw [countP_recvs]
        rfl
      · rw [List.append_assoc, hloop, List.singleton_append, Receiver.receive]
        simp only [← hparsed, hgood, hdone, Bool.false_eq_true, if_false, if_true]

end MessageReader

end FiberConn
