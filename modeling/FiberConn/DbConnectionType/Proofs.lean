import FiberConn.DbConnectionType

set_option autoImplicit false

/-! # What the methods of `Dbconnection` can do

One lemma for each method says everything it can do to the object together with the calls it makes:
`sendQuery_outcome`, `handleEvent_connecting`, `handleEvent_active`. Users of the object argue from
these and never unfold the methods. The trace lemmas `connectDb_trace`, `sendQuery_trace` and
`handleEvent_trace` are the view the reactor has. -/

namespace FiberConn

namespace Dbconnection

variable {c : Dbconnection} {ev : EpollEvent} {a : PqAnswers}

/-! ## Collecting results -/

/-- `discard` and `collect` make the same calls: all results, then `NULL`. -/
theorem discard_eq (l : List PGresult) :
    discard l = l.map (fun res => .pq (.getResult (some res))) ++ [.pq (.getResult none)] := by
  induction l with
  | nil => rfl
  | cons res rest ih => rw [discard, ih]; rfl

theorem collect_snd (l : List PGresult) :
    (collect c l).2
      = l.map (fun res => .pq (.getResult (some res))) ++ [.pq (.getResult none)] := by
  induction l generalizing c with
  | nil => rfl
  | cons res rest ih =>
      by_cases h : okStatus res
      · simp only [collect, if_pos h, ih, List.map_cons, List.cons_append]
      · simp only [collect, if_neg h, discard_eq, List.map_cons, List.cons_append]

/-- The object keeps the results before the first failed one; a failed one sets `is_error`. -/
theorem collect_fst (l : List PGresult) :
    (collect c l).1 = { c with
      results := c.results ++ (l.takeWhile (okStatus ·)).map copyResult
      isError := c.isError || l.any (¬ okStatus ·) } := by
  induction l generalizing c with
  | nil => simp [collect]
  | cons res rest ih =>
      by_cases h : okStatus res
      · rw [collect, if_pos h]
        simp [ih, h]
      · rw [collect, if_neg h]
        simp [h]

/-! ## `sendQuery` -/

/-- What `sendQuery` can do, when `PQflush` returns one of its documented values. -/
inductive SendOutcome (c : Dbconnection) (query : String) (a : SendAnswers) :
    Dbconnection × List Effect → Prop
  | refused (hret : a.sendQuery = 0) :
      SendOutcome c query a
        ({ c with isError := true }, [.pq (.sendQuery query 0), .callback])
  | unsent (hret : a.sendQuery ≠ 0) :
      SendOutcome c query a ({ c with isError := true, connectionState := .idle },
        [.pq (.sendQuery query a.sendQuery), .pq (.flush (-1)), .callback])
  | tracked (hret : a.sendQuery ≠ 0) (hflush : a.flush ≠ -1) {state : DbConnectionState}
      {mask : EventMask} (hstate : state = .sendingQuery ∨ state = .readingResponse) :
      SendOutcome c query a ({ c with connectionState := state },
        [.pq (.sendQuery query a.sendQuery), .pq (.flush a.flush),
          .addTrack c.socket mask .helperSock])

theorem SendOutcome.socket {query : String} {a : SendAnswers} {r : Dbconnection × List Effect}
    (ho : SendOutcome c query a r) : r.1.socket = c.socket := by
  cases ho <;> rfl

theorem sendQuery_outcome {query : String} {a : SendAnswers}
    (hf : a.flush = 0 ∨ a.flush = 1 ∨ a.flush = -1) :
    SendOutcome c query a (c.sendQuery query a) := by
  by_cases hret : a.sendQuery = 0
  · rw [sendQuery, if_pos hret, hret]
    exact .refused hret
  rw [sendQuery, if_neg hret]
  split
  · next h => rw [h]; exact .unsent hret
  next hbad =>
  split
  · exact .tracked hret hbad (Or.inr rfl)
  next hzero =>
  rw [if_pos (by omega)]
  exact .tracked hret hbad (Or.inl rfl)

/-- A query that libpq takes is tracked on the socket. -/
theorem sendQuery_tracks {query : String} {a : SendAnswers} (hret : a.sendQuery ≠ 0)
    (hbad : a.flush ≠ -1) (hf : a.flush = 0 ∨ a.flush = 1 ∨ a.flush = -1) :
    ∃ state mask, c.sendQuery query a = ({ c with connectionState := state },
      [.pq (.sendQuery query a.sendQuery), .pq (.flush a.flush),
        .addTrack c.socket mask .helperSock]) := by
  rw [sendQuery, if_neg hret, if_neg hbad]
  split
  · exact ⟨.readingResponse, readMask, rfl⟩
  next hzero =>
  rw [if_pos ((hf.resolve_left hzero).resolve_right hbad)]
  exact ⟨.sendingQuery, bothMask, rfl⟩

/-! ## `handleEvent` during a connect -/

/-- What `handleEvent` can do during a connect. -/
inductive ConnectOutcome (c : Dbconnection) (ev : EpollEvent) (a : PqAnswers) :
    Dbconnection × List Effect → Prop
  | waits {effs : List Effect} (hno : ¬ Connects ev a) (hcb : CallsBack effs = false)
      (hpoll : .pq (.connectPoll .ok) ∉ effs) : ConnectOutcome c ev a (c, effs)
  | fails {effs : List Effect} (hno : ¬ Connects ev a) (hcb : CallsBack effs = true)
      (hpoll : .pq (.connectPoll .ok) ∉ effs) :
      ConnectOutcome c ev a ({ c with isError := true }, effs)
  | connects {effs : List Effect} (hyes : Connects ev a) (hcb : CallsBack effs = true)
      (hpoll : .pq (.connectPoll .ok) ∈ effs) :
      ConnectOutcome c ev a ({ c with connectionState := .connected }, effs)

theorem handleEvent_connecting (h : c.connectionState = .connecting) :
    ConnectOutcome c ev a (c.handleEvent ev a) := by
  by_cases herr : ev.has epollErr
  · rw [handleEvent, if_pos herr]
    exact .fails (by simp [Connects, herr]) rfl (by simp)
  rw [handleEvent, if_neg herr, h]
  dsimp only [handleConnecting]
  cases hp : a.connectPoll with
  | reading => exact .waits (by simp [Connects, hp]) rfl (by simp)
  | writing => exact .waits (by simp [Connects, hp]) rfl (by simp)
  | failed => exact .fails (by simp [Connects, hp]) rfl (by simp)
  | ok => exact .connects ⟨by simpa using herr, hp⟩ rfl (by simp)
  | active => exact .waits (by simp [Connects, hp]) rfl (by simp)

/-! ## `handleEvent` during a query -/

/-- What `handleEvent` can do during a query. -/
inductive QueryOutcome (c : Dbconnection) (ev : EpollEvent) (a : PqAnswers) :
    Dbconnection × List Effect → Prop
  | waits {state : DbConnectionState} {effs : List Effect} (herr : ev.has epollErr = false)
      (hstate : state = .sendingQuery ∨ state = .readingResponse)
      (hcb : CallsBack effs = false) (hplain : ∀ e ∈ effs, e.Plain ∧ ¬ e.Fails) :
      QueryOutcome c ev a ({ c with connectionState := state }, effs)
  | fails {state : DbConnectionState} {effs : List Effect} (hcb : CallsBack effs = true)
      (hplain : ∀ e ∈ effs, e.Plain)
      (hwhy : ev.has epollErr = true ∨ ∃ e ∈ effs, e.Fails) :
      QueryOutcome c ev a ({ c with isError := true, connectionState := state }, effs)
  | completes (herr : ev.has epollErr = false) (hret : a.consumeInput ≠ 0) :
      QueryOutcome c ev a
        ({ c with
            connectionState := .idle
            results := c.results ++ (a.results.takeWhile (okStatus ·)).map copyResult
            isError := c.isError || a.results.any (¬ okStatus ·) },
          [.pq (.consumeInput a.consumeInput), .pq (.isBusy 0), .removeTrack c.socket] ++
            a.results.map (fun res => .pq (.getResult (some res))) ++
            [.pq (.getResult none), .callback])

theorem QueryOutcome.socket {r : Dbconnection × List Effect} (ho : QueryOutcome c ev a r) :
    r.1.socket = c.socket := by
  cases ho <;> rfl

/-- A conditional call is made only under its condition. -/
theorem mem_guarded {p : Prop} [Decidable p] {effs : List Effect} {e : Effect} :
    e ∈ (if p then effs else []) ↔ p ∧ e ∈ effs := by
  split <;> simp_all

theorem callsBack_guarded {p : Prop} [Decidable p] {effs : List Effect}
    (h : CallsBack effs = false) : CallsBack (if p then effs else []) = false := by
  split
  · exact h
  · rfl

theorem handleSending_outcome (herr : ev.has epollErr = false)
    (hs : c.connectionState = .sendingQuery) :
    QueryOutcome c ev a (c.handleSending ev a) := by
  unfold handleSending
  dsimp only
  split
  · next hout =>
      refine .fails (by simp [CallsBack, Effect.IsCallback]) ?_
        (Or.inr ⟨.pq (.flush a.flushOut), ?_, hout.2⟩)
      · simp [hout.1, Effect.Plain]
      · simp [hout.1]
  next hout =>
  split
  · next hin =>
      refine .fails (by simp [CallsBack, Effect.IsCallback]) ?_ (Or.inr ?_)
      · intro e he
        simp only [List.mem_append, mem_guarded, List.mem_cons, List.not_mem_nil, or_false] at he
        rcases he with (⟨_, rfl⟩ | ⟨_, rfl | rfl⟩) | rfl | rfl <;> trivial
      · rcases hin.2 with h | h
        · exact ⟨.pq (.flush a.flushIn), by simp [hin.1], h⟩
        · exact ⟨.pq (.consumeInput a.consumeInput), by simp [hin.1], h⟩
  next hin =>
  -- neither branch failed: the calls made are plain and report no failure
  have hplain (e : Effect) (he : e ∈ (if ev.has epollOut then [.pq (.flush a.flushOut)] else []) ++
      (if ev.has epollIn then [.pq (.consumeInput a.consumeInput), .pq (.flush a.flushIn)]
        else [])) : e.Plain ∧ ¬ e.Fails := by
    simp only [List.mem_append, mem_guarded, List.mem_cons, List.not_mem_nil, or_false] at he
    rcases he with ⟨h, rfl⟩ | ⟨h, rfl | rfl⟩
    · exact ⟨trivial, fun hf => hout ⟨h, hf⟩⟩
    · exact ⟨trivial, fun hf => hin ⟨h, Or.inr hf⟩⟩
    · exact ⟨trivial, fun hf => hin ⟨h, Or.inl hf⟩⟩
  have hcb : CallsBack ((if ev.has epollOut then [.pq (.flush a.flushOut)] else []) ++
      (if ev.has epollIn then [.pq (.consumeInput a.consumeInput), .pq (.flush a.flushIn)]
        else [])) = false := by
    rw [callsBack_append, callsBack_guarded rfl, callsBack_guarded rfl]
    rfl
  by_cases hz : (if ev.has epollIn then a.flushIn else
      if ev.has epollOut then a.flushOut else 1) = 0
  · rw [if_pos hz]
    refine .waits herr (Or.inr rfl) ?_ ?_
    · rw [callsBack_append, hcb]
      rfl
    · intro e he
      rcases List.mem_append.1 he with he | he
      · exact hplain e he
      · obtain rfl := List.mem_singleton.1 he
        exact ⟨trivial, id⟩
  · rw [if_neg hz]
    exact .waits herr (Or.inl hs) hcb hplain

theorem handleReading_outcome (herr : ev.has epollErr = false)
    (hs : c.connectionState = .readingResponse) :
    QueryOutcome c ev a (c.handleReading a) := by
  unfold handleReading
  split
  · next hret =>
      exact .fails rfl (by simp [Effect.Plain]) (Or.inr ⟨_, List.mem_cons_self, hret⟩)
  next hret =>
  split
  · exact .waits herr (Or.inr hs) rfl (by simp [Effect.Plain, Effect.Fails, hret])
  split
  · next hbusy =>
      have hw := QueryOutcome.completes (c := c) (a := a) herr hret
      simpa only [collect_fst, collect_snd, hbusy, List.cons_append, List.nil_append,
        List.append_assoc] using hw
  · exact .waits herr (Or.inr hs) rfl (by simp [Effect.Plain, Effect.Fails, hret])

theorem handleEvent_active (h : c.Active) : QueryOutcome c ev a (c.handleEvent ev a) := by
  by_cases herr : ev.has epollErr
  · rw [handleEvent, if_pos herr]
    exact @QueryOutcome.fails c ev a c.connectionState _ rfl (by simp [Effect.Plain]) (Or.inl herr)
  have hok : ev.has epollErr = false := by simpa using herr
  rw [handleEvent, if_neg herr]
  rcases h with h | h <;> rw [h] <;> dsimp only
  · exact handleSending_outcome hok h
  · exact handleReading_outcome hok h

/-! ## The reactor's view -/

/-- No handler changes the socket or the `PGconn`. -/
theorem handleEvent_handle :
    (c.handleEvent ev a).1.socket = c.socket ∧ (c.handleEvent ev a).1.conn = c.conn := by
  unfold handleEvent
  split
  · exact ⟨rfl, rfl⟩
  split
  · unfold handleConnecting
    split <;> exact ⟨rfl, rfl⟩
  · unfold handleSending
    dsimp only
    split
    · exact ⟨rfl, rfl⟩
    split
    · exact ⟨rfl, rfl⟩
    by_cases hz : (if ev.has epollIn then a.flushIn else
        if ev.has epollOut then a.flushOut else 1) = 0
    · rw [if_pos hz]
      exact ⟨rfl, rfl⟩
    · rw [if_neg hz]
      exact ⟨rfl, rfl⟩
  · unfold handleReading
    split
    · exact ⟨rfl, rfl⟩
    split
    · exact ⟨rfl, rfl⟩
    split
    · simp only [collect_fst, and_self]
    · exact ⟨rfl, rfl⟩
  · exact ⟨rfl, rfl⟩

theorem handleConnecting_trace : HandlerTrace c.socket (c.handleConnecting a).2 := by
  unfold handleConnecting
  split
  · exact .waits (by simp [Effect.Quiet])
  · exact .waits (by simp [Effect.Quiet])
  · exact .ends_one trivial
  · exact @HandlerTrace.ends _ [.pq (.connectPoll .ok)] [.pq (.setnonblocking a.setnonblocking)]
      (by simp [Effect.Quiet]) (by simp [Effect.IsCall])
  · exact .waits (by simp [Effect.Quiet])

/-- The calls of `handleSending`: first those to libpq, then nothing, the rearming for the response,
    or the end of the query. -/
theorem handleSending_calls : ∃ calls tail, (c.handleSending ev a).2 = calls ++ tail ∧
    (∀ e ∈ calls, (∃ ret, e = .pq (.flush ret)) ∨ ∃ ret, e = .pq (.consumeInput ret)) ∧
    (tail = [] ∨ tail = [.modifyTrack c.socket readMask .helperSock] ∨
      tail = [.removeTrack c.socket, .callback]) := by
  unfold handleSending
  dsimp only
  have hflushed (e : Effect)
      (he : e ∈ (if ev.has epollOut then [.pq (.flush a.flushOut)] else [])) :
      (∃ ret, e = .pq (.flush ret)) ∨ ∃ ret, e = .pq (.consumeInput ret) := by
    obtain ⟨-, he⟩ := mem_guarded.1 he
    exact Or.inl ⟨_, List.mem_singleton.1 he⟩
  have hread (e : Effect)
      (he : e ∈ (if ev.has epollIn then [.pq (.consumeInput a.consumeInput), .pq (.flush a.flushIn)]
        else [])) : (∃ ret, e = .pq (.flush ret)) ∨ ∃ ret, e = .pq (.consumeInput ret) := by
    obtain ⟨-, he⟩ := mem_guarded.1 he
    rcases List.mem_cons.1 he with rfl | he
    · exact Or.inr ⟨_, rfl⟩
    · exact Or.inl ⟨_, List.mem_singleton.1 he⟩
  have hboth := fun e he => (List.mem_append.1 he).elim (hflushed e) (hread e)
  split
  · exact ⟨_, _, rfl, hflushed, Or.inr (Or.inr rfl)⟩
  split
  · exact ⟨_, _, rfl, hboth, Or.inr (Or.inr rfl)⟩
  by_cases hz : (if ev.has epollIn then a.flushIn else
      if ev.has epollOut then a.flushOut else 1) = 0
  · rw [if_pos hz]
    exact ⟨_, _, rfl, hboth, Or.inr (Or.inl rfl)⟩
  · rw [if_neg hz]
    exact ⟨_, [], (List.append_nil _).symm, hboth, Or.inl rfl⟩

theorem handleSending_trace : HandlerTrace c.socket (c.handleSending ev a).2 := by
  obtain ⟨calls, tail, heq, hcalls, htail⟩ := @handleSending_calls c ev a
  have hquiet (e : Effect) (he : e ∈ calls) : e.Quiet c.socket := by
    rcases hcalls e he with ⟨ret, rfl⟩ | ⟨ret, rfl⟩ <;> trivial
  rw [heq]
  rcases htail with rfl | rfl | rfl
  · rw [List.append_nil]
    exact .waits hquiet
  · refine .waits fun e he => ?_
    rcases List.mem_append.1 he with he | he
    · exact hquiet e he
    · obtain rfl := List.mem_singleton.1 he
      exact rfl
  · exact @HandlerTrace.ends _ calls [] hquiet (by simp)

theorem handleReading_trace : HandlerTrace c.socket (c.handleReading a).2 := by
  unfold handleReading
  split
  · exact .ends_one trivial
  split
  · exact .waits (by simp [Effect.Quiet])
  split
  · refine @HandlerTrace.ends _ [.pq (.consumeInput a.consumeInput), .pq (.isBusy a.isBusy)] _
      (by simp [Effect.Quiet]) fun e he => ?_
    rw [collect_snd] at he
    simp only [List.mem_append, List.mem_map, List.mem_singleton] at he
    rcases he with ⟨res, -, rfl⟩ | rfl <;> trivial
  · exact .waits (by simp [Effect.Quiet])

/-- **Every exit of `handleEvent`** untracks the socket before it calls back, and does nothing to
    the reactor or the object's descriptor afterwards. -/
theorem handleEvent_trace : HandlerTrace c.socket (c.handleEvent ev a).2 := by
  unfold handleEvent
  split
  · exact .ends_now
  split
  · exact handleConnecting_trace
  · exact handleSending_trace
  · exact handleReading_trace
  · exact .waits (by simp)

end Dbconnection

end FiberConn
