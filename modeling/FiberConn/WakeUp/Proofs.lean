import FiberConn.DbConnectionType.Proofs
import FiberConn.WakeUp

set_option autoImplicit false

/-! # When no wake-up is lost

`Watching` is what holds as long as no wake-up has been lost: until the callback the socket is
tracked and a query is under way, and afterwards nothing is watched any more. A dispatch is the only
step that can lose a wake-up, and it does exactly when it leaves an incomplete result behind with
nothing left to report (`awake_iff`). `partial_read` is one way; the example after it is another. -/

namespace FiberConn

open Machine

namespace QuerySocket

variable {s t : QuerySocket} {l : QueryLabel}

/-- What holds while no wake-up has been lost. -/
structure Watching (s : QuerySocket) : Prop where
  awake : s.Awake
  unsent : s.sent = false → s.called = false ∧ s.queued = none ∧ s.tracked = false ∧
    0 < s.unread + s.toArrive
  waiting : s.sent = true → s.called = false → s.tracked = true ∧ s.conn.Active
  ended : s.called = true → s.tracked = false ∧ s.queued = none

/-! ## What a dispatch does -/

/-- The calls of a failing dispatch end in `removeTrack` and the callback. -/
theorem perform_ends {moved : ℕ} {fd : ℤ} :
    [Effect.removeTrack fd, .callback].foldlM (perform moved) s
      = some { s with tracked := false, edge := false, called := true } := rfl

/-- What dispatching an event can do to the socket: call back, read without finishing, or, while
    sending, switch to reading. -/
inductive DispatchOutcome (s : QuerySocket) (ev : EpollEvent) (a : PqAnswers) (moved : ℕ) :
    QuerySocket → Prop
  | calls {t : QuerySocket} (hcalled : t.called = true) (htracked : t.tracked = false)
      (hqueued : t.queued = none) (hsent : t.sent = s.sent)
      (hwhy : ev.has epollErr = false → s.conn.connectionState = .readingResponse →
        a.consumeInput ≠ 0 → s.first ≤ s.buffered + moved)
      (hno : ev.has epollErr = false → s.conn.connectionState = .sendingQuery → ¬ Switches ev a) :
      DispatchOutcome s ev a moved t
  | reads (herr : ev.has epollErr = false) (hstate : s.conn.connectionState = .readingResponse)
      (hret : a.consumeInput ≠ 0) (hbusy : ¬ s.first ≤ s.buffered + moved) :
      DispatchOutcome s ev a moved
        { s with
          queued := none, unread := s.unread - moved, buffered := s.buffered + moved }
  | sends {unread buffered : ℕ} (herr : ev.has epollErr = false)
      (hstate : s.conn.connectionState = .sendingQuery) (hno : ¬ Switches ev a) :
      DispatchOutcome s ev a moved
        { s with queued := none, unread := unread, buffered := buffered }
  | switches {buffered : ℕ} {conn : Dbconnection} (herr : ev.has epollErr = false)
      (hstate : s.conn.connectionState = .sendingQuery) (hyes : Switches ev a)
      (hconn : conn.connectionState = .readingResponse) :
      DispatchOutcome s ev a moved
        { s with
          conn := conn, queued := none, buffered := buffered
          unread := if ev.has epollIn = true then s.unread - moved else s.unread
          mask := readMask
          edge := decide (0 < if ev.has epollIn = true then s.unread - moved else s.unread) }

/-- Reading results moves no bytes. -/
theorem perform_results {moved : ℕ} (rs : List PGresult) (effs : List Effect) :
    (rs.map (fun res => Effect.pq (.getResult (some res))) ++ effs).foldlM (perform moved) s
      = effs.foldlM (perform moved) s := by
  induction rs with
  | nil => rfl
  | cons res rs ih => exact ih

/-- `PQconsumeInput` that succeeds moves `moved` bytes. -/
theorem perform_consume {moved : ℕ} {ret : ℤ} (hret : ret ≠ 0)
    (h : perform moved s (.pq (.consumeInput ret)) = some t) :
    t = { s with unread := s.unread - moved, buffered := s.buffered + moved } := by
  simp only [perform, if_neg hret, Option.ite_none_right_eq_some] at h
  exact (Option.some.inj h.2).symm

/-- `PQisBusy` tells whether the first result is complete. -/
theorem perform_busy {moved : ℕ} {ret : ℤ} (h : perform moved s (.pq (.isBusy ret)) = some t) :
    t = s ∧ (ret = 0 ∧ s.first ≤ s.buffered ∨ ret = 1 ∧ ¬ s.first ≤ s.buffered) := by
  simp only [perform, Option.ite_none_right_eq_some] at h
  obtain ⟨hret, he⟩ := h
  refine ⟨(Option.some.inj he).symm, ?_⟩
  by_cases hfirst : s.first ≤ s.buffered
  · exact Or.inl ⟨by simpa [hfirst] using hret, hfirst⟩
  · exact Or.inr ⟨by simpa [hfirst] using hret, hfirst⟩

theorem dispatch_reading {ev : EpollEvent} {a : PqAnswers} {moved : ℕ}
    (herr : ev.has epollErr = false) (hstate : s.conn.connectionState = .readingResponse)
    (hn : (s.conn.handleReading a).2.foldlM (perform moved)
      { s with conn := (s.conn.handleReading a).1, queued := none } = some t) :
    DispatchOutcome s ev a moved t := by
  have hnosend : s.conn.connectionState ≠ .sendingQuery := by rw [hstate]; decide
  unfold Dbconnection.handleReading at hn
  split at hn
  · next hret =>
      simp only [List.foldlM_cons, perform, if_pos hret, Option.bind_eq_bind, Option.bind_some,
        List.foldlM_nil, Option.pure_def, Option.some.injEq] at hn
      subst hn
      exact .calls rfl rfl rfl rfl (fun _ _ h => absurd hret h) (fun _ h => absurd h hnosend)
  next hret =>
  -- every path goes on with `PQconsumeInput` and `PQisBusy`
  have hfirst {effs : List Effect} {conn : Dbconnection} {busy : ℤ}
      (hn : (Effect.pq (.consumeInput a.consumeInput) :: .pq (.isBusy busy) :: effs).foldlM
        (perform moved) { s with conn := conn, queued := none } = some t) :
      (busy = 0 ∧ s.first ≤ s.buffered + moved ∨ busy = 1 ∧ ¬ s.first ≤ s.buffered + moved) ∧
        effs.foldlM (perform moved) { s with
          conn := conn, queued := none
          unread := s.unread - moved, buffered := s.buffered + moved } = some t := by
    obtain ⟨u, hu, hn⟩ := Option.bind_eq_some_iff.1 hn
    obtain rfl := perform_consume hret hu
    obtain ⟨v, hv, hn⟩ := Option.bind_eq_some_iff.1 hn
    obtain ⟨rfl, hbusy⟩ := perform_busy hv
    exact ⟨hbusy, hn⟩
  split at hn
  · next hone =>
      obtain ⟨hbusy, hn⟩ := hfirst hn
      obtain rfl := Option.some.inj hn
      exact .reads herr hstate hret (by omega)
  split at hn
  · next hzero =>
      simp only [Dbconnection.collect_snd, List.cons_append, List.nil_append,
        List.append_assoc] at hn
      obtain ⟨hbusy, hn⟩ := hfirst hn
      have hdone : s.first ≤ s.buffered + moved := by omega
      rw [List.foldlM_cons] at hn
      obtain ⟨u, hu, hn⟩ := Option.bind_eq_some_iff.1 hn
      obtain rfl := Option.some.inj hu
      rw [perform_results] at hn
      obtain rfl := Option.some.inj hn
      exact .calls rfl rfl rfl rfl (fun _ _ _ => hdone) (fun _ h => absurd h hnosend)
  · next hone hzero =>
      obtain ⟨hbusy, -⟩ := hfirst hn
      omega

/-- `PQflush` moves no bytes of the response. -/
theorem perform_flushed {p : Prop} [Decidable p] {moved : ℕ} {ret : ℤ} {effs : List Effect} :
    ((if p then [Effect.pq (.flush ret)] else []) ++ effs).foldlM (perform moved) s
      = effs.foldlM (perform moved) s := by
  split <;> rfl

/-- The `EPOLLIN` branch of the sending phase moves bytes if `PQconsumeInput` succeeds. -/
theorem perform_read {p : Prop} [Decidable p] {moved : ℕ} {ret ret' : ℤ} {effs : List Effect}
    (hn : ((if p then [Effect.pq (.consumeInput ret), .pq (.flush ret')] else []) ++ effs).foldlM
      (perform moved) s = some t) :
    ∃ unread buffered,
      effs.foldlM (perform moved) { s with unread := unread, buffered := buffered } = some t ∧
        ((p → ret ≠ 0) → unread = if p then s.unread - moved else s.unread) := by
  by_cases hp : p
  · simp only [if_pos hp, List.cons_append, List.nil_append] at hn ⊢
    rw [List.foldlM_cons] at hn
    obtain ⟨u, hu, hn⟩ := Option.bind_eq_some_iff.1 hn
    by_cases hret : ret = 0
    · simp only [perform, if_pos hret, Option.some.injEq] at hu
      subst hu
      exact ⟨s.unread, s.buffered, hn, fun h => absurd hret (h hp)⟩
    · obtain rfl := perform_consume hret hu
      exact ⟨_, _, hn, fun _ => rfl⟩
  · simp only [if_neg hp, List.nil_append] at hn ⊢
    exact ⟨s.unread, s.buffered, hn, fun _ => rfl⟩

theorem dispatch_sending {ev : EpollEvent} {a : PqAnswers} {moved : ℕ}
    (herr : ev.has epollErr = false) (hstate : s.conn.connectionState = .sendingQuery)
    (hn : (s.conn.handleSending ev a).2.foldlM (perform moved)
      { s with conn := (s.conn.handleSending ev a).1, queued := none } = some t) :
    DispatchOutcome s ev a moved t := by
  have hnoread : s.conn.connectionState ≠ .readingResponse := by rw [hstate]; decide
  unfold Dbconnection.handleSending at hn
  dsimp only at hn
  split at hn
  -- the `PQflush` of the `EPOLLOUT` branch fails
  · next hout =>
      rw [perform_flushed, perform_ends] at hn
      obtain rfl := Option.some.inj hn
      exact .calls rfl rfl rfl rfl (fun _ h => absurd h hnoread)
        (fun _ _ hs => hs.1 hout.1 hout.2)
  next hout =>
  split at hn
  -- `PQconsumeInput` or the `PQflush` after it fails
  · next hin =>
      rw [List.append_assoc, perform_flushed] at hn
      obtain ⟨unread, buffered, hn, -⟩ := perform_read hn
      rw [perform_ends] at hn
      obtain rfl := Option.some.inj hn
      refine .calls rfl rfl rfl rfl (fun _ h => absurd h hnoread) fun _ _ hs => ?_
      have hflush := hs.2.2
      rw [if_pos hin.1] at hflush
      rcases hin.2 with h | h
      · omega
      · exact hs.2.1 hin.1 h
  next hin =>
  have hout' : ev.has epollOut = true → a.flushOut ≠ -1 := fun h h' => hout ⟨h, h'⟩
  have hin' : ev.has epollIn = true → a.consumeInput ≠ 0 := fun h h' => hin ⟨h, Or.inr h'⟩
  by_cases hz : (if ev.has epollIn = true then a.flushIn else
      if ev.has epollOut = true then a.flushOut else 1) = 0
  · rw [if_pos hz] at hn
    dsimp only at hn
    rw [List.append_assoc, perform_flushed] at hn
    obtain ⟨unread, buffered, hn, hunread⟩ := perform_read hn
    obtain rfl := Option.some.inj hn
    rw [hunread hin']
    exact .switches herr hstate ⟨hout', hin', hz⟩ rfl
  · rw [if_neg hz] at hn
    dsimp only at hn
    rw [perform_flushed, ← List.append_nil (if ev.has epollIn = true then _ else _)] at hn
    obtain ⟨unread, buffered, hn, -⟩ := perform_read hn
    obtain rfl := Option.some.inj hn
    exact .sends herr hstate fun hs => hz hs.2.2

/-- A dispatch does what `DispatchOutcome` says. -/
theorem dispatch_outcome {ev : EpollEvent} {a : PqAnswers} {moved : ℕ} (hactive : s.conn.Active)
    (hqueued : s.queued = some ev) (hn : s.next (.dispatch a moved) = some t) :
    DispatchOutcome s ev a moved t := by
  simp only [next, hqueued] at hn
  unfold Dbconnection.handleEvent at hn
  split at hn
  · next herr =>
      rw [perform_ends] at hn
      obtain rfl := Option.some.inj hn
      exact .calls rfl rfl rfl rfl (fun h => absurd herr (by simp [h]))
        (fun h => absurd herr (by simp [h]))
  next herr =>
  have herr : ev.has epollErr = false := by simpa using herr
  rcases hactive with hstate | hstate <;> rw [hstate] at hn <;> dsimp only at hn
  · exact dispatch_sending herr hstate hn
  · exact dispatch_reading herr hstate hn

/-! ## The other steps -/

/-- What `sendQuery` does to the socket. -/
inductive SendStep (s : QuerySocket) : QuerySocket → Prop
  | calls {conn : Dbconnection} :
      SendStep s { s with conn := conn, sent := true, called := true }
  | tracks {conn : Dbconnection} {mask : EventMask} (hactive : conn.Active) :
      SendStep s { s with
        conn := conn, sent := true, tracked := true, mask := mask
        edge := decide (0 < s.unread) }

theorem send_step {query : String} {a : SendAnswers}
    (hn : s.next (.send query a) = some t) : s.sent = false ∧ SendStep s t := by
  simp only [next, Option.ite_none_right_eq_some] at hn
  obtain ⟨⟨hsent, hflush⟩, hn⟩ := hn
  refine ⟨hsent, ?_⟩
  have ho : Dbconnection.SendOutcome s.conn query a _ := Dbconnection.sendQuery_outcome hflush
  generalize s.conn.sendQuery query a = r at ho hn
  cases ho with
  | refused => obtain rfl := Option.some.inj hn; exact .calls
  | unsent => obtain rfl := Option.some.inj hn; exact .calls
  | tracked hret hbad hstate => obtain rfl := Option.some.inj hn; exact .tracks hstate

/-- While an event is queued, the query is under way. -/
theorem Watching.queued (h : s.Watching) {ev : EpollEvent} (hq : s.queued = some ev) :
    s.sent = true ∧ s.called = false ∧ s.tracked = true ∧ s.conn.Active := by
  have hsent : s.sent = true := by
    by_contra hsent
    have := (h.unsent (by simpa using hsent)).2.1
    rw [hq] at this
    cases this
  have hcalled : s.called = false := by
    by_contra hcalled
    have := (h.ended (by simpa using hcalled)).2
    rw [hq] at this
    cases this
  exact ⟨hsent, hcalled, h.waiting hsent hcalled⟩

theorem watching_start {conn : Dbconnection} {total first : ℕ} (hpos : 0 < total) :
    (start conn total first).Watching where
  awake h := by cases h
  unsent _ := ⟨rfl, rfl, rfl, by simpa [start] using hpos⟩
  waiting h := by cases h
  ended h := by cases h

/-- An arrival makes an edge, so it wakes the connection. -/
theorem Watching.arrive (h : s.Watching) {bytes : ℕ} (hpos : 0 < bytes) :
    Watching { s with
      toArrive := s.toArrive - bytes, unread := s.unread + bytes, edge := true } where
  awake hsent _ _ := by
    by_cases hcalled : s.called = true
    · exact Or.inl hcalled
    · refine Or.inr (Or.inr ⟨(h.waiting hsent (by simpa using hcalled)).1, rfl, ?_⟩)
      dsimp only
      omega
  unsent hsent := by
    obtain ⟨hcalled, hqueued, htracked, hbytes⟩ := h.unsent hsent
    refine ⟨hcalled, hqueued, htracked, ?_⟩
    dsimp only
    omega
  waiting := h.waiting
  ended := h.ended

theorem Watching.send (h : s.Watching) (hsent : s.sent = false) (hs : SendStep s t) :
    t.Watching := by
  obtain ⟨hcalled, hqueued, htracked, hbytes⟩ := h.unsent hsent
  cases hs with
  | calls =>
    exact ⟨fun _ _ _ => Or.inl rfl, nofun, fun _ h => (by cases h), fun _ => ⟨htracked, hqueued⟩⟩
  | tracks hactive =>
      refine ⟨fun _ _ harrived => ?_, nofun, fun _ _ => ⟨rfl, hactive⟩, fun h => ?_⟩
      · -- nothing has been read yet, so `EPOLL_CTL_ADD` finds the response
        have hunread : 0 < s.unread := by
          dsimp only at harrived
          omega
        exact Or.inr (Or.inr ⟨rfl, decide_eq_true hunread, hunread⟩)
      · rw [hcalled] at h
        cases h

theorem Watching.report (h : s.Watching) {ev : EpollEvent} (hr : s.CanReport ev) :
    Watching { s with queued := some ev, edge := false } where
  awake _ _ _ := Or.inr (Or.inl rfl)
  unsent hsent := by
    have := (h.unsent hsent).2.2.1
    rw [hr.1] at this
    cases this
  waiting := h.waiting
  ended hcalled := by
    have := (h.ended hcalled).1
    rw [hr.1] at this
    cases this

/-- A dispatch that progresses keeps the connection awake. -/
theorem Watching.dispatch (h : s.Watching) {ev : EpollEvent} {a : PqAnswers} {moved : ℕ}
    (hqueued : s.queued = some ev) (hG : s.Progresses (.dispatch a moved))
    (ho : DispatchOutcome s ev a moved t) : t.Watching := by
  obtain ⟨hsent, hcalled, htracked, hactive⟩ := h.queued hqueued
  simp only [Progresses, hqueued] at hG
  have hnever {p : Prop} (h : s.called = true) : p := by rw [hcalled] at h; cases h
  have hunsent {p : Prop} (h : s.sent = false) : p := by rw [hsent] at h; cases h
  cases ho with
  | calls hc ht hq hs =>
      exact ⟨fun _ _ _ => Or.inl hc, fun h => hunsent (hs ▸ h),
        fun _ h => (by rw [hc] at h; cases h), fun _ => ⟨ht, hq⟩⟩
  | reads herr hstate hret hbusy =>
      refine ⟨fun _ _ harrived => ?_, hunsent, fun _ _ => ⟨htracked, hactive⟩, hnever⟩
      -- the result is incomplete, so some of what is left came after the report
      rcases (hG herr harrived).1 hstate hret with hdone | ⟨hedge, hleft⟩
      · exact absurd hdone hbusy
      · exact Or.inr (Or.inr ⟨htracked, hedge, Nat.sub_pos_of_lt hleft⟩)
  | sends herr hstate hno =>
      refine ⟨fun _ hreading => ?_, hunsent, fun _ _ => ⟨htracked, hactive⟩, hnever⟩
      rw [hstate] at hreading
      cases hreading
  | switches herr hstate hyes hconn =>
      refine ⟨fun _ _ harrived => ?_, hunsent, fun _ _ => ⟨htracked, Or.inr hconn⟩, hnever⟩
      -- `EPOLL_CTL_MOD` finds what is left
      have hleft := (hG herr harrived).2 hstate hyes
      exact Or.inr (Or.inr ⟨htracked, decide_eq_true hleft, hleft⟩)

/-- A dispatch that keeps the connection awake progresses. -/
theorem Watching.progresses (h : s.Watching) {ev : EpollEvent} {a : PqAnswers} {moved : ℕ}
    (hqueued : s.queued = some ev) (ho : DispatchOutcome s ev a moved t) (hawake : t.Awake) :
    s.Progresses (.dispatch a moved) := by
  obtain ⟨hsent, hcalled, -, -⟩ := h.queued hqueued
  simp only [Progresses, hqueued]
  intro herr harrived
  cases ho with
  | calls hc ht hq hs hwhy hno =>
      exact ⟨fun hstate hret => Or.inl (hwhy herr hstate hret),
        fun hstate hyes => absurd hyes (hno herr hstate)⟩
  | reads _ hstate hret hbusy =>
      refine ⟨fun _ _ => ?_, fun hsending => ?_⟩
      · rcases hawake hsent hstate harrived with hc | hq | ⟨-, hedge, hleft⟩
        · rw [hcalled] at hc
          cases hc
        · cases hq
        · exact Or.inr ⟨hedge, Nat.lt_of_sub_pos hleft⟩
      · rw [hstate] at hsending
        cases hsending
  | sends _ hstate hno =>
      refine ⟨fun hreading => ?_, fun _ hyes => absurd hyes hno⟩
      rw [hstate] at hreading
      cases hreading
  | switches _ hstate hyes hconn =>
      refine ⟨fun hreading => ?_, fun _ _ => ?_⟩
      · rw [hstate] at hreading
        cases hreading
      · rcases hawake hsent hconn harrived with hc | hq | ⟨-, -, hleft⟩
        · rw [hcalled] at hc
          cases hc
        · cases hq
        · exact hleft

theorem Watching.next (h : s.Watching) (hG : s.Progresses l) (hn : s.next l = some t) :
    t.Watching := by
  cases l with
  | arrive bytes =>
      simp only [QuerySocket.next, Option.ite_none_right_eq_some] at hn
      obtain rfl := Option.some.inj hn.2
      exact h.arrive hn.1.1
  | send query a =>
      obtain ⟨hsent, hs⟩ := send_step hn
      exact h.send hsent hs
  | report ev =>
      simp only [QuerySocket.next, Option.ite_none_right_eq_some] at hn
      obtain rfl := Option.some.inj hn.2
      exact h.report hn.1
  | dispatch a moved =>
      cases hqueued : s.queued with
      | none => simp [QuerySocket.next, hqueued] at hn
      | some ev =>
          have ho := dispatch_outcome (h.queued hqueued).2.2.2 hqueued hn
          exact h.dispatch hqueued hG ho

theorem Watching.guard (h : s.Watching) (hn : s.next l = some t) (hawake : t.Awake) :
    s.Progresses l := by
  cases l with
  | dispatch a moved =>
      cases hqueued : s.queued with
      | none => simp [QuerySocket.next, hqueued] at hn
      | some ev =>
          have ho := dispatch_outcome (h.queued hqueued).2.2.2 hqueued hn
          exact h.progresses hqueued ho hawake
  | _ => trivial

end QuerySocket

open QuerySocket

/-- **When no wake-up is lost.** Along a run of one query, a connection that reads its response
    never sits with the whole response in the socket, no callback invoked and no event to come,
    exactly when every dispatch progresses: once the response has arrived, a dispatch while reading
    completes the first result or leaves bytes that came after its report, and the one that ends the
    sending phase leaves unread bytes. -/
theorem awake_iff {tr : List (QuerySocket × QueryLabel)} {s : QuerySocket}
    (h : queryMachine.Run tr s) : Throughout Awake tr s ↔ Guarded Progresses tr :=
  h.law_iff_guard (I := Watching)
    (by
      rintro s ⟨conn, total, first, hpos, hle, rfl⟩
      exact watching_start (hpos.trans_le hle))
    (fun _ hI => hI.awake) (fun _ _ _ hI hG hn => hI.next hG hn)
    (fun _ _ _ hI hn hP => hI.guard hn hP)

/-- A connection as the pool hands it to a query. -/
def pooled : Dbconnection :=
  { Dbconnection.new "" 5 with connectionState := .connected, conn := some 5 }

/-- libpq answers of a successful read. -/
def readOk (isBusy : ℤ) : PqAnswers := ⟨.ok, 0, 0, 1, 0, isBusy, []⟩

/-- Ten bytes arrive in two parts, the second while the first event is queued. -/
def twoParts : List QueryLabel :=
  [.send "q" ⟨1, 0⟩, .arrive 6, .report ⟨epollIn, 5⟩, .arrive 4, .dispatch (readOk 1) 6,
    .report ⟨epollIn, 5⟩, .dispatch (readOk 0) 4]

theorem awake_two_parts : ∃ tr s, queryMachine.Run tr s ∧ s.toArrive = 0 ∧ s.called = true ∧
    Throughout Awake tr s := by
  have hrun : (((queryMachine.restrict Progresses).exec (.start pooled 10 10) twoParts).map
      fun s => (s.toArrive, s.called)) = some (0, true) := by decide +kernel
  obtain ⟨s, hs, hstate⟩ := Option.map_eq_some_iff.1 hrun
  obtain ⟨harrived, hcalled⟩ := Prod.mk.inj hstate
  have hstart : queryMachine.init (.start pooled 10 10) :=
    ⟨pooled, 10, 10, by decide, by decide, rfl⟩
  obtain ⟨tr, hr, hG⟩ := Machine.exists_guarded_run hstart hs
  exact ⟨tr, s, hr, harrived, hcalled, (awake_iff hr).2 hG⟩

/-- The response is in the socket, one `PQconsumeInput` reads 4 of its 10 bytes, and nothing will
    ever report the other 6. -/
theorem partial_read : ∃ s, queryMachine.Reachable s ∧ ¬ s.Awake := by
  have hrun : ((queryMachine.exec (.start pooled 10 10)
      [.send "q" ⟨1, 0⟩, .arrive 10, .report ⟨epollIn, 5⟩, .dispatch (readOk 1) 4]).map
      fun s => decide s.Awake) = some false := by decide +kernel
  obtain ⟨s, hs, hawake⟩ := Option.map_eq_some_iff.1 hrun
  have hstart : queryMachine.Reachable (.start pooled 10 10) :=
    .start ⟨pooled, 10, 10, by decide, by decide, rfl⟩
  exact ⟨s, hstart.exec hs, of_decide_eq_false hawake⟩

/-- The other way: the whole response is read while the query is still being sent. The switch to
    reading finds the socket empty, and nobody asks libpq again. -/
example : ((queryMachine.exec (.start pooled 10 10)
      [.send "q" ⟨1, 1⟩, .arrive 10, .report ⟨epollIn ||| epollOut, 5⟩,
        .dispatch (readOk 0) 10]).map
      fun s => (s.unread, s.first, s.buffered, decide s.Awake)) = some (0, 10, 10, false) := by
  decide +kernel

end FiberConn
