import FiberConn.DbPooler.Isolation
import FiberConn.DbPooler.Routing
import FiberConn.Lib.Refinement
import FiberConn.Server

set_option autoImplicit false

/-! # One step of the server

`Outcome` says what a step does, with the lambda it runs still to be run; the lambdas have their own
inversions. A step of the server is at most one step of the pool, so the pool in it is one of the
pool's own machine, whatever the clients do. -/

namespace FiberConn

open Machine

namespace Server

variable {J : Json} {L : Llhttp} {s t : Server J L} {l : ServerLabel}

/-! ## Inversion -/

/-- The state in which the lambda of an operation is run. -/
def calledBack (s : Server J L) (client : ℕ) (r : Receipt (Clientconnection L)) : Server J L :=
  { s.handled client r with outstanding := Function.update s.outstanding client none }

/-- The state in which the lambda of the query `q` is run. -/
def entered (s : Server J L) (q : PendingQuery) : Server J L :=
  { s with callback := Function.update s.callback q.cb none }

/-- `new Clientconnection` with the first `read`. -/
def welcome (s : Server J L) (sockfd : ℤ) (connectionId : String) (granted : Bool)
    (w : PoolState) : Server J L :=
  { s with
    pool := w
    clients := Function.update s.clients s.pool.accepted (some (.new sockfd connectionId))
    outstanding := Function.update s.outstanding s.pool.accepted (heldIf granted .read) }

/-- What a step can do. -/
inductive Outcome (s : Server J L) : ServerLabel → Server J L → Prop
  | pool {l : PoolLabel} {w : PoolState} (hp : s.Permits l) (hn : s.pool.next l = some w) :
      Outcome s (.pool l) { s with pool := w }
  | accept {sockfd : ℤ} {connectionId : String} {granted : Bool} {w : PoolState}
      (hs : s.pool.stack = []) (hn : s.pool.next (.accept connectionId) = some w) :
      Outcome s (.accept sockfd connectionId granted) (s.welcome sockfd connectionId granted w)
  | waits {client : ℕ} {op : ClientOp} {c : Clientconnection L} {ev : EpollEvent}
      {recvs : List RecvResult} {sends : List SendResult} {granted : Bool} (hs : s.pool.stack = [])
      (hop : s.outstanding client = some op) (hc : s.clients client = some c)
      (hr : op.Reports ev) (hh : HonestSends (c.handleEvent ev recvs sends).effects)
      (hcb : CallsBack (c.handleEvent ev recvs sends).effects = false) :
      Outcome s (.event client ev recvs sends granted)
        (s.handled client (c.handleEvent ev recvs sends))
  | calls {client : ℕ} {op : ClientOp} {c : Clientconnection L} {ev : EpollEvent}
      {recvs : List RecvResult} {sends : List SendResult} {granted : Bool} (hs : s.pool.stack = [])
      (hop : s.outstanding client = some op) (hc : s.clients client = some c)
      (hr : op.Reports ev) (hh : HonestSends (c.handleEvent ev recvs sends).effects)
      (hcb : CallsBack (c.handleEvent ev recvs sends).effects = true) :
      Outcome s (.event client ev recvs sends granted)
        ((s.calledBack client (c.handleEvent ev recvs sends)).run client
          (c.handleEvent ev recvs sends).conn granted op)
  | stale {client : ℕ} {op : ClientOp} {ev : EpollEvent} {recvs : List RecvResult}
      {sends : List SendResult} {granted : Bool} (hop : s.outstanding client = some op)
      (hc : s.clients client = none) :
      Outcome s (.event client ev recvs sends granted) (s.fail .dangling)
  | body {conn : ℕ} {q : PendingQuery} {cb : QueryCallback} {rest : List Frame} {granted : Bool}
      (hs : s.pool.stack = .user conn q :: rest) (hcb : s.callback q.cb = some cb) :
      Outcome s (.body granted) ((s.entered q).runQuery conn granted cb)

theorem step_outcome (hn : s.next l = some t) : s.fault = none ∧ Outcome s l t := by
  obtain ⟨hfault, hn⟩ := Option.ite_none_right_eq_some.1 hn
  refine ⟨hfault, ?_⟩
  cases l with
  | pool l =>
      obtain ⟨hp, hn⟩ := Option.ite_none_right_eq_some.1 hn
      obtain ⟨w, hw, rfl⟩ := Option.map_eq_some_iff.1 hn
      exact .pool hp hw
  | accept sockfd connectionId granted =>
      obtain ⟨hs, hn⟩ := Option.ite_none_right_eq_some.1 hn
      obtain ⟨w, hw, rfl⟩ := Option.map_eq_some_iff.1 hn
      exact .accept hs hw
  | event client ev recvs sends granted =>
      simp only [step] at hn
      split at hn
      · cases hn
      next op hop =>
      obtain ⟨⟨hs, hr⟩, hn⟩ := Option.ite_none_right_eq_some.1 hn
      split at hn
      · next hc =>
          obtain rfl := Option.some.inj hn
          exact .stale hop hc
      next c hc =>
      obtain ⟨hh, hn⟩ := Option.ite_none_right_eq_some.1 hn
      split at hn
      · next hcb =>
          obtain rfl := Option.some.inj hn
          exact .calls hs hop hc hr hh hcb
      · next hcb =>
          obtain rfl := Option.some.inj hn
          exact .waits hs hop hc hr hh (by simpa using hcb)
  | body granted =>
      simp only [step] at hn
      split at hn
      · next conn q rest hs =>
          obtain ⟨cb, hcb, rfl⟩ := Option.map_eq_some_iff.1 hn
          exact .body hs hcb
      · cases hn

/-- What the lambda given to `read` does. -/
inductive ReadOutcome (s : Server J L) (client : ℕ) (c : Clientconnection L) (granted : Bool) :
    Server J L → Prop
  | deletes (h : c.isError = false →
      c.request.url ≠ ascii "/" ∧ J.parse c.request.body = none) :
      ReadOutcome s client c granted (s.delete client)
  | responds {body : Bytes} (h : J.AtOnce c.request body) (hr : J.Readable c.request)
      (herr : c.isError = false) :
      ReadOutcome s client c granted (s.respond client c body granted)
  | asks {book : ℤ × String} (h : J.Inserts c.request book) (hr : J.Readable c.request)
      (herr : c.isError = false) :
      ReadOutcome s client c granted
        (s.sendQuery (insertQuery book.1 book.2) c.connectionId .inserted)
  | throws (herr : c.isError = false) (h : ¬ J.Readable c.request) :
      ReadOutcome s client c granted (s.fail .exception)

theorem onRead_outcome (s : Server J L) (client : ℕ) (c : Clientconnection L) (granted : Bool) :
    ReadOutcome s client c granted (s.onRead client c granted) := by
  unfold onRead
  split
  · next herr => exact .deletes fun h => absurd (herr.symm.trans h) (by decide)
  next herr =>
  have herr : c.isError = false := by simpa using herr
  split
  · next hurl =>
      split
      · next hparse =>
          refine .responds ⟨hurl, ?_⟩ (fun j hj => ?_) herr
          · rw [hparse]
          · rw [hparse] at hj
            cases hj
      next j hparse =>
      split
      · next book body hbook hdump =>
          refine .responds ⟨hurl, ?_⟩ (fun j' hj => ?_) herr
          · rw [hparse]
            exact hdump
          · obtain rfl := Option.some.inj (hparse.symm.trans hj)
            exact ⟨by rw [hbook]; rfl, fun _ => by rw [hdump]; rfl⟩
      · next hno =>
          refine .throws herr fun hr => ?_
          obtain ⟨hbook, hdump⟩ := hr j hparse
          obtain ⟨book, hbook⟩ := Option.isSome_iff_exists.1 hbook
          obtain ⟨body, hdump⟩ := Option.isSome_iff_exists.1 (hdump hurl)
          exact hno book body hbook hdump
  · next hurl =>
      split
      · next hparse => exact .deletes fun _ => ⟨hurl, hparse⟩
      next j hparse =>
      split
      · next book hbook =>
          refine .asks ⟨hurl, j, hparse, hbook⟩ (fun j' hj => ?_) herr
          obtain rfl := Option.some.inj (hparse.symm.trans hj)
          exact ⟨by rw [hbook]; rfl, fun h => absurd h hurl⟩
      · next hbook =>
          refine .throws herr fun hr => ?_
          have hsome := (hr j hparse).1
          rw [hbook] at hsome
          cases hsome

/-- What the lambdas of queries do for the client their connection has as its parent. -/
inductive QueryOutcome (s : Server J L) (conn client : ℕ) (c : Clientconnection L)
    (granted : Bool) : QueryCallback → Server J L → Prop
  | returns {cb : QueryCallback} (herr : (s.pool.conns conn).isError = true) :
      QueryOutcome s conn client c granted cb s
  | asks (herr : (s.pool.conns conn).isError = false) :
      QueryOutcome s conn client c granted .inserted
        (s.sendQuery selectQuery c.connectionId .selected)
  | responds {body : Bytes} (herr : (s.pool.conns conn).isError = false)
      (h : J.listing (s.pool.conns conn).results = some body) :
      QueryOutcome s conn client c granted .selected (s.respond client c body granted)
  | fails {f : Fault} (herr : (s.pool.conns conn).isError = false)
      (hf : f = .exception ∨ f = .outOfRange)
      (h : J.listing (s.pool.conns conn).results = none) :
      QueryOutcome s conn client c granted .selected (s.fail f)

/-- The parent is a client that is there. -/
theorem runQuery_outcome {conn client : ℕ} {c : Clientconnection L}
    (hparent : (s.pool.conns conn).getParent s.pool.isAlive = some client)
    (hc : s.clients client = some c) (granted : Bool) (cb : QueryCallback) :
    QueryOutcome s conn client c granted cb (s.runQuery conn granted cb) := by
  cases herr : (s.pool.conns conn).isError with
  | true =>
      have hreturns (f : ℕ → Clientconnection L → Server J L) : s.withParent conn f = s := by
        rw [withParent, if_pos herr]
      cases cb with
      | inserted =>
          rw [runQuery, onInserted, hreturns]
          exact .returns herr
      | selected =>
          rw [runQuery, onSelected, hreturns]
          exact .returns herr
  | false =>
      have hgoes (f : ℕ → Clientconnection L → Server J L) :
          s.withParent conn f = f client c := by
        rw [withParent, if_neg (by rw [herr]; decide), hparent]
        dsimp only
        rw [hc]
      cases cb with
      | inserted =>
          rw [runQuery, onInserted, hgoes]
          exact .asks herr
      | selected =>
          rw [runQuery, onSelected, hgoes]
          cases htable : J.table (s.pool.conns conn).results with
          | none => exact .fails herr (Or.inr rfl) (by rw [Json.listing, htable]; rfl)
          | some j =>
              dsimp only
              have hlisting : J.listing (s.pool.conns conn).results = J.dump j := by
                rw [Json.listing, htable]
                rfl
              cases hdump : J.dump j with
              | some body => exact .responds herr (hlisting.trans hdump)
              | none => exact .fails herr (Or.inl rfl) (hlisting.trans hdump)

/-! ## The pool in the server -/

/-- libpq starts no command while one is in progress. -/
def CommandFree (s : Server J L) : ServerLabel → Prop
  | .pool l => s.pool.CommandFree l
  | _ => True

instance (s : Server J L) (l : ServerLabel) : Decidable (s.CommandFree l) := by
  cases l <;> unfold CommandFree <;> infer_instance

/-- What the users of the pool do: clients come and go, and queries are submitted. -/
def FromUser : PoolLabel → Prop
  | .accept _ => True
  | .delete _ => True
  | .submit _ _ => True
  | _ => False

/-- Such a step of the pool, or none at all. -/
def Quiet (w w' : PoolState) : Prop := w' = w ∨ ∃ l, w.next l = some w' ∧ FromUser l

theorem quiet_delete (s : Server J L) (client : ℕ) : Quiet s.pool (s.delete client).pool := by
  unfold delete
  split
  · next w hw => exact Or.inr ⟨_, hw, trivial⟩
  · exact Or.inl rfl

theorem pool_respond {client : ℕ} {c : Clientconnection L} {body : Bytes} {granted : Bool} :
    (s.respond client c body granted).pool = s.pool := by
  unfold respond
  split <;> rfl

theorem quiet_respond (s : Server J L) (client : ℕ) (c : Clientconnection L) (body : Bytes)
    (granted : Bool) : Quiet s.pool (s.respond client c body granted).pool := Or.inl pool_respond

/-- `sendQuery` is the pool's own, called by user code. -/
theorem sendQuery_next (hu : s.pool.UserCode) (query connectionId : String) (cb : QueryCallback) :
    s.pool.next (.submit query connectionId) = some (s.sendQuery query connectionId cb).pool :=
  if_pos hu

theorem quiet_sendQuery (hu : s.pool.UserCode) (query connectionId : String) (cb : QueryCallback) :
    Quiet s.pool (s.sendQuery query connectionId cb).pool :=
  Or.inr ⟨_, sendQuery_next hu query connectionId cb, trivial⟩

theorem quiet_run (hu : s.pool.UserCode) (client : ℕ) (c : Clientconnection L) (granted : Bool)
    (op : ClientOp) : Quiet s.pool (s.run client c granted op).pool := by
  cases op with
  | read =>
      have ho := onRead_outcome s client c granted
      rw [run]
      generalize s.onRead client c granted = t at ho
      cases ho with
      | deletes => exact quiet_delete s client
      | responds => exact quiet_respond s client c _ granted
      | asks => exact quiet_sendQuery hu _ _ _
      | throws => exact Or.inl rfl
  | write => exact quiet_delete (s.note _) client

theorem quiet_withParent {conn : ℕ} {f : ℕ → Clientconnection L → Server J L}
    (hf : ∀ client c, Quiet s.pool (f client c).pool) :
    Quiet s.pool (s.withParent conn f).pool := by
  unfold withParent
  split
  · exact Or.inl rfl
  split
  · exact Or.inl rfl
  split
  · exact hf _ _
  · exact Or.inl rfl

theorem quiet_runQuery (hu : s.pool.UserCode) (conn : ℕ) (granted : Bool) (cb : QueryCallback) :
    Quiet s.pool (s.runQuery conn granted cb).pool := by
  cases cb with
  | inserted => exact quiet_withParent fun _ _ => quiet_sendQuery hu _ _ _
  | selected =>
      refine quiet_withParent fun client c => ?_
      split
      · exact Or.inl rfl
      split
      · exact quiet_respond s client c _ granted
      · exact Or.inl rfl

theorem userCode_of_top {w : PoolState} {conn : ℕ} {q : PendingQuery} {rest : List Frame}
    (hs : w.stack = .user conn q :: rest) : w.UserCode := by
  rw [PoolState.UserCode, hs]
  trivial

theorem userCode_of_empty {w : PoolState} (hs : w.stack = []) : w.UserCode := by
  rw [PoolState.UserCode, hs]
  trivial

/-- A step that is not the pool's own leaves the pool to its users. -/
theorem Outcome.quiet (ho : Outcome s l t) (hl : ∀ l', l ≠ .pool l') : Quiet s.pool t.pool := by
  cases ho with
  | pool => exact absurd rfl (hl _)
  | accept hs hn => exact Or.inr ⟨_, hn, trivial⟩
  | waits => exact Or.inl rfl
  | @calls client op c ev recvs sends granted hs =>
      have huser := userCode_of_empty hs
      exact quiet_run (s := s.calledBack client _) huser client _ granted op
  | stale => exact Or.inl rfl
  | @body conn q cb rest granted hs =>
      exact quiet_runQuery (s := s.entered q) (userCode_of_top hs) conn granted cb

theorem FromUser.commandFree {l : PoolLabel} (h : FromUser l) (w : PoolState) :
    w.CommandFree l := by
  cases l with
  | send a => exact h.elim
  | _ => trivial

/-- **The server runs the pool**: a step of the server is a step of the pool, or leaves it. -/
theorem Outcome.pool_step (ho : Outcome s l t) :
    t.pool = s.pool ∨ ∃ l', s.pool.next l' = some t.pool ∧
      (s.CommandFree l → s.pool.CommandFree l') := by
  by_cases hl : ∃ l', l = .pool l'
  · obtain ⟨l', rfl⟩ := hl
    cases ho with
    | pool hp hn => exact Or.inr ⟨_, hn, id⟩
  · obtain hsame | ⟨l', hn, huser⟩ := ho.quiet (not_exists.1 hl)
    · exact Or.inl hsame
    · exact Or.inr ⟨l', hn, fun _ => huser.commandFree _⟩

/-- The pool of a run of the server has had a run of its own. -/
theorem run_pool {tr : List (Server J L × ServerLabel)} (h : (serverMachine J L).Run tr s) :
    ∃ tr', poolMachine.Run tr' s.pool ∧
      (Guarded CommandFree tr → Guarded PoolState.CommandFree tr') := by
  refine h.component (N := poolMachine) Server.pool ?_
    fun s l t hn => (step_outcome hn).2.pool_step
  rintro s rfl
  exact ⟨_, _, rfl⟩

theorem reachable_pool (h : (serverMachine J L).Reachable s) : poolMachine.Reachable s.pool := by
  obtain ⟨tr, hr⟩ := h
  obtain ⟨tr', hr', -⟩ := run_pool hr
  exact ⟨tr', hr'⟩

end Server

end FiberConn
