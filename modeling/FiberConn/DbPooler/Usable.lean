import FiberConn.DbPooler.Proofs

set_option autoImplicit false

/-! # Usable connections only

A connection is given back to `available_conns` when its query's callback returns, whatever ended
the query. If that was a failure of the connection itself (`EPOLLERR`, `PQconsumeInput` returning 0,
`PQflush` returning -1), libpq is left in the middle of a command on a connection it will refuse to
use again. And libpq can find the connection closed without any of these: a server that goes away
sends its last error first, and `PQgetResult` returns this error, then `NULL`. Only `PQstatus`
tells, which the code never asks: `closed log` says that it is `CONNECTION_BAD` after the calls of
the newest entry of `log`.

`Tidy` follows the connections: as long as none is given back broken, those that wait, connect or
are about to be sent a query are intact, and libpq is idle on all that serve none. -/

namespace FiberConn

open Machine

/-- A call after which libpq has given the connection up. -/
def Effect.Breaks : Effect → Bool
  | .pq (.flush ret) => ret == -1
  | .pq (.consumeInput ret) => ret == 0
  | _ => false

/-- A history entry in which connection `c` failed. -/
def Obs.Breaks (c : ℕ) : Obs → Bool
  | .sent c' _ _ effs => c' == c && effs.any Effect.Breaks
  | .handled c' _ ev effs => c' == c && (ev.has epollErr || effs.any Effect.Breaks)
  | _ => false

/-- A call made for a query; in each of them libpq can find the connection closed. -/
def Effect.ServesQuery : Effect → Bool
  | .pq (.sendQuery _ _) => true
  | .pq (.flush _) => true
  | .pq (.consumeInput _) => true
  | .pq (.isBusy _) => true
  | .pq (.getResult _) => true
  | _ => false

/-- A history entry with such calls on connection `c`. -/
def Obs.Serves (c : ℕ) : Obs → Bool
  | .sent c' _ _ effs => c' == c && effs.any Effect.ServesQuery
  | .handled c' _ _ effs => c' == c && effs.any Effect.ServesQuery
  | _ => false

section Status

variable (closed : List Obs → Bool)

/-- Connection `c` has failed, or libpq has found it closed. -/
def Broken (c : ℕ) : List Obs → Bool
  | [] => false
  | o :: older => o.Breaks c || (o.Serves c && closed (o :: older)) || Broken c older

end Status

variable {closed : List Obs → Bool}

theorem broken_cons {c : ℕ} {o : Obs} {log : List Obs} : Broken closed c (o :: log) =
    (o.Breaks c || (o.Serves c && closed (o :: log)) || Broken closed c log) := rfl

/-- Among plain calls every failure breaks the connection. -/
theorem Effect.breaks_of_fails {e : Effect} (hp : e.Plain) (hf : e.Fails) : e.Breaks = true := by
  unfold Effect.Fails at hf
  split at hf
  · exact hp.elim
  · exact beq_iff_eq.2 hf
  · exact beq_iff_eq.2 hf
  · exact hp.elim
  · exact hf.elim

/-- Handling an event starts no command. -/
theorem command_of_handled {effs : List Effect} {command : Option ℕ} {n : ℕ}
    (h : effs.foldl (commandAfter none) command = some n) : command = some n := by
  induction effs generalizing command with
  | nil => exact h
  | cons e effs ih =>
      have hn := ih h
      unfold commandAfter at hn
      split at hn
      · split at hn
        · exact hn
        · rwa [Option.or_none] at hn
      · exact absurd hn (by simp)
      · exact hn

namespace Dbconnection

variable {conn : Dbconnection} {ev : EpollEvent} {a : PqAnswers}

/-- A connect that goes on or succeeds has not broken its connection. -/
theorem connecting_breaks (h : conn.connectionState = .connecting)
    (hok : CallsBack (conn.handleEvent ev a).2 = true → (conn.handleEvent ev a).1.isError = false) :
    ev.has epollErr = false ∧ (conn.handleEvent ev a).2.any Effect.Breaks = false ∧
      (conn.handleEvent ev a).2.any Effect.ServesQuery = false := by
  unfold handleEvent at hok ⊢
  split at hok
  · exact absurd (hok rfl) (by simp)
  next herr =>
  rw [if_neg herr, h]
  refine ⟨by simpa using herr, ?_⟩
  dsimp only [handleConnecting]
  cases a.connectPoll <;> exact ⟨rfl, rfl⟩

/-- A query that ends without breaking its connection has ended its command. -/
theorem QueryOutcome.command_calls {r : Dbconnection × List Effect}
    (ho : QueryOutcome conn ev a r) (hcb : CallsBack r.2 = true) (command : Option ℕ) :
    (ev.has epollErr || r.2.any Effect.Breaks) = true ∨
      r.2.foldl (commandAfter none) command = none := by
  cases ho with
  | waits _ _ hcb' => rw [hcb'] at hcb; cases hcb
  | fails hcb' hplain hwhy =>
      left
      rcases hwhy with herr | ⟨e, he, hf⟩
      · rw [herr, Bool.true_or]
      · rw [Bool.or_eq_true]
        exact Or.inr (List.any_eq_true.2 ⟨e, he, Effect.breaks_of_fails (hplain e he) hf⟩)
  | completes herr hret =>
      right
      rw [List.foldl_append]
      rfl

end Dbconnection

namespace PoolState

section Status

variable (closed : List Obs → Bool)

/-- A connection that can serve a query: its connect succeeded, libpq has no command in progress on
    it, has not given it up and has not found it closed. -/
structure Usable (w : PoolState) (c : ℕ) : Prop where
  connected : ConnectSucceeded c w.log
  idle : w.command c = none
  live : Broken closed c w.log = false

/-- Only usable connections wait in `available_conns`, and only usable ones are handed a query. -/
def HandsOutUsable (w : PoolState) : Prop :=
  (∀ c ∈ w.pool.availableConns, w.Usable closed c) ∧
    ∀ c q, .send c q ∈ w.stack → w.Usable closed c

/-- When the callback of a query returns, the connection has not failed, nor has libpq found it
    closed. -/
def ReturnsLive (w : PoolState) : PoolLabel → Prop
  | .ret => ∀ f ∈ w.stack.head?, ∀ x ∈ f.calling?, Broken closed x.1 w.log = false
  | _ => True

instance (w : PoolState) (l : PoolLabel) : Decidable (w.ReturnsLive closed l) :=
  match l with
  | .ret => inferInstanceAs
      (Decidable (∀ f ∈ w.stack.head?, ∀ x ∈ f.calling?, Broken closed x.1 w.log = false))
  | .construct _ _ | .constructed | .accept _ | .delete _ | .submit _ _ | .send _ | .loop
  | .connectEvent _ _ _ | .queryEvent _ _ _ _ => inferInstanceAs (Decidable True)

/-- The connections that wait, connect, are about to be sent a query or do not exist yet. -/
def Intact (w : PoolState) (c : ℕ) : Prop :=
  c ∈ w.pool.availableConns ∨ c ∈ w.connecting ∨ (∃ q, .send c q ∈ w.stack) ∨ w.built ≤ c

structure Tidy (w : PoolState) : Prop where
  consistent : w.Consistent
  /-- A command in progress is that of a query in flight, or was left behind by a failure. -/
  commands : ∀ c n, w.command c = some n →
    Broken closed c w.log = true ∨ ∃ q, (c, q) ∈ w.flying
  live : ∀ c, w.Intact c → Broken closed c w.log = false

end Status

variable {w w' : PoolState} {l : PoolLabel} {c : ℕ}

theorem Tidy.handsOutUsable (h : w.Tidy closed) : w.HandsOutUsable closed := by
  have hc := h.consistent
  -- such a connection is intact and has no query in flight
  have husable (c : ℕ) (hmem : c ∈ w.pool.connectedConns) (hintact : w.Intact c)
      (hflying : ∀ x ∈ w.flying, x.1 ≠ c) : w.Usable closed c := by
    refine ⟨(hc.succeeded c).1 hmem, ?_, h.live c hintact⟩
    cases hcommand : w.command c with
    | none => rfl
    | some n =>
        rcases h.commands c n hcommand with hbroken | ⟨q, hq⟩
        · rw [h.live c hintact] at hbroken
          exact absurd hbroken Bool.false_ne_true
        · exact absurd rfl (hflying _ hq)
  constructor
  · intro c hfree
    exact husable c (hc.mem_of_available hfree) (Or.inl hfree) (hc.flying_ne_available hfree)
  · intro c q hstack
    exact husable c (hc.mem_of_inUse (mem_inUse_of_sending hstack))
      (Or.inr (Or.inr (Or.inl ⟨q, hstack⟩))) (hc.flying_ne_sending hstack)

/-- A connection that serves a query is in none of these places, unless the query is to be sent. -/
theorem Consistent.not_intact_of_inUse (h : w.Consistent) {q : PendingQuery}
    (huse : (c, q) ∈ w.inUse) (hsend : ∀ q', .send c q' ∉ w.stack) : ¬ w.Intact c := by
  rintro (hfree | hconn | ⟨q', hq'⟩ | hnew)
  · exact h.not_available_of_inUse huse hfree
  · exact h.ne_of_connecting hconn (h.mem_of_inUse huse) rfl
  · exact hsend q' hq'
  · exact absurd (h.members_lt c (h.mem_of_inUse huse)) (Nat.not_lt.2 hnew)

theorem Consistent.not_intact_of_calling (h : w.Consistent) {q : PendingQuery}
    (hc : .user c q ∈ w.stack) : ¬ w.Intact c := by
  refine h.not_intact_of_inUse (mem_inUse_of_calling hc) fun q' hq' => ?_
  have hnd := h.inUse_nodup
  rw [inUse, List.map_append, List.nodup_append] at hnd
  have hcalling : c ∈ w.calling.map Prod.fst :=
    List.mem_map.2 ⟨(c, q), List.mem_filterMap.2 ⟨_, hc, rfl⟩, rfl⟩
  have hsending : (c, q') ∈ w.sending := List.mem_filterMap.2 ⟨_, hq', rfl⟩
  exact hnd.2.2 c (List.mem_map.2 ⟨_, List.mem_append_left _ hsending, rfl⟩) c hcalling rfl

theorem Consistent.not_intact_of_flying (h : w.Consistent) {q : PendingQuery}
    (hq : (c, q) ∈ w.flying) : ¬ w.Intact c :=
  h.not_intact_of_inUse (mem_inUse_of_flying hq) fun _ hq' => h.flying_ne_sending hq' _ hq rfl

/-- The places of `w'` one by one. -/
theorem Intact.elim (h : w'.Intact c) (hfree : c ∈ w'.pool.availableConns → w.Intact c)
    (hconn : c ∈ w'.connecting → w.Intact c) (hsend : ∀ q, .send c q ∈ w'.stack → w.Intact c)
    (hnew : w'.built ≤ c → w.Intact c) : w.Intact c := by
  rcases h with h | h | ⟨q, h⟩ | h
  · exact hfree h
  · exact hconn h
  · exact hsend q h
  · exact hnew h

theorem Intact.free (h : c ∈ w.pool.availableConns) : w.Intact c := Or.inl h

theorem Intact.connecting (h : c ∈ w.connecting) : w.Intact c := Or.inr (Or.inl h)

theorem Intact.send (q : PendingQuery) (h : .send c q ∈ w.stack) : w.Intact c :=
  Or.inr (Or.inr (Or.inl ⟨q, h⟩))

theorem Intact.unbuilt (h : w.built ≤ c) : w.Intact c := Or.inr (Or.inr (Or.inr h))

/-- Where only `available_conns` and the call stack change. -/
theorem Intact.move (h : w'.Intact c) (hconn : w'.connecting = w.connecting)
    (hnew : w'.built = w.built) (hfree : c ∈ w'.pool.availableConns → w.Intact c)
    (hsend : ∀ q, .send c q ∈ w'.stack → w.Intact c) : w.Intact c := by
  refine h.elim hfree ?_ hsend ?_
  · intro hmem
    exact .connecting (hconn ▸ hmem)
  · intro hle
    exact .unbuilt (hnew ▸ hle)

/-- A connection that is handed a query waited before. -/
theorem Intact.of_handed (h : w'.Intact c) {c' : ℕ} {q : PendingQuery}
    (hfree : w.pool.availableConns = c' :: w'.pool.availableConns)
    (hstack : w'.stack = .send c' q :: w.stack) (hconn : w'.connecting = w.connecting)
    (hnew : w'.built = w.built) : w.Intact c := by
  refine h.move hconn hnew ?_ ?_
  · intro hmem
    exact .free (hfree ▸ List.mem_cons_of_mem _ hmem)
  · intro q' hq
    rw [hstack] at hq
    rcases List.mem_cons.1 hq with he | hq
    · obtain ⟨rfl, -⟩ := Frame.send.inj he
      exact .free (hfree ▸ List.mem_cons_self)
    · exact .send q' hq

/-- Entries that neither break the connection nor serve a query on it. -/
theorem broken_skip {o : Obs} {log : List Obs} (hb : o.Breaks c = false)
    (hs : o.Serves c = false) : Broken closed c (o :: log) = Broken closed c log := by
  rw [broken_cons, hb, hs, Bool.false_and, Bool.or_false, Bool.false_or]

/-- An entry about another connection. -/
theorem broken_sent {c' : ℕ} {q : PendingQuery} {command : Option ℕ} {effs : List Effect}
    {log : List Obs} (hne : c ≠ c') :
    Broken closed c (.sent c' q command effs :: log) = Broken closed c log :=
  broken_skip (by simp [Obs.Breaks, Ne.symm hne]) (by simp [Obs.Serves, Ne.symm hne])

theorem broken_handled {c' : ℕ} {command : Option ℕ} {ev : EpollEvent} {effs : List Effect}
    {log : List Obs} (hne : c ≠ c') :
    Broken closed c (.handled c' command ev effs :: log) = Broken closed c log :=
  broken_skip (by simp [Obs.Breaks, Ne.symm hne]) (by simp [Obs.Serves, Ne.symm hne])

/-- A connection that stops connecting is intact only if it became available. -/
theorem Intact.available_of_connected (hintact : w'.Intact c) (h : w.Consistent)
    (hs : w.stack = []) (hmem : c ∈ w.connecting) (hconn : w'.connecting = w.connecting.erase c)
    (hstack : w'.stack = w.stack) (hnew : w'.built = w.built) : c ∈ w'.pool.availableConns := by
  rcases hintact with hfree | hconn' | ⟨q, hq⟩ | hnew'
  · exact hfree
  · exact absurd (hconn ▸ hconn') h.connecting_nodup.not_mem_erase
  · rw [hstack, hs] at hq
    cases hq
  · rw [hnew] at hnew'
    exact absurd (h.connecting_new c hmem).2 (Nat.not_lt.2 hnew')

/-- A connect that has failed leaves the connections for good. -/
theorem Tidy.live_connectEvent {c' : ℕ} {ev : EpollEvent} {a : PqAnswers} (h : w.Tidy closed)
    (hn : w.next (.connectEvent c' ev a) = some w') (hintact : w'.Intact c) :
    Broken closed c w'.log = false := by
  have hc := h.consistent
  obtain ⟨⟨hs, hmem⟩, hn⟩ := Option.ite_none_right_eq_some.1 hn
  have hstate := (hc.connecting_state c' hmem).1
  have hnotfree : c' ∉ w.pool.availableConns := by
    intro hfree
    exact (hc.connecting_new c' hmem).1 (hc.mem_of_available hfree)
  have hlog : w'.log =
      .handled c' (w.command c') ev ((w.conns c').handleEvent ev a).2 :: w.log := by
    dsimp only at hn
    split at hn <;> obtain rfl := Option.some.inj hn <;> rfl
  rw [hlog]
  by_cases hcc : c = c'
  · -- were the connect over and failed, the connection would be nowhere
    subst hcc
    have hok : CallsBack ((w.conns c).handleEvent ev a).2 = true →
        ((w.conns c).handleEvent ev a).1.isError = false := by
      intro hcb
      dsimp only at hn
      rw [if_pos hcb] at hn
      obtain rfl := Option.some.inj hn
      by_contra herr
      have hfree := hintact.available_of_connected hc hs hmem rfl rfl rfl
      simp only [DBpooler.onConnect, herr, if_false] at hfree
      exact hnotfree hfree
    obtain ⟨herr, hbreaks, hserves⟩ := Dbconnection.connecting_breaks hstate hok
    rw [broken_skip (by simp [Obs.Breaks, herr, hbreaks]) (by simp [Obs.Serves, hserves])]
    exact h.live c (.connecting hmem)
  · rw [broken_handled hcc]
    refine h.live c ?_
    dsimp only at hn
    split at hn <;> obtain rfl := Option.some.inj hn
    · refine hintact.elim (w := w) ?_ ?_ (fun q h => .send q h) fun h => .unbuilt h
      · intro hfree
        refine .free ?_
        dsimp only [DBpooler.onConnect] at hfree
        split at hfree
        · refine (List.mem_append.1 hfree).resolve_right ?_
          exact fun hlast => hcc (List.mem_singleton.1 hlast)
        · exact hfree
      · intro hconn
        exact .connecting (List.mem_of_mem_erase hconn)
    · exact hintact

/-- Connects aside, a connection that is intact after a step was intact before, unless its query's
    callback has just returned. -/
theorem Outcome.intact_back (ho : Outcome w l w')
    (hconnect : ¬ ∃ c ev a, l = .connectEvent c ev a) (hintact : w'.Intact c) :
    w.Intact c ∨ l = .ret ∧ ∃ q, w.stack.head? = some (.user c q) := by
  cases ho with
  | @construct _ _ conn effs more hs hlt hmore =>
      left
      refine hintact.elim (fun h => .free h) ?_ ?_ fun hnew => .unbuilt (Nat.le_of_succ_le hnew)
      · intro hconn
        rcases List.mem_append.1 hconn with hconn | hconn
        · exact .connecting hconn
        · obtain rfl : c = w.built := by
            rcases hmore with rfl | ⟨rfl, -⟩
            · cases hconn
            · exact List.mem_singleton.1 hconn
          exact .unbuilt le_rfl
      · intro q hq
        simp at hq
  | constructed hs =>
      refine Or.inl (hintact.move rfl rfl (fun h => .free h) fun q hq => ?_)
      simp at hq
  | accept => exact Or.inl hintact
  | delete => exact Or.inl hintact
  | grant hu hq hfree => exact Or.inl (hintact.of_handed hfree rfl rfl rfl)
  | defer => exact Or.inl hintact
  | resume hs hfree hpending => exact Or.inl (hintact.of_handed hfree rfl rfl rfl)
  | drained hs hdone =>
      refine Or.inl (hintact.move rfl rfl (fun h => .free h) fun q hq => ?_)
      exact .send q (hs ▸ List.mem_cons_of_mem _ hq)
  | sendCalls hs =>
      refine Or.inl (hintact.move rfl rfl (fun h => .free h) fun q hq => ?_)
      refine .send q (hs ▸ List.mem_cons_of_mem _ ?_)
      simpa [complete] using hq
  | sendWaits hs =>
      refine Or.inl (hintact.move rfl rfl (fun h => .free h) fun q hq => ?_)
      exact .send q (hs ▸ List.mem_cons_of_mem _ hq)
  | @ret c' q' rest hs =>
      by_cases hgiven : c = c'
      · subst hgiven
        exact Or.inr ⟨rfl, q', by rw [hs, List.head?_cons]⟩
      · refine Or.inl (hintact.move rfl rfl ?_ ?_)
        · intro hmem
          refine .free ((List.mem_append.1 hmem).resolve_right ?_)
          exact fun hlast => hgiven (List.mem_singleton.1 hlast)
        · intro q hq
          refine .send q (hs ▸ List.mem_cons_of_mem _ ?_)
          simpa [giveBack] using hq
  | connectWaits => exact absurd ⟨_, _, _, rfl⟩ hconnect
  | connectFails => exact absurd ⟨_, _, _, rfl⟩ hconnect
  | connects => exact absurd ⟨_, _, _, rfl⟩ hconnect
  | queryWaits => exact Or.inl hintact
  | queryCalls =>
      refine Or.inl (hintact.move rfl rfl (fun h => .free h) fun q hq => ?_)
      simp [complete] at hq

/-- Connects aside, a step logs no failure and no call for a query of a connection that is intact
    after it. What becomes of a connection in flight is looked at when its callback returns. -/
theorem Outcome.broken_of_intact (ho : Outcome w l w') (h' : w'.Consistent)
    (hconnect : ¬ ∃ c ev a, l = .connectEvent c ev a) (hintact : w'.Intact c) :
    Broken closed c w'.log = Broken closed c w.log := by
  -- the connection a query is being served on is not intact
  have hcalling {c' : ℕ} {q : PendingQuery} (hc' : .user c' q ∈ w'.stack) : c ≠ c' := by
    rintro rfl
    exact h'.not_intact_of_calling hc' hintact
  have hflying {c' : ℕ} {q : PendingQuery} (hq : (c', q) ∈ w'.flying) : c ≠ c' := by
    rintro rfl
    exact h'.not_intact_of_flying hq hintact
  cases ho with
  | construct => exact broken_skip rfl rfl
  | constructed => rfl
  | accept => exact broken_skip rfl rfl
  | delete => exact broken_skip rfl rfl
  | grant => exact (broken_skip rfl rfl).trans (broken_skip rfl rfl)
  | defer => exact (broken_skip rfl rfl).trans (broken_skip rfl rfl)
  | resume => exact broken_skip rfl rfl
  | drained => rfl
  | sendCalls =>
      exact (broken_skip rfl rfl).trans (broken_sent (hcalling List.mem_cons_self))
  | sendWaits => exact broken_sent (hflying List.mem_cons_self)
  | ret => rfl
  | connectWaits => exact absurd ⟨_, _, _, rfl⟩ hconnect
  | connectFails => exact absurd ⟨_, _, _, rfl⟩ hconnect
  | connects => exact absurd ⟨_, _, _, rfl⟩ hconnect
  | queryWaits hs hq => exact broken_handled (hflying hq)
  | queryCalls =>
      exact (broken_skip rfl rfl).trans (broken_handled (hcalling List.mem_cons_self))

/-- **The connections that have to be intact stay intact**, as long as none is given back broken. -/
theorem Tidy.live_next (h : w.Tidy closed) (hG : w.ReturnsLive closed l) (hn : w.next l = some w')
    (c : ℕ) (hintact : w'.Intact c) : Broken closed c w'.log = false := by
  by_cases hconnect : ∃ c ev a, l = .connectEvent c ev a
  · obtain ⟨c', ev, a, rfl⟩ := hconnect
    exact h.live_connectEvent hn hintact
  have hc := h.consistent
  have ho := hc.outcome hn
  rw [ho.broken_of_intact (hc.next hn) hconnect hintact]
  rcases ho.intact_back hconnect hintact with hbefore | ⟨rfl, q, hs⟩
  · exact h.live c hbefore
  · exact hG (.user c q) hs (c, q) rfl

/-- A connection stays broken. -/
theorem Outcome.broken_next (ho : Outcome w l w') (h : Broken closed c w.log = true) :
    Broken closed c w'.log = true := by
  cases ho <;> simp [broken_cons, h, complete, giveBack, runSend, runEvent]

/-- An event on `c'` starts no command on any connection. -/
theorem command_of_runEvent {c' : ℕ} (ev : EpollEvent) {r : Dbconnection × List Effect} {n : ℕ}
    (h : (w.runEvent c' ev r).command c = some n) : w.command c = some n := by
  by_cases hc : c = c'
  · subst hc
    simp only [runEvent, Function.update_self] at h
    exact command_of_handled h
  · simpa only [runEvent, Function.update_of_ne hc] using h

/-- **Every command in progress is accounted for.** Only `PQsendQuery` starts one, and it stays
    with its query unless the connection fails. -/
theorem Tidy.commands_next (h : w.Tidy closed) (ho : Outcome w l w') (c n : ℕ)
    (hn : w'.command c = some n) : Broken closed c w'.log = true ∨ ∃ q, (c, q) ∈ w'.flying := by
  have hc := h.consistent
  have hkeep (hold : w.command c = some n)
      (hfly : ∀ q, (c, q) ∈ w.flying → (c, q) ∈ w'.flying) :
      Broken closed c w'.log = true ∨ ∃ q, (c, q) ∈ w'.flying := by
    rcases h.commands c n hold with hbroken | ⟨q, hq⟩
    · exact Or.inl (ho.broken_next hbroken)
    · exact Or.inr ⟨q, hfly q hq⟩
  cases ho with
  | construct => exact hkeep hn fun _ hq => hq
  | constructed => exact hkeep hn fun _ hq => hq
  | accept => exact hkeep hn fun _ hq => hq
  | delete => exact hkeep hn fun _ hq => hq
  | grant => exact hkeep hn fun _ hq => hq
  | defer => exact hkeep hn fun _ hq => hq
  | resume => exact hkeep hn fun _ hq => hq
  | drained => exact hkeep hn fun _ hq => hq
  | ret => exact hkeep hn fun _ hq => hq
  | @sendCalls a c' q' rest r hs ho hcb =>
      by_cases hcc : c = c'
      · subst hcc
        cases ho with
        | refused =>
            refine hkeep ?_ fun _ hq => hq
            simpa [complete, runSend, commandAfter] using hn
        | unsent =>
            exact Or.inl (by simp [broken_cons, Obs.Breaks, complete, runSend, Effect.Breaks])
        | tracked => simp [CallsBack, Effect.IsCallback] at hcb
      · refine hkeep ?_ fun _ hq => hq
        simpa only [complete, runSend, Function.update_of_ne hcc] using hn
  | @sendWaits a c' q' rest r hs ho hcb =>
      by_cases hcc : c = c'
      · exact Or.inr ⟨q', hcc ▸ List.mem_cons_self⟩
      · refine hkeep ?_ fun _ hq => List.mem_cons_of_mem _ hq
        simpa only [runSend, Function.update_of_ne hcc] using hn
  | @connectWaits _ ev => exact hkeep (command_of_runEvent ev hn) fun _ hq => hq
  | @connectFails _ ev => exact hkeep (command_of_runEvent ev hn) fun _ hq => hq
  | @connects _ ev => exact hkeep (command_of_runEvent ev hn) fun _ hq => hq
  | @queryWaits _ _ ev => exact hkeep (command_of_runEvent ev hn) fun _ hq => hq
  | @queryCalls c' q' ev a r hs hq ho hcb =>
      by_cases hcc : c = c'
      · subst hcc
        rcases ho.command_calls hcb (w.command c) with hbreaks | hnone
        · left
          simp [complete, runEvent, broken_cons, Obs.Breaks, hbreaks]
        · simp only [complete, runEvent, Function.update_self, hnone] at hn
          cases hn
      · refine hkeep (command_of_runEvent ev hn) fun q hq => ?_
        exact (List.mem_erase_of_ne fun he => hcc (Prod.mk.inj he).1).2 hq

theorem Tidy.next (h : w.Tidy closed) (hG : w.ReturnsLive closed l) (hn : w.next l = some w') :
    w'.Tidy closed where
  consistent := h.consistent.next hn
  commands := h.commands_next (h.consistent.outcome hn)
  live := h.live_next hG hn

theorem tidy_start (connectionInfo : String) (poolSize : ℤ) :
    (start connectionInfo poolSize).Tidy closed where
  consistent := consistent_start connectionInfo poolSize
  commands _ _ h := by cases h
  live _ _ := rfl

/-- A connection given back broken is available, and not usable. -/
theorem Tidy.returnsLive (h : w.Tidy closed) (hn : w.next l = some w')
    (hP : w'.HandsOutUsable closed) : w.ReturnsLive closed l := by
  cases l with
  | ret =>
      intro f hf x hx
      cases h.consistent.outcome hn with
      | @ret c q rest hs =>
          rw [hs, List.head?_cons, Option.mem_some_iff] at hf
          subst hf
          obtain rfl := Option.some.inj hx
          have husable := hP.1 c (by simp [giveBack])
          exact husable.live
  | _ => trivial

end PoolState

open PoolState

/-- **Only usable connections.** Whenever libpq may find a connection closed: in every state of a
    run the connections in `available_conns`, and those a query is handed, have a live libpq
    connection with no command in progress, exactly when no query's callback has returned after its
    connection failed or libpq found it closed. -/
theorem hands_out_usable_iff (closed : List Obs → Bool) {tr : List (PoolState × PoolLabel)}
    {w : PoolState} (hr : poolMachine.Run tr w) :
    Throughout (HandsOutUsable closed) tr w ↔ Guarded (ReturnsLive closed) tr := by
  refine hr.law_iff_guard (I := Tidy closed) ?_ (fun _ h => h.handsOutUsable)
    (fun _ _ _ h hG hn => h.next hG hn) fun _ _ _ h hn hP => h.returnsLive hn hP
  rintro _ ⟨connectionInfo, poolSize, rfl⟩
  exact tidy_start connectionInfo poolSize

/-- The server stays. -/
theorem hands_out_usable_one : ∃ tr w, poolMachine.Run tr w ∧ w.stack = [] ∧
    w.inUse = [(0, ⟨"q1", "b", 1⟩)] ∧ Throughout (HandsOutUsable fun _ => false) tr w := by
  have hrun : (((poolMachine.restrict (ReturnsLive fun _ => false)).exec (.start "db" 1)
      oneConnection).map fun w => (w.stack, w.inUse)) = some ([], [(0, ⟨"q1", "b", 1⟩)]) := by
    decide +kernel
  obtain ⟨w, hw, hstate⟩ := Option.map_eq_some_iff.1 hrun
  obtain ⟨hstack, hinUse⟩ := Prod.mk.inj hstate
  obtain ⟨tr, hr, hG⟩ :=
    Machine.exists_guarded_run (M := poolMachine) ⟨"db", 1, rfl⟩ hw
  exact ⟨tr, w, hr, hstack, hinUse, (hands_out_usable_iff (fun _ => false) hr).2 hG⟩

/-- `EPOLLERR` ends a query of two, in the middle of its command, and the connection goes back. It
    is the first to be handed out after the next query, although the other one is free. -/
def errorThenReuse : List PoolLabel :=
  [.construct 0 (some 5), .construct 0 (some 6), .constructed,
    .connectEvent 0 ⟨epollOut, 5⟩ connectOk, .connectEvent 1 ⟨epollOut, 6⟩ connectOk,
    .submit "q0" "a", .send ⟨1, 0⟩, .queryEvent 0 ⟨"q0", "a", 0⟩ ⟨epollErr, 5⟩ queryOk, .ret, .loop,
    .submit "q1" "a", .send ⟨1, 0⟩, .queryEvent 1 ⟨"q1", "a", 1⟩ ⟨epollIn, 6⟩ queryOk, .ret, .loop,
    .submit "q2" "a"]

theorem broken_connection_reused : ∃ w, poolMachine.Reachable w ∧
    (∀ closed, ¬ w.HandsOutUsable closed) ∧
    .send 0 ⟨"q2", "a", 2⟩ ∈ w.stack ∧ w.pool.availableConns = [1] ∧
    w.command 0 = some 0 ∧ w.command 1 = none ∧ Broken (fun _ => false) 1 w.log = false := by
  have hrun : ((poolMachine.exec (.start "db" 2) errorThenReuse).map
      fun w => (w.stack, w.pool.availableConns, [w.command 0, w.command 1],
        Broken (fun _ => false) 1 w.log))
      = some ([.send 0 ⟨"q2", "a", 2⟩], [1], [some 0, none], false) := by decide +kernel
  obtain ⟨w, hw, hstate⟩ := Option.map_eq_some_iff.1 hrun
  simp only [Prod.mk.injEq, List.cons.injEq, and_true] at hstate
  obtain ⟨hstack, hfree, ⟨hmid, hidle⟩, hlive⟩ := hstate
  have hreach : poolMachine.Reachable w := reachable_exec "db" 2 hw
  have hsend : .send 0 ⟨"q2", "a", 2⟩ ∈ w.stack := by
    rw [hstack]
    exact List.mem_cons_self
  refine ⟨w, hreach, ?_, hsend, hfree, hmid, hidle, hlive⟩
  intro closed hlaw
  rw [(hlaw.2 0 _ hsend).idle] at hmid
  cases hmid

/-- The server is shut down while it executes a query: the error it sends and the `NULL` after it
    are all that the code sees. -/
def shutdownThenReturn : List PoolLabel :=
  [.construct 0 (some 5), .constructed, .connectEvent 0 ⟨epollOut, 5⟩ connectOk, .submit "q0" "a",
    .send ⟨1, 0⟩, .queryEvent 0 ⟨"q0", "a", 0⟩ ⟨epollIn, 5⟩
      { queryOk with results := [⟨.fatalError, 0, 0, fun _ _ => ""⟩] }, .ret, .loop]

/-- libpq finds the connection closed when an event is handled. -/
def closedAtEvent : List Obs → Bool
  | .handled _ _ _ _ :: _ => true
  | _ => false

example : (poolMachine.exec (.start "db" 1) shutdownThenReturn).map (fun w =>
    (w.pool.availableConns, Broken closedAtEvent 0 w.log, Broken (fun _ => false) 0 w.log)) =
      some ([0], true, false) := by decide +kernel

end FiberConn
