import FiberConn.Lib.Framed
import FiberConn.Server.Answers
import FiberConn.Server.Statements

set_option autoImplicit false

/-! # What a client makes of the bytes

A client reads a response by its head: up to the empty line, and then as many bytes as
`Content-Length` says. This reader is stable, and it reads the body back from every response the
server makes (`readResponse_httpResponse`), so a client that has received only a part of it is not
misled (`responses_framed_iff`). -/

namespace FiberConn

open Machine

/-! ## Reading a response -/

def emptyLine : Bytes := ascii "\r\n\r\n"

def contentLengthField : Bytes := ascii "\r\nContent-Length: "

/-- The number in the first `Content-Length` field. -/
def contentLength (head : Bytes) : Option ℕ :=
  (readTo contentLengthField head).bind fun x =>
    (readNat (x.2.map fun b => Char.ofNat b.toNat)).map Prod.fst

/-- The body that goes with a head. -/
def readBody (head rest : Bytes) : Option (Bytes × Bytes) :=
  match contentLength head with
  | some n => readExactly n rest
  | none => none

/-- The body of the first response in a stream, and what follows the response. -/
def readResponse (stream : Bytes) : Option (Bytes × Bytes) :=
  (readTo emptyLine stream).bind fun x => readBody x.1 x.2

theorem stable_readBody (head : Bytes) : Stable (readBody head) := by
  unfold readBody
  split
  · exact stable_readExactly _
  · intro xs b rest h
    cases h

theorem stable_readResponse : Stable readResponse :=
  (stable_readTo emptyLine).bind stable_readBody

/-! ## The server's responses -/

theorem ascii_append (s t : String) : ascii (s ++ t) = ascii s ++ ascii t := by
  unfold ascii
  rw [String.toList_append, List.map_append]

/-- What comes before the length, and what comes between the length and the empty line. -/
def statusAndType : Bytes := ascii "HTTP/1.1 200 OK\r\n" ++ ascii "Content-Type: text/plain"

def closing : Bytes := ascii "\r\nConnection: close"

theorem httpResponse_eq (body : Bytes) : httpResponse body =
    (statusAndType ++ contentLengthField) ++ (ascii (toString body.length) ++
      ((closing ++ emptyLine) ++ body)) := by
  have hlength : ascii "HTTP/1.1 200 OK\r\n" ++ ascii "Content-Type: text/plain\r\n" ++
      ascii "Content-Length: " = statusAndType ++ contentLengthField := by decide
  have hend : ascii "\r\n" ++ ascii "Connection: close\r\n" ++ ascii "\r\n" =
      closing ++ emptyLine := by decide
  rw [httpResponse, ascii_append, ascii_append, ← hlength, ← hend]
  simp only [List.append_assoc]

/-- The bytes of digits are between 48 and 57. -/
theorem byte_of_digit {n : ℕ} {c : Char} (hc : c ∈ n.repr.toList) :
    (UInt8.ofNat c.toNat).toNat = c.toNat ∧ 48 ≤ c.toNat ∧ c.toNat ≤ 57 := by
  rw [Nat.toList_repr] at hc
  obtain ⟨hge, hle⟩ : 48 ≤ c.toNat ∧ c.toNat ≤ 57 :=
    Char.isDigit_iff_toNat.1 (isDigit_of_mem hc)
  have hlt : c.toNat < 256 := by omega
  exact ⟨UInt8.toNat_ofNat_of_lt' hlt, hge, hle⟩

/-- Digits survive the way to bytes and back. -/
theorem map_ascii_repr (n : ℕ) :
    (ascii n.repr).map (fun b => Char.ofNat b.toNat) = n.repr.toList := by
  unfold ascii
  rw [List.map_map]
  refine (List.map_congr_left fun c hc => ?_).trans (List.map_id _)
  rw [Function.comp_apply, (byte_of_digit hc).1, Char.ofNat_toNat]
  rfl

/-- The digits of a length do not end the head. -/
theorem clear_digits (n : ℕ) : Clear emptyLine (ascii n.repr) := by
  have hempty : emptyLine = 13 :: [10, 13, 10] := by decide
  rw [hempty]
  refine clear_of_notMem fun hmem => ?_
  obtain ⟨c, hc, hcr⟩ := List.mem_map.1 hmem
  obtain ⟨hbyte, hge, -⟩ := byte_of_digit hc
  rw [hcr] at hbyte
  have h13 : (13 : UInt8).toNat = 13 := rfl
  omega

theorem contentLength_head (n : ℕ) : contentLength
    (statusAndType ++ contentLengthField ++ (ascii (toString n) ++ closing)) = some n := by
  have hfield : readTo contentLengthField (statusAndType ++ contentLengthField) =
      some (statusAndType, []) := by decide +kernel
  have hclosing : (closing.map fun b => Char.ofNat b.toNat).takeWhile Char.isDigit = [] := by
    decide
  rw [contentLength, stable_readTo contentLengthField hfield, Option.bind_some, List.nil_append,
    List.map_append, Nat.toString_eq_repr, map_ascii_repr, readNat_repr n hclosing]
  rfl

/-- **The body is read back.** -/
theorem readResponse_httpResponse (body : Bytes) :
    readResponse (httpResponse body) = some (body, []) := by
  have hclear : Clear emptyLine (statusAndType ++ contentLengthField) := by decide +kernel
  have hclosing : readTo emptyLine (closing ++ emptyLine) = some (closing, []) := by
    decide +kernel
  have hbody : readExactly body.length body = some (body, []) := by
    rw [readExactly, if_pos le_rfl, List.take_length, List.drop_length]
  rw [readResponse, httpResponse_eq, readTo_append_of_clear hclear, Nat.toString_eq_repr,
    readTo_append_of_clear (clear_digits _), stable_readTo emptyLine hclosing]
  simp only [Option.map_some, Option.bind_some, List.nil_append]
  rw [readBody, ← Nat.toString_eq_repr, contentLength_head]
  exact hbody

/-! ## Over a whole run -/

open Server

/-- **A response is read whole or not at all.** In every reachable state, while no `connectionId` is
    given out twice, a client that reads what it has been sent finds a response exactly if all of
    one has been sent; then it finds the body it was answered with, and nothing follows. -/
theorem responses_framed_iff {J : Json} {L : Llhttp} {s : Server J L}
    (h : (serverMachine J L).Reachable s) (hids : s.pool.DistinctIds) (client : ℕ)
    (body rest : Bytes) : readResponse (s.sent client) = some (body, rest) ↔
      rest = [] ∧ s.sent client = httpResponse body ∧
        ∃ request, s.answers client = [(request, body)] := by
  have hd := (reachable_delivering h hids).1
  constructor
  · intro hread
    obtain ⟨-, hnothing⟩ | ⟨request, body', hone, -, hpart⟩ := hd.once client
    · rw [hnothing] at hread
      cases hread
    · obtain ⟨hall, rfl, hrest⟩ :=
        stable_readResponse.eq_of_prefix (readResponse_httpResponse body') hpart hread
      exact ⟨hrest, hall, request, hone⟩
  · rintro ⟨rfl, hall, -⟩
    rw [hall]
    exact readResponse_httpResponse body

/-- After `postBook` the client reads the table. -/
theorem responses_framed_post : ∃ s : Server shelfJson postParser,
    (serverMachine shelfJson postParser).Reachable s ∧
      readResponse (s.sent 0) = some (bookBody, []) := by
  have hrun : ((serverMachine shelfJson postParser).exec .start postBook).map (fun s =>
      ((s.answers 0).map Prod.snd, s.sent 0, history Obs.accepted? s.pool.log)) =
      some ([bookBody], httpResponse bookBody, [(0, "c")]) := by decide +kernel
  obtain ⟨s, hs, hstate⟩ := Option.map_eq_some_iff.1 hrun
  simp only [Prod.mk.injEq] at hstate
  obtain ⟨hbody, hsent, hacc⟩ := hstate
  have hreach : (serverMachine shelfJson postParser).Reachable s :=
    Reachable.exec (Reachable.start (M := serverMachine shelfJson postParser) rfl) hs
  have hids : s.pool.DistinctIds := by
    rw [PoolState.DistinctIds, hacc]
    simp
  obtain ⟨⟨request, body⟩, hone, hb⟩ := List.map_eq_singleton_iff.1 hbody
  obtain rfl : body = bookBody := hb
  exact ⟨s, hreach, (responses_framed_iff hreach hids 0 bookBody []).2 ⟨rfl, hsent, request, hone⟩⟩

end FiberConn
