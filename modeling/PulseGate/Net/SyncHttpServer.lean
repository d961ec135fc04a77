import PulseGate.Lib.Loop
import PulseGate.Http.RequestGrammar
import Mathlib.Data.List.Infix
import Mathlib.Data.List.ReduceOption

namespace PulseGate

/-!
# The synchronous server

`sync_http_server.cpp`: one connection at a time is accepted, its head is read, and it is answered
and closed.  What arrives on a connection, and in which pieces, is an input.  The reads block, and
every connection is taken to end after what arrives on it: its peer closes it, or a read fails.  A
peer that stays silent without closing holds up the server, and the connections after it get no
answer.

* `handleConnection_eq` — the answer depends on the bytes that arrive, and not on the pieces;
* `sync_server_replies` — the answers of the accept loop, by the grammar of request lines;
* `sync_server_agrees` — what the parser of the other server reads is answered by its method.
-/

namespace SyncHttpServer

def kReadBufferBytes : Nat := 4096

def kMaxHeaderBytes : Nat := 16 * 1024

def kHeaderTerminator : Bytes := crlf ++ crlf

inductive RequestStatus
  | ok
  | badRequest
  | methodNotAllowed
  deriving DecidableEq, Repr

def validateRequestLine (request : Bytes) : RequestStatus :=
  match splitLine request with
  | none => .badRequest
  | some (line, _) =>
    let method := line.takeWhile (· ≠ 32)
    match line.dropWhile (· ≠ 32) with
    | [] => .badRequest
    | _ :: afterMethod =>
      let target := afterMethod.takeWhile (· ≠ 32)
      match afterMethod.dropWhile (· ≠ 32) with
      | [] => .badRequest
      | _ :: version =>
        -- a third space
        if version.contains 32 then .badRequest
        else if target.head? ≠ some 47 ∨
            version ≠ bytes "HTTP/1.1" ∧ version ≠ bytes "HTTP/1.0" then .badRequest
        else if method = bytes "GET" then .ok
        else .methodNotAllowed

def makeResponse (status body : Bytes) (extraHeaders : Bytes := []) : Bytes :=
  bytes "HTTP/1.1 " ++ status ++ bytes "\r\nContent-Type: text/plain\r\nContent-Length: " ++
    toChars 10 body.length ++ bytes "\r\nConnection: close\r\n" ++ extraHeaders ++ crlf ++ body

def okResponse : Bytes := makeResponse (bytes "200 OK") (bytes "hello world\n")

def methodNotAllowedResponse : Bytes :=
  makeResponse (bytes "405 Method Not Allowed") (bytes "method not allowed\n")
    (bytes "Allow: GET\r\n")

def badRequestResponse : Bytes := makeResponse (bytes "400 Bad Request") (bytes "bad request\n")

def headTooLargeResponse : Bytes :=
  makeResponse (bytes "431 Request Header Fields Too Large")
    (bytes "request header fields too large\n")

/-- What is written for a request whose head is complete. -/
def responseTo (request : Bytes) : Bytes :=
  match validateRequestLine request with
  | .ok => okResponse
  | .methodNotAllowed => methodNotAllowedResponse
  | .badRequest => badRequestResponse

/-- `find` of the terminator. -/
def hasTerminator (request : Bytes) : Bool := decide (kHeaderTerminator <:+: request)

/-- `read_some` of at most `n` bytes.  The rest of what has arrived stays; after all of it comes an
error, the end of the stream or another one. -/
def readSome (n : Nat) : List Bytes → Option (Bytes × List Bytes)
  | [] => none
  | data :: later =>
    some (data.take n, if data.length ≤ n then later else data.drop n :: later)

/-- An iteration of the loop of `handleConnection`, with the request so far and what will arrive.
The result is what is written, if anything is. -/
def readStep (s : Bytes × List Bytes) : Option Bytes ⊕ Bytes × List Bytes :=
  let (request, arrivals) := s
  if hasTerminator request then .inl (some (responseTo request))
  else if kMaxHeaderBytes ≤ request.length then .inl (some headTooLargeResponse)
  else
    match readSome (min kReadBufferBytes (kMaxHeaderBytes - request.length)) arrivals with
    | none => .inl none
    | some (data, arrivals) => .inr (request ++ data, arrivals)

/-- Enough iterations for what arrives. -/
def weight (arrivals : List Bytes) : Nat := (arrivals.map fun data => data.length + 1).sum

/-- `handleConnection`. -/
def handleConnection (arrivals : List Bytes) : Option Bytes :=
  ((Loop.run readStep (weight arrivals + 1) ([], arrivals)).getD none)

/-- The loop of `run`, with the number of accepted connections; what `accept` has in the end is a
connection, with what arrives on it, or an error, and after the last one it waits.  What is written
to the connections, in their order. -/
def runFrom (maxConnections : Nat) : Nat → List (Option (List Bytes)) → List (Option Bytes)
  | acceptedConnections, accepts =>
    if maxConnections = 0 ∨ acceptedConnections < maxConnections then
      match accepts with
      | [] => []
      | none :: _ => []
      | some arrivals :: accepts =>
        handleConnection arrivals :: runFrom maxConnections (acceptedConnections + 1) accepts
    else []

def run (maxConnections : Nat) (accepts : List (Option (List Bytes))) : List (Option Bytes) :=
  runFrom maxConnections 0 accepts

/-! ### The bytes decide -/

/-- The answer to all that arrives on a connection. -/
def replyTo (stream : Bytes) : Option Bytes :=
  if hasTerminator (stream.take kMaxHeaderBytes) then
    some (responseTo (stream.take kMaxHeaderBytes))
  else if kMaxHeaderBytes ≤ stream.length then some headTooLargeResponse
  else none

variable {request stream data : Bytes} {arrivals later : List Bytes}

/-- A string with a CRLF has a first one. -/
theorem exists_splitLine {s : Bytes} (h : crlf <:+: s) :
    ∃ line rest, splitLine s = some (line, rest) := by
  obtain ⟨before, after, rfl⟩ := h
  rw [List.append_assoc]
  induction before with
  | nil => exact ⟨[], after, rfl⟩
  | cons c before ih =>
    obtain ⟨line, rest, hsplit⟩ := ih
    obtain ⟨d, left, hleft⟩ : ∃ d left, before ++ (crlf ++ after) = d :: left := by
      cases before with
      | nil => exact ⟨_, _, rfl⟩
      | cons d before => exact ⟨_, _, rfl⟩
    rw [List.cons_append, hleft, splitLine]
    rw [hleft] at hsplit
    split
    · exact ⟨_, _, rfl⟩
    · rw [hsplit]
      exact ⟨_, _, rfl⟩

/-- The first line has no CRLF in it. -/
theorem unbroken_of_splitLine {s line rest : Bytes} (h : splitLine s = some (line, rest)) :
    ¬ crlf <:+: line := by
  intro hbroken
  obtain ⟨first, left, hfirst⟩ := exists_splitLine hbroken
  -- the split of the line is one of the string
  have hwhole := splitLine_append_right hfirst (crlf ++ rest)
  rw [← List.append_assoc, ← splitLine_eq_some h, h] at hwhole
  obtain ⟨rfl, -⟩ := Prod.mk.inj (Option.some.inj hwhole)
  have hlength := congrArg List.length (splitLine_eq_some hfirst)
  simp [crlf] at hlength

theorem hasTerminator_iff : hasTerminator request = true ↔ kHeaderTerminator <:+: request :=
  decide_eq_true_iff

theorem readSome_eq_some {n : Nat} (hread : readSome n arrivals = some (data, later)) :
    data.length ≤ n ∧ data ++ later.flatten = arrivals.flatten ∧
      (0 < n → weight later < weight arrivals) := by
  cases arrivals with
  | nil => cases hread
  | cons first rest =>
    obtain ⟨rfl, rfl⟩ := Prod.mk.inj (Option.some.inj hread)
    refine ⟨List.length_take_le n first, ?_, fun hpos => ?_⟩
    · split
      · next hle => rw [List.take_of_length_le hle, List.flatten_cons]
      · rw [List.flatten_cons, List.flatten_cons, ← List.append_assoc, List.take_append_drop]
    · split
      · simp only [weight, List.map_cons, List.sum_cons]
        omega
      · next hlong =>
        simp only [weight, List.map_cons, List.sum_cons, List.length_drop]
        omega

/-- What the loop keeps: the request is what was read of the stream, and within the limit. -/
structure ReadInv (stream : Bytes) (s : Bytes × List Bytes) : Prop where
  stream : s.1 ++ s.2.flatten = stream
  bounded : s.1.length ≤ kMaxHeaderBytes

theorem readStep_next {s s' : Bytes × List Bytes} (h : ReadInv stream s)
    (hnext : readStep s = .inr s') : ReadInv stream s' ∧ weight s'.2 < weight s.2 := by
  obtain ⟨request, arrivals⟩ := s
  simp only [readStep] at hnext
  split at hnext
  · cases hnext
  split at hnext
  · cases hnext
  next hroom =>
  split at hnext
  · cases hnext
  next data later hread =>
  obtain rfl := Sum.inr.inj hnext
  obtain ⟨hlength, hflatten, hweight⟩ := readSome_eq_some hread
  have hmin : data.length ≤ kMaxHeaderBytes - request.length :=
    hlength.trans (Nat.min_le_right _ _)
  refine ⟨⟨?_, ?_⟩, hweight (Nat.lt_min.mpr ⟨by decide, by omega⟩)⟩
  · rw [List.append_assoc, hflatten]
    exact h.stream
  · rw [List.length_append]
    omega

/-- A complete head is answered by its first line, whatever was read after it. -/
theorem responseTo_prefix {request' : Bytes} (hhead : hasTerminator request = true)
    (hextends : request <+: request') : responseTo request' = responseTo request := by
  obtain ⟨rest, rfl⟩ := hextends
  obtain ⟨line, left, hline⟩ : ∃ line left, splitLine request = some (line, left) := by
    refine exists_splitLine ((List.prefix_append crlf crlf).isInfix.trans ?_)
    exact hasTerminator_iff.mp hhead
  unfold responseTo validateRequestLine
  rw [splitLine_append_right hline rest, hline]

theorem readStep_done {s : Bytes × List Bytes} {reply : Option Bytes} (h : ReadInv stream s)
    (hdone : readStep s = .inl reply) : reply = replyTo stream := by
  obtain ⟨request, arrivals⟩ := s
  obtain ⟨hstream, hbounded⟩ := h
  simp only at hstream hbounded
  have hextends : request <+: stream.take kMaxHeaderBytes :=
    List.prefix_take_iff.mpr ⟨hstream ▸ List.prefix_append _ _, hbounded⟩
  simp only [readStep] at hdone
  split at hdone
  · next hhead =>
    obtain rfl := Sum.inl.inj hdone
    have hhead' : hasTerminator (stream.take kMaxHeaderBytes) = true :=
      hasTerminator_iff.mpr ((hasTerminator_iff.mp hhead).trans hextends.isInfix)
    rw [replyTo, if_pos hhead', responseTo_prefix hhead hextends]
  next hhead =>
  split at hdone
  · next hfull =>
    obtain rfl := Sum.inl.inj hdone
    -- the request is all that is allowed of the stream
    have hall : request = stream.take kMaxHeaderBytes :=
      hextends.eq_of_length_le ((List.length_take_le _ _).trans hfull)
    have hlong : kMaxHeaderBytes ≤ stream.length := by
      rw [← hstream, List.length_append]
      omega
    rw [replyTo, ← hall, if_neg hhead, if_pos hlong]
  next hroom =>
  split at hdone
  · next hread =>
    obtain rfl := Sum.inl.inj hdone
    have hended : arrivals = [] := by
      cases arrivals with
      | nil => rfl
      | cons data later => cases hread
    subst hended
    obtain rfl : request = stream := by simpa using hstream
    rw [replyTo, List.take_of_length_le (by omega), if_neg hhead, if_neg hroom]
  · cases hdone

/-- **The pieces do not matter.** -/
theorem handleConnection_eq (arrivals : List Bytes) :
    handleConnection arrivals = replyTo arrivals.flatten := by
  have hinv : ReadInv arrivals.flatten ([], arrivals) := ⟨rfl, Nat.zero_le _⟩
  have hdecreases : Loop.Decreases readStep (ReadInv arrivals.flatten) fun s => weight s.2 :=
    ⟨fun s s' h hnext => (readStep_next h hnext).1, fun s s' h hnext => (readStep_next h hnext).2⟩
  obtain ⟨reply, hrun⟩ := hdecreases.exists_run hinv (Nat.lt_succ_self (weight arrivals))
  have hreply : reply = replyTo arrivals.flatten :=
    (Loop.Ends.of_run hrun).result (ReadInv arrivals.flatten)
      (fun s s' h hnext => (readStep_next h hnext).1) (fun s reply h => readStep_done h) hinv
  unfold handleConnection
  rw [hrun, hreply]
  rfl

/-! ### Request lines -/

/-- What `validateRequestLine` takes for a request line. -/
structure RequestLine where
  method : Bytes
  target : Bytes
  version : HttpVersion
  deriving DecidableEq, Repr

namespace RequestLine

def text (l : RequestLine) : Bytes := l.method ++ 32 :: (l.target ++ 32 :: l.version.text)

/-- The method may be any text, and be empty. -/
structure WellFormed (l : RequestLine) : Prop where
  method : 32 ∉ l.method
  target : 32 ∉ l.target ∧ l.target.head? = some 47
  unbroken : ¬ crlf <:+: l.text

end RequestLine

/-- The status of a line. -/
def statusOf (l : RequestLine) : RequestStatus :=
  if l.method = bytes "GET" then .ok else .methodNotAllowed

variable {l : RequestLine} {rest : Bytes}

theorem validateRequestLine_text (hl : l.WellFormed) (rest : Bytes) :
    validateRequestLine (l.text ++ crlf ++ rest) = statusOf l := by
  obtain ⟨htake, hdrop⟩ := takeWhile_separator hl.method (l.target ++ 32 :: l.version.text)
  obtain ⟨htake', hdrop'⟩ := takeWhile_separator hl.target.1 l.version.text
  have hversion : l.version.text.contains 32 = false ∧
      (l.version.text = bytes "HTTP/1.1" ∨ l.version.text = bytes "HTTP/1.0") := by
    cases l.version with
    | Http10 => exact ⟨by decide, .inr rfl⟩
    | Http11 => exact ⟨by decide, .inl rfl⟩
  have hallowed : ¬ (l.target.head? ≠ some 47 ∨
      l.version.text ≠ bytes "HTTP/1.1" ∧ l.version.text ≠ bytes "HTTP/1.0") := by
    rintro (htarget | ⟨h11, h10⟩)
    · exact htarget hl.target.2
    · exact hversion.2.elim h11 h10
  unfold validateRequestLine
  rw [splitLine_of_unbroken hl.unbroken]
  simp only [RequestLine.text, htake, hdrop, htake', hdrop', hversion.1, Bool.false_eq_true,
    if_false, hallowed]
  rfl

/-- Only such lines are no bad requests. -/
theorem exists_requestLine {request : Bytes} (hgood : validateRequestLine request ≠ .badRequest) :
    ∃ (l : RequestLine) (rest : Bytes), l.WellFormed ∧ request = l.text ++ crlf ++ rest := by
  simp only [validateRequestLine] at hgood
  split at hgood
  · exact absurd rfl hgood
  next line rest hsplit =>
  split at hgood
  · exact absurd rfl hgood
  next c afterMethod hmethod =>
  split at hgood
  · exact absurd rfl hgood
  next d version htarget =>
  split at hgood
  · exact absurd rfl hgood
  split at hgood
  · exact absurd rfl hgood
  next hallowed =>
  rw [not_or, not_not, not_and_or, not_not, not_not] at hallowed
  obtain ⟨hslash, hversion⟩ := hallowed
  obtain ⟨v, rfl⟩ : ∃ v : HttpVersion, v.text = version := by
    rcases hversion with h11 | h10
    · exact ⟨.Http11, h11.symm⟩
    · exact ⟨.Http10, h10.symm⟩
  have hline : line = RequestLine.text
      ⟨line.takeWhile (· ≠ 32), afterMethod.takeWhile (· ≠ 32), v⟩ := by
    rw [RequestLine.text, ← eq_append_of_dropWhile htarget]
    exact eq_append_of_dropWhile hmethod
  have hspace : ∀ s : Bytes, 32 ∉ s.takeWhile (· ≠ 32) := fun s hmem => by
    simpa using List.mem_takeWhile_imp hmem
  refine ⟨⟨line.takeWhile (· ≠ 32), afterMethod.takeWhile (· ≠ 32), v⟩, rest,
    ⟨hspace line, ⟨hspace afterMethod, hslash⟩, ?_⟩, ?_⟩
  · rw [← hline]
    exact unbroken_of_splitLine hsplit
  · rw [← hline]
    exact splitLine_eq_some hsplit

/-- The head of a request is complete, within the limit. -/
def EndsHead (stream : Bytes) : Prop := kHeaderTerminator <:+: stream.take kMaxHeaderBytes

/-- The stream starts with a request line. -/
def StartsWith (stream : Bytes) (l : RequestLine) : Prop :=
  l.WellFormed ∧ ∃ rest, stream = l.text ++ crlf ++ rest

/-- The first line of the stream is that of its head. -/
theorem startsWith_take_iff (hends : EndsHead stream) :
    StartsWith (stream.take kMaxHeaderBytes) l ↔ StartsWith stream l := by
  obtain ⟨line, left, hsplit⟩ := exists_splitLine
    ((List.prefix_append crlf crlf).isInfix.trans hends)
  have hsplit' := splitLine_append_right hsplit (stream.drop kMaxHeaderBytes)
  rw [List.take_append_drop] at hsplit'
  refine and_congr_right fun hl => ⟨?_, ?_⟩
  · rintro ⟨rest, hrest⟩
    refine ⟨rest ++ stream.drop kMaxHeaderBytes, ?_⟩
    rw [← List.append_assoc, ← hrest, List.take_append_drop]
  · rintro ⟨rest, rfl⟩
    rw [splitLine_of_unbroken hl.unbroken] at hsplit'
    obtain ⟨rfl, -⟩ := Prod.mk.inj (Option.some.inj hsplit')
    exact ⟨left, splitLine_eq_some hsplit⟩

/-- The line that a stream starts with. -/
theorem StartsWith.unique {l' : RequestLine} (h : StartsWith stream l)
    (h' : StartsWith stream l') : statusOf l = statusOf l' := by
  obtain ⟨hl, rest, rfl⟩ := h
  obtain ⟨hl', rest', heq⟩ := h'
  rw [← validateRequestLine_text hl rest, heq, validateRequestLine_text hl' rest']

theorem replyTo_line (hends : EndsHead stream) (hline : StartsWith stream l) :
    replyTo stream = some (if l.method = bytes "GET" then okResponse
      else methodNotAllowedResponse) := by
  obtain ⟨hl, rest, hrest⟩ := (startsWith_take_iff hends).mpr hline
  rw [replyTo, if_pos (hasTerminator_iff.mpr hends), responseTo, hrest,
    validateRequestLine_text hl, statusOf]
  by_cases hget : l.method = bytes "GET"
  · rw [if_pos hget, if_pos hget]
  · rw [if_neg hget, if_neg hget]

theorem replyTo_noLine (hends : EndsHead stream) (hnone : ∀ l, ¬ StartsWith stream l) :
    replyTo stream = some badRequestResponse := by
  rw [replyTo, if_pos (hasTerminator_iff.mpr hends), responseTo]
  cases hstatus : validateRequestLine (stream.take kMaxHeaderBytes) with
  | badRequest => rfl
  | _ =>
    have hgood : validateRequestLine (stream.take kMaxHeaderBytes) ≠ .badRequest := by
      rw [hstatus]
      exact nofun
    obtain ⟨l, rest, hl, hrest⟩ := exists_requestLine hgood
    exact absurd ((startsWith_take_iff hends).mp ⟨hl, rest, hrest⟩) (hnone l)

theorem replyTo_noHead (hends : ¬ EndsHead stream) :
    replyTo stream =
      if kMaxHeaderBytes ≤ stream.length then some headTooLargeResponse else none := by
  rw [replyTo, if_neg fun h => hends (hasTerminator_iff.mp h)]

/-- The connections that `run` handles. -/
def handled (maxConnections : Nat) (accepts : List (Option (List Bytes))) : List (List Bytes) :=
  let connections := (accepts.takeWhile Option.isSome).reduceOption
  if maxConnections = 0 then connections else connections.take maxConnections

theorem runFrom_replies (maxConnections acceptedConnections : Nat)
    (accepts : List (Option (List Bytes))) :
    runFrom maxConnections acceptedConnections accepts =
      (let connections := (accepts.takeWhile Option.isSome).reduceOption
        if maxConnections = 0 then connections
        else connections.take (maxConnections - acceptedConnections)).map handleConnection := by
  induction accepts generalizing acceptedConnections with
  | nil =>
    unfold runFrom
    split <;> simp [List.reduceOption]
  | cons accept accepts ih =>
    unfold runFrom
    split
    · next hmore =>
      cases accept with
      | none => simp [List.reduceOption]
      | some arrivals =>
        simp only
        rw [ih (acceptedConnections + 1), List.takeWhile_cons_of_pos rfl,
          List.reduceOption_cons_of_some]
        simp only
        by_cases hall : maxConnections = 0
        · rw [if_pos hall, if_pos hall, List.map_cons]
        · have hleft : maxConnections - acceptedConnections =
              maxConnections - (acceptedConnections + 1) + 1 := by omega
          rw [if_neg hall, if_neg hall, hleft, List.take_succ_cons, List.map_cons]
    · next hdone =>
      rw [not_or] at hdone
      have hnone : maxConnections - acceptedConnections = 0 := by omega
      simp [hdone.1, hnone]

/-- **The synchronous server.** Whatever arrives on the connections and in whatever pieces, `run`
answers the connections before the first error of `accept`, up to the number asked for, and each
by the bytes that arrive on it alone: if its first 16384 bytes end a head, by the line it starts
with, 200 for the method GET, 405 for another one and 400 for no request line; if they do not, with
431 when so many bytes arrive, and else not at all. -/
theorem sync_server_replies (maxConnections : Nat) (accepts : List (Option (List Bytes))) :
    run maxConnections accepts =
        (handled maxConnections accepts).map (fun arrivals => replyTo arrivals.flatten) ∧
      ∀ stream,
        (replyTo stream = some okResponse ↔
          EndsHead stream ∧ ∃ l, StartsWith stream l ∧ l.method = bytes "GET") ∧
        (replyTo stream = some methodNotAllowedResponse ↔
          EndsHead stream ∧ ∃ l, StartsWith stream l ∧ l.method ≠ bytes "GET") ∧
        (replyTo stream = some badRequestResponse ↔
          EndsHead stream ∧ ∀ l, ¬ StartsWith stream l) ∧
        (replyTo stream = some headTooLargeResponse ↔
          ¬ EndsHead stream ∧ kMaxHeaderBytes ≤ stream.length) ∧
        (replyTo stream = none ↔ ¬ EndsHead stream ∧ stream.length < kMaxHeaderBytes) := by
  constructor
  · rw [run, runFrom_replies]
    exact List.map_congr_left fun arrivals _ => handleConnection_eq arrivals
  · intro stream
    -- no two of the responses are the same
    have hdistinct : [some okResponse, some methodNotAllowedResponse, some badRequestResponse,
        some headTooLargeResponse, none].Nodup := by decide +kernel
    simp only [List.nodup_cons, List.mem_cons, not_or, List.not_mem_nil, not_false_eq_true,
      and_true, List.nodup_nil] at hdistinct
    by_cases hends : EndsHead stream
    · by_cases hline : ∃ l, StartsWith stream l
      · obtain ⟨l, hl⟩ := hline
        have hmethod : ∀ l', StartsWith stream l' →
            (l'.method = bytes "GET" ↔ l.method = bytes "GET") := by
          intro l' hl'
          have hstatus := hl'.unique hl
          unfold statusOf at hstatus
          split at hstatus <;> split at hstatus <;> simp_all
        rw [replyTo_line hends hl]
        by_cases hget : l.method = bytes "GET"
        · rw [if_pos hget]
          refine ⟨iff_of_true rfl ⟨hends, l, hl, hget⟩, iff_of_false hdistinct.1.1 ?_,
            iff_of_false hdistinct.1.2.1 fun h => h.2 l hl,
            iff_of_false hdistinct.1.2.2.1 fun h => h.1 hends,
            iff_of_false hdistinct.1.2.2.2 fun h => h.1 hends⟩
          rintro ⟨-, l', hl', hother⟩
          exact hother ((hmethod l' hl').mpr hget)
        · rw [if_neg hget]
          refine ⟨iff_of_false (Ne.symm hdistinct.1.1) ?_, iff_of_true rfl ⟨hends, l, hl, hget⟩,
            iff_of_false hdistinct.2.1.1 fun h => h.2 l hl,
            iff_of_false hdistinct.2.1.2.1 fun h => h.1 hends,
            iff_of_false hdistinct.2.1.2.2 fun h => h.1 hends⟩
          rintro ⟨-, l', hl', hother⟩
          exact hget ((hmethod l' hl').mp hother)
      · have hnone : ∀ l, ¬ StartsWith stream l := fun l hl => hline ⟨l, hl⟩
        rw [replyTo_noLine hends hnone]
        exact ⟨iff_of_false (Ne.symm hdistinct.1.2.1) fun h => h.2.elim fun l hl => hnone l hl.1,
          iff_of_false (Ne.symm hdistinct.2.1.1) fun h => h.2.elim fun l hl => hnone l hl.1,
          iff_of_true rfl ⟨hends, hnone⟩,
          iff_of_false hdistinct.2.2.1.1 fun h => h.1 hends,
          iff_of_false hdistinct.2.2.1.2 fun h => h.1 hends⟩
    · rw [replyTo_noHead hends]
      by_cases hlong : kMaxHeaderBytes ≤ stream.length
      · rw [if_pos hlong]
        exact ⟨iff_of_false (Ne.symm hdistinct.1.2.2.1) fun h => hends h.1,
          iff_of_false (Ne.symm hdistinct.2.1.2.1) fun h => hends h.1,
          iff_of_false (Ne.symm hdistinct.2.2.1.1) fun h => hends h.1,
          iff_of_true rfl ⟨hends, hlong⟩,
          iff_of_false hdistinct.2.2.2 fun h => absurd h.2 (Nat.not_lt.mpr hlong)⟩
      · rw [if_neg hlong]
        exact ⟨iff_of_false (Ne.symm hdistinct.1.2.2.2) fun h => hends h.1,
          iff_of_false (Ne.symm hdistinct.2.1.2.2) fun h => hends h.1,
          iff_of_false (Ne.symm hdistinct.2.2.1.2) fun h => hends h.1,
          iff_of_false (Ne.symm hdistinct.2.2.2) fun h => hlong h.2,
          iff_of_true rfl ⟨hends, Nat.not_le.mp hlong⟩⟩

/-! ### The parser of the other server -/

variable {limits : HttpParserLimits} {h : RequestHead}

theorem RequestHead.text_ends (h : RequestHead) : ∃ before, h.text = before ++ crlf := by
  rcases List.eq_nil_or_concat h.lines with hlines | ⟨lines, line, hlines⟩
  · refine ⟨h.requestLine, ?_⟩
    rw [RequestHead.text, hlines]
    exact List.append_nil _
  · refine ⟨h.requestLine ++ crlf ++ linesText lines ++ line.text, ?_⟩
    rw [RequestHead.text, hlines, List.concat_eq_append]
    simp [linesText]

/-- The head of a message ends within the limits of the parser. -/
theorem endsHead_of_admitted {body rest : Bytes} (hsize : limits.maxHeaderBytes ≤ kMaxHeaderBytes)
    (hbytes : (h.text ++ crlf).length ≤ limits.maxHeaderBytes) :
    EndsHead (h.text ++ crlf ++ body ++ rest) := by
  obtain ⟨before, hbefore⟩ := RequestHead.text_ends h
  have hinfix : kHeaderTerminator <:+: h.text ++ crlf := by
    rw [hbefore, List.append_assoc]
    exact (List.suffix_append before kHeaderTerminator).isInfix
  refine hinfix.trans (List.IsPrefix.isInfix (List.prefix_take_iff.mpr ⟨?_, hbytes.trans hsize⟩))
  rw [List.append_assoc _ body]
  exact List.prefix_append _ _

/-- The line that a message starts with. -/
theorem target_of_startsWith {stream rest : Bytes} (ha : h.Admitted limits)
    (hstream : stream = h.requestLine ++ crlf ++ rest) (hline : StartsWith stream l) :
    l.target = h.target := by
  obtain ⟨hl, rest', hrest'⟩ := hline
  have hsplit := splitLine_append ha.not_mem rest
  rw [← hstream, hrest', splitLine_of_unbroken hl.unbroken] at hsplit
  obtain ⟨htext, -⟩ := Prod.mk.inj (Option.some.inj hsplit)
  -- the spaces are at the same places
  have hmethod : 32 ∉ h.method := not_mem_token ha.method (by decide)
  have htarget : 32 ∉ h.target := not_mem_target ha.target.2 (by decide)
  have hafter := congrArg (List.dropWhile (· ≠ 32)) htext
  rw [RequestLine.text, RequestHead.requestLine, (takeWhile_separator hl.method _).2,
    (takeWhile_separator hmethod _).2] at hafter
  have hafter := congrArg (List.takeWhile (· ≠ 32)) (List.cons.inj hafter).2
  rw [(takeWhile_separator hl.target.1 _).1, (takeWhile_separator htarget _).1] at hafter
  exact hafter

/-- **Both servers read the same requests.** When the parser of the asynchronous server is
complete on what arrives, with a limit for heads that is no larger, the synchronous server answers
in whatever pieces it arrives: 200 if the request is a `GET` of a path, 405 if it is another
request for a path, and 400 if the target is no path. -/
theorem sync_server_agrees (hsize : limits.maxHeaderBytes ≤ kMaxHeaderBytes)
    {arrivals : List Bytes} {q : HttpParser} {rest : Bytes}
    (hparse : ({ limits := limits } : HttpParser).parse arrivals.flatten = (.Complete, q, rest)) :
    handleConnection arrivals =
      some (if q.request.target.head? ≠ some 47 then badRequestResponse
        else if q.request.method = .Get then okResponse
        else methodNotAllowedResponse) := by
  obtain ⟨m, hm, hstream, rfl⟩ := HttpParser.parse_complete hparse
  have ha := hm.head
  have hends : EndsHead arrivals.flatten := by
    rw [hstream]
    exact endsHead_of_admitted hsize hm.body.headerBytes
  have hfirst : arrivals.flatten =
      m.head.requestLine ++ crlf ++ (linesText m.head.lines ++ crlf ++ m.body ++ rest) := by
    rw [hstream, RequestMessage.text, RequestHead.text]
    simp only [List.append_assoc]
  show handleConnection arrivals = some (if m.head.target.head? ≠ some 47 then badRequestResponse
    else if parseHttpMethod m.head.method = .Get then okResponse else methodNotAllowedResponse)
  rw [handleConnection_eq]
  by_cases hslash : m.head.target.head? = some 47
  · rw [if_neg (not_not.mpr hslash)]
    have hline : StartsWith arrivals.flatten ⟨m.head.method, m.head.target, m.head.version⟩ :=
      ⟨⟨not_mem_token ha.method (by decide),
        ⟨not_mem_target ha.target.2 (by decide), hslash⟩,
        not_infix_of_not_mem ha.not_mem⟩, _, hfirst⟩
    rw [replyTo_line hends hline]
    have hget : m.head.method = bytes "GET" ↔ parseHttpMethod m.head.method = .Get := by
      constructor
      · intro h
        rw [h]
        decide
      · intro h
        unfold parseHttpMethod at h
        split at h
        · assumption
        · repeat' split at h
          all_goals cases h
    simp only [hget]
  · rw [if_pos hslash]
    refine replyTo_noLine hends fun l hline => hslash ?_
    rw [← target_of_startsWith ha hfirst hline]
    exact hline.1.target.2

/-- A head in two pieces. -/
theorem sync_server_agrees_default :
    ∃ q rest, ({ limits := {} } : HttpParser).parse
        [bytes "HEAD / HTTP/1.0\r", bytes "\n\r\nX"].flatten = (.Complete, q, rest) ∧
      handleConnection [bytes "HEAD / HTTP/1.0\r", bytes "\n\r\nX"] =
        some (if q.request.target.head? ≠ some 47 then badRequestResponse
          else if q.request.method = .Get then okResponse
          else methodNotAllowedResponse) :=
  ⟨_, _, rfl, @sync_server_agrees {} (by decide) _ _ _ rfl⟩

end SyncHttpServer
end PulseGate
