import PulseGate.Cpp
import PulseGate.Lib.Machine

namespace PulseGate

/-!
# The access log

`AsyncLogger` of `observability.cpp`: the callers of `logAccess` append to a bounded queue,
and a thread of its own takes the entries out and passes them to the sink.  An event is what a
thread does with one of the atomic members, or as long as it holds the mutex, so that the runs
are the interleavings of all threads.

* `moves_of_step` — what one event does;
* `Inv.step` — what was enqueued is what was delivered, then the entry in hand, then the queue;
* `access_log_delivery` — in every run the sink gets the entries in their order, each once, and
  all of them before the thread ends.
-/

inductive LogLevel
  | Trace
  | Debug
  | Info
  | Warn
  | Error
  | Critical
  deriving DecidableEq, Repr

/-- The value of the enumeration. -/
def LogLevel.toNat : LogLevel → Nat
  | .Trace => 0
  | .Debug => 1
  | .Info => 2
  | .Warn => 3
  | .Error => 4
  | .Critical => 5

structure LoggerConfig where
  level : LogLevel := .Info
  json : Bool := true
  queueCapacity : Nat := 4096
  deriving DecidableEq, Repr

structure RequestLog where
  requestId : Bytes
  method : Bytes
  target : Bytes
  status : Int := 0
  /-- In microseconds. -/
  duration : Int := 0
  bytesIn : Nat := 0
  bytesOut : Nat := 0
  upstream : Bytes := []
  cacheStatus : Bytes := []
  deriving DecidableEq, Repr

/-! ### The lines -/

/-- What `jsonEscape` appends for a character. -/
def escapeChar (c : UInt8) : Bytes :=
  if c = 34 then [92, 34]
  else if c = 92 then [92, 92]
  else if c = 10 then bytes "\\n"
  else if c = 13 then bytes "\\r"
  else if c = 9 then bytes "\\t"
  else if c < 32 then bytes "?"
  else [c]

def jsonEscape (value : Bytes) : Bytes := value.flatMap escapeChar

/-- `AsyncLogger::format`. -/
def RequestLog.format (json : Bool) (entry : RequestLog) : Bytes :=
  if !json then
    bytes "level=info request_id=" ++ entry.requestId ++ bytes " method=" ++ entry.method ++
      bytes " target=" ++ entry.target ++ bytes " status=" ++ intToString entry.status ++
      bytes " duration_us=" ++ intToString entry.duration ++
      bytes " bytes_in=" ++ toChars 10 entry.bytesIn ++
      bytes " bytes_out=" ++ toChars 10 entry.bytesOut ++ bytes " upstream=" ++ entry.upstream ++
      bytes " cache=" ++ entry.cacheStatus
  else
    -- only the strings of the JSON line are escaped
    bytes "\x7b\"level\":\"info\",\"request_id\":\"" ++ jsonEscape entry.requestId ++
      bytes "\",\"method\":\"" ++ jsonEscape entry.method ++ bytes "\",\"target\":\"" ++
      jsonEscape entry.target ++ bytes "\",\"status\":" ++ intToString entry.status ++
      bytes ",\"duration_us\":" ++ intToString entry.duration ++
      bytes ",\"bytes_in\":" ++ toChars 10 entry.bytesIn ++
      bytes ",\"bytes_out\":" ++ toChars 10 entry.bytesOut ++ bytes ",\"upstream\":\"" ++
      jsonEscape entry.upstream ++ bytes "\",\"cache\":\"" ++ jsonEscape entry.cacheStatus ++
      bytes "\"\x7d"

/-! ### The threads -/

/-- Where the thread of the logger is. -/
inductive Worker
  /-- Before or in `wake_.wait`. -/
  | Waiting
  /-- With an entry that it took from the queue. -/
  | Popped (entry : RequestLog)
  /-- With its line, before the call of the sink. -/
  | Formatted (entry : RequestLog) (text : Bytes)
  /-- `run` has returned. -/
  | Exited
  deriving DecidableEq, Repr

structure AsyncLogger where
  config : LoggerConfig
  level : LogLevel
  json : Bool
  queue : List RequestLog := []
  /-- Exact until 2^64. -/
  dropped : Nat := 0
  stopRequested : Bool := false
  worker : Worker := .Waiting
  /-- The entries of the calls that are about to take the mutex. -/
  calls : List RequestLog := []
  /-- The destructor has returned. -/
  destroyed : Bool := false
  /-- What the calls returned, the last first. -/
  returned : List Bool := []
  /-- All entries that were ever appended to the queue. -/
  enqueued : List RequestLog := []
  /-- What was passed to the sink. -/
  delivered : List (RequestLog × Bytes) := []
  deriving DecidableEq, Repr

namespace AsyncLogger

/-- The constructor. -/
def create (config : LoggerConfig) : Except Exception AsyncLogger :=
  if config.queueCapacity = 0 then .error .InvalidArgument
  else .ok { config := config, level := config.level, json := config.json }

inductive Event
  /-- A call of `logAccess` reads the level. -/
  | call (entry : RequestLog)
  /-- The call at index `i` holds the mutex, and returns. -/
  | enter (i : Nat)
  /-- The two stores of `setLogging`. -/
  | storeLevel (level : LogLevel)
  | storeJson (json : Bool)
  /-- The thread holds the mutex and tests what it waits for; it may wake without a notice. -/
  | wake
  | format
  | sink
  /-- The destructor requests the stop and notifies the thread. -/
  | destroy
  /-- It has joined the thread. -/
  | join
  deriving DecidableEq, Repr

/-- `logAccess`, while it holds the mutex. -/
def enqueue (s : AsyncLogger) (entry : RequestLog) : AsyncLogger :=
  if s.config.queueCapacity ≤ s.queue.length then
    { s with dropped := s.dropped + 1, returned := false :: s.returned }
  else
    { s with queue := s.queue ++ [entry], enqueued := s.enqueued ++ [entry],
             returned := true :: s.returned }

/-- `run`, while it holds the mutex. -/
def dequeue (s : AsyncLogger) : AsyncLogger :=
  match s.queue with
  | entry :: queue => { s with queue := queue, worker := .Popped entry }
  | [] => if s.stopRequested then { s with worker := .Exited } else s

def step (s : AsyncLogger) (e : Event) : Option AsyncLogger :=
  if s.destroyed then none
  else
    match e with
    | .call entry =>
      -- a level above Info: nothing is queued, and `logAccess` returns true
      if LogLevel.Info.toNat < s.level.toNat then some { s with returned := true :: s.returned }
      else some { s with calls := s.calls ++ [entry] }
    | .enter i =>
      -- `logAccess` has the mutex
      s.calls[i]?.map fun entry => { s with calls := s.calls.eraseIdx i }.enqueue entry
    | .storeLevel level => some { s with level := level }
    | .storeJson json => some { s with json := json }
    | .wake => if s.worker = .Waiting then some s.dequeue else none
    | .format =>
      match s.worker with
      | .Popped entry => some { s with worker := .Formatted entry (entry.format s.json) }
      | _ => none
    | .sink =>
      match s.worker with
      | .Formatted entry text =>
        some { s with worker := .Waiting, delivered := s.delivered ++ [(entry, text)] }
      | _ => none
    | .destroy => if s.stopRequested then none else some { s with stopRequested := true }
    | .join =>
      if s.stopRequested = true ∧ s.worker = .Exited then some { s with destroyed := true }
      else none

/-! ### What an event does -/

/-- What an event does, one constructor for each way it can go. -/
inductive Moves (s : AsyncLogger) : Event → AsyncLogger → Prop
  | skipped (entry : RequestLog) : Moves s (.call entry) { s with returned := true :: s.returned }
  | called (entry : RequestLog) : Moves s (.call entry) { s with calls := s.calls ++ [entry] }
  | entered {i : Nat} {entry : RequestLog} (hentry : s.calls[i]? = some entry) :
    Moves s (.enter i) ({ s with calls := s.calls.eraseIdx i }.enqueue entry)
  | levelStored (level : LogLevel) : Moves s (.storeLevel level) { s with level := level }
  | jsonStored (json : Bool) : Moves s (.storeJson json) { s with json := json }
  | popped {entry : RequestLog} {queue : List RequestLog} (hworker : s.worker = .Waiting)
    (hqueue : s.queue = entry :: queue) :
    Moves s .wake { s with queue := queue, worker := .Popped entry }
  | exited (hworker : s.worker = .Waiting) (hqueue : s.queue = [])
      (hstop : s.stopRequested = true) :
    Moves s .wake { s with worker := .Exited }
  | waits : Moves s .wake s
  | formats {entry : RequestLog} (hworker : s.worker = .Popped entry) :
    Moves s .format { s with worker := .Formatted entry (entry.format s.json) }
  | sinks {entry : RequestLog} {text : Bytes} (hworker : s.worker = .Formatted entry text) :
    Moves s .sink { s with worker := .Waiting, delivered := s.delivered ++ [(entry, text)] }
  | stops : Moves s .destroy { s with stopRequested := true }
  | joins : Moves s .join { s with destroyed := true }

variable {config : LoggerConfig} {s s' : AsyncLogger} {e : Event}

theorem moves_dequeue (hworker : s.worker = .Waiting) : Moves s .wake s.dequeue := by
  unfold dequeue
  split
  · next entry queue hqueue => exact .popped hworker hqueue
  · next hqueue =>
    split
    · next hstop => exact .exited hworker hqueue hstop
    · exact .waits

theorem moves_of_step (hstep : step s e = some s') : Moves s e s' := by
  unfold step at hstep
  split at hstep
  · cases hstep
  cases e with
  | call entry =>
    simp only at hstep
    split at hstep
    · exact Option.some.inj hstep ▸ .skipped entry
    · exact Option.some.inj hstep ▸ .called entry
  | enter i =>
    obtain ⟨entry, hentry, rfl⟩ := Option.map_eq_some_iff.mp hstep
    exact .entered hentry
  | storeLevel level => exact Option.some.inj hstep ▸ .levelStored level
  | storeJson json => exact Option.some.inj hstep ▸ .jsonStored json
  | wake =>
    simp only at hstep
    split at hstep
    · next hworker => exact Option.some.inj hstep ▸ moves_dequeue hworker
    · cases hstep
  | format =>
    simp only at hstep
    split at hstep
    · next entry hworker => exact Option.some.inj hstep ▸ .formats hworker
    · cases hstep
  | sink =>
    simp only at hstep
    split at hstep
    · next entry text hworker => exact Option.some.inj hstep ▸ .sinks hworker
    · cases hstep
  | destroy =>
    simp only at hstep
    split at hstep
    · cases hstep
    · exact Option.some.inj hstep ▸ .stops
  | join =>
    simp only at hstep
    split at hstep
    · exact Option.some.inj hstep ▸ .joins
    · cases hstep

/-! ### The ledger -/

/-- The entry that the thread has in its hands. -/
def inHand : Worker → List RequestLog
  | .Popped entry => [entry]
  | .Formatted entry _ => [entry]
  | _ => []

/-- Every entry that was enqueued was delivered, is in hand or is in the queue, in this order;
    what is delivered is the line of its entry, and what is not enqueued is counted. -/
structure Inv (config : LoggerConfig) (s : AsyncLogger) : Prop where
  config_eq : s.config = config
  ledger : s.enqueued = s.delivered.map (·.1) ++ inHand s.worker ++ s.queue
  lines : ∀ x ∈ s.delivered, ∃ json, x.2 = x.1.format json
  formatted : ∀ entry text, s.worker = .Formatted entry text → ∃ json, text = entry.format json
  bounded : s.queue.length ≤ config.queueCapacity
  counted : s.dropped = s.returned.count false

theorem inv_create (hcreate : create config = .ok s) : Inv config s := by
  unfold create at hcreate
  split at hcreate
  · cases hcreate
  · obtain rfl := Except.ok.inj hcreate
    exact
      { config_eq := rfl
        ledger := rfl
        lines := fun x hx => absurd hx List.not_mem_nil
        formatted := fun entry text h => absurd h nofun
        bounded := Nat.zero_le _
        counted := rfl }

/-- A call enqueues its entry, or is counted. -/
theorem Inv.enqueue (h : Inv config s) (entry : RequestLog) : Inv config (s.enqueue entry) := by
  unfold AsyncLogger.enqueue
  split
  · exact
      { h with
        counted := by
          show s.dropped + 1 = (false :: s.returned).count false
          rw [List.count_cons_self, h.counted] }
  · next hroom =>
    rw [h.config_eq] at hroom
    exact
      { h with
        ledger := by
          show s.enqueued ++ [entry] = _ ++ (s.queue ++ [entry])
          rw [h.ledger, List.append_assoc]
        bounded := by
          show (s.queue ++ [entry]).length ≤ config.queueCapacity
          rw [List.length_append, List.length_singleton]
          omega
        counted := by
          show s.dropped = (true :: s.returned).count false
          rw [List.count_cons_of_ne (by decide), h.counted] }

/-- **Step lemma.** -/
theorem Inv.step (h : Inv config s) (hmoves : Moves s e s') : Inv config s' := by
  have hledger := h.ledger
  cases hmoves with
  | skipped entry =>
    exact
      { h with
        counted := by
          show s.dropped = (true :: s.returned).count false
          rw [List.count_cons_of_ne (by decide), h.counted] }
  | @entered i entry hentry =>
    have hless : Inv config { s with calls := s.calls.eraseIdx i } := { h with }
    exact hless.enqueue entry
  | @popped entry queue hworker hqueue =>
    -- the first entry of the queue is the one in hand
    rw [hworker, hqueue] at hledger
    have hbound := h.bounded
    rw [hqueue] at hbound
    exact
      { h with
        ledger := by
          show s.enqueued = s.delivered.map (·.1) ++ [entry] ++ queue
          rw [hledger]
          simp [inHand]
        formatted := fun entry text h => absurd h nofun
        bounded := (Nat.le_succ _).trans hbound }
  | exited hworker =>
    rw [hworker] at hledger
    exact
      { h with
        ledger := hledger
        formatted := fun entry text h => absurd h nofun }
  | @formats entry hworker =>
    rw [hworker] at hledger
    exact
      { h with
        ledger := hledger
        formatted := by
          intro entry' text heq
          obtain ⟨rfl, rfl⟩ := Worker.Formatted.inj heq
          exact ⟨s.json, rfl⟩ }
  | @sinks entry text hworker =>
    rw [hworker] at hledger
    exact
      { h with
        ledger := by
          show s.enqueued = (s.delivered ++ [(entry, text)]).map (·.1) ++ [] ++ s.queue
          rw [hledger, List.map_append, List.append_nil]
          rfl
        lines := by
          intro x hx
          rcases List.mem_append.mp hx with hold | hnew
          · exact h.lines x hold
          · obtain rfl := List.mem_singleton.mp hnew
            exact h.formatted entry text hworker
        formatted := fun entry text h => absurd h nofun }
  | called => exact { h with }
  | levelStored => exact { h with }
  | jsonStored => exact { h with }
  | waits => exact h
  | stops => exact { h with }
  | joins => exact { h with }

/-! ### When the thread ends -/

/-- The thread ends with all entries delivered. -/
def EndsEmpty (s : AsyncLogger) (_ : Event) (s' : AsyncLogger) : Prop :=
  s.worker ≠ .Exited → s'.worker = .Exited → s'.delivered.map (·.1) = s'.enqueued

theorem Moves.exited_iff_of_ne (h : Moves s e s') (he : e ≠ .wake) :
    s'.worker = .Exited ↔ s.worker = .Exited := by
  cases h with
  | entered =>
    unfold enqueue
    split <;> exact Iff.rfl
  | popped => exact absurd rfl he
  | exited => exact absurd rfl he
  | waits => exact absurd rfl he
  | formats hworker => exact iff_of_false nofun (by rw [hworker]; nofun)
  | sinks hworker => exact iff_of_false nofun (by rw [hworker]; nofun)
  | _ => exact Iff.rfl

theorem Inv.endsEmpty (h : Inv config s) (hmoves : Moves s e s') : EndsEmpty s e s' := by
  intro hbefore hafter
  by_cases he : e = .wake
  · subst he
    cases hmoves with
    | popped => cases hafter
    | exited hworker hqueue =>
      have hledger := h.ledger
      rw [hworker, hqueue] at hledger
      show s.delivered.map (·.1) = s.enqueued
      rw [hledger]
      simp [inHand]
    | waits => exact absurd hafter hbefore
  · exact absurd ((hmoves.exited_iff_of_ne he).mp hafter) hbefore

/-- The destructor starts when no call is on its way, and none starts after it: who calls
    holds the logger. -/
def Owned (s : AsyncLogger) (e : Event) (_ : AsyncLogger) : Prop :=
  (e = .destroy → s.calls = []) ∧ ∀ entry, e = .call entry → s.stopRequested = false

/-- What holds when the logger is held by its callers. -/
structure OwnedInv (s : AsyncLogger) : Prop where
  stopped : s.stopRequested = true → s.calls = []
  exited : s.worker = .Exited →
    s.stopRequested = true ∧ s.delivered.map (·.1) = s.enqueued

theorem OwnedInv.step (hinv : Inv config s) (h : OwnedInv s) (hmoves : Moves s e s')
    (howned : Owned s e s') : OwnedInv s' := by
  have hends := hinv.endsEmpty hmoves
  cases hmoves with
  | skipped entry => exact { h with }
  | called entry =>
    have hrunning := howned.2 entry rfl
    exact
      { stopped := fun hstop => absurd (hrunning.symm.trans hstop) (by decide)
        exited := h.exited }
  | @entered i entry hentry =>
    -- a call is on its way, so the stop is not requested
    have hrunning : s.stopRequested ≠ true := by
      intro hstop
      rw [h.stopped hstop] at hentry
      cases hentry
    unfold enqueue
    split
    · exact
        { stopped := fun hstop => absurd hstop hrunning
          exited := h.exited }
    · exact
        { stopped := fun hstop => absurd hstop hrunning
          exited := fun hexited => absurd (h.exited hexited).1 hrunning }
  | popped => exact ⟨h.stopped, fun hexited => absurd hexited nofun⟩
  | exited hworker hqueue hstop =>
    exact ⟨h.stopped, fun hexited => ⟨hstop, hends (by rw [hworker]; nofun) hexited⟩⟩
  | formats => exact ⟨h.stopped, fun hexited => absurd hexited nofun⟩
  | sinks => exact ⟨h.stopped, fun hexited => absurd hexited nofun⟩
  | stops =>
    exact
      { stopped := fun _ => howned.1 rfl
        exited := fun hexited => ⟨rfl, (h.exited hexited).2⟩ }
  | levelStored => exact { h with }
  | jsonStored => exact { h with }
  | waits => exact h
  | joins => exact { h with }

/-! ### Whole runs -/

/-- The sink got a prefix of the entries that were enqueued, each as its line, the queue has
    no more entries than it may have, and the calls that returned `false` are counted. -/
structure Faithful (config : LoggerConfig) (s : AsyncLogger) : Prop where
  order : s.delivered.map (·.1) <+: s.enqueued
  lines : ∀ x ∈ s.delivered, ∃ json, x.2 = x.1.format json
  bounded : s.queue.length ≤ config.queueCapacity
  counted : s.dropped = s.returned.count false

theorem Inv.faithful (h : Inv config s) : Faithful config s where
  order := by
    rw [h.ledger, List.append_assoc]
    exact List.prefix_append _ _
  lines := h.lines
  bounded := h.bounded
  counted := h.counted

/-- **The access log is delivered.** In every interleaving of calls, changes of the level, the
    thread and the destruction, the sink gets the entries in their order, each once; the thread
    ends when all that was enqueued was delivered; and it stays so when no call is made on a
    logger that is destroyed. -/
theorem access_log_delivery (hcreate : create config = .ok s) (events : List Event) :
    Machine.Always step (Faithful config) s events ∧
      Machine.EachStep step EndsEmpty s events ∧
      (Machine.EachStep step Owned s events →
        Machine.Always step
          (fun s => s.worker = .Exited → s.delivered.map (·.1) = s.enqueued) s events) := by
  have hinv := inv_create hcreate
  refine ⟨?_, ?_, ?_⟩
  · apply Machine.always_of_invariant (Inv config) (fun _ h => h.faithful) ?_ events hinv
    exact fun s e s' h hstep => h.step (moves_of_step hstep)
  · apply Machine.eachStep_of_invariant (Inv config) ?_ events hinv
    exact fun s e s' h hstep =>
      ⟨h.endsEmpty (moves_of_step hstep), h.step (moves_of_step hstep)⟩
  · intro howned
    -- a new logger owns its worker
    have howns : OwnedInv s := by
      unfold create at hcreate
      split at hcreate
      · cases hcreate
      · obtain rfl := Except.ok.inj hcreate
        exact ⟨fun _ => rfl, fun h => absurd h nofun⟩
    apply Machine.always_of_eachStep (fun s => Inv config s ∧ OwnedInv s)
      (fun s h hexited => (h.2.exited hexited).2) ?_ ⟨hinv, howns⟩ howned
    rintro s e s' ⟨h, ho⟩ hok hstep
    exact ⟨h.step (moves_of_step hstep), ho.step h (moves_of_step hstep) hok⟩

/-- A queue of one entry. -/
def single : AsyncLogger :=
  { config := { json := false, queueCapacity := 1 }, level := .Info, json := false }

/-- The third entry finds the queue full, and the second one is delivered after the stop. -/
def threeCalls : List Event :=
  [.call { requestId := bytes "1", method := bytes "GET", target := bytes "/" }, .enter 0, .wake,
    .call { requestId := bytes "2", method := bytes "GET", target := bytes "/" }, .enter 0,
    .call { requestId := bytes "3", method := bytes "GET", target := bytes "/" }, .enter 0,
    .destroy, .format, .sink, .wake, .format, .sink, .wake, .join]

theorem access_log_delivery_threeCalls :
    Machine.Always step (Faithful single.config) single threeCalls ∧
      (Machine.run step single threeCalls).map (fun s =>
        (s.delivered.map (·.1.requestId), s.dropped)) = some ([bytes "1", bytes "2"], 1) :=
  ⟨(access_log_delivery rfl threeCalls).1, by decide +kernel⟩

end AsyncLogger
end PulseGate
