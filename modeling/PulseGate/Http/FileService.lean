import PulseGate.Lib.BoundedCounter
import PulseGate.Lib.Machine
import PulseGate.Lib.Roster
import PulseGate.Http.StaticFileHandler

namespace PulseGate

/-!
# The file service

`BoundedFileService` of `file_service.cpp`, with any number of calls of `read` at a time.  What the
file system answers to a worker is an input, and may differ from one worker to the next.

A call counts itself in at `pending_`, by a loop of weak compare-exchanges, or is answered `Busy`;
a worker counts it out, and posts the answer to the executor of the caller.  `replyWork` is the
work that this executor knows of: what is posted to it, and the work guards.

* `file_reads_accounted` — in every state of every run `pending_` is the number of the calls that
  wait for a worker or are with one, the executor has work while a call waits for its answer, and
  every call is answered at most once;
* `every_read_answered` — nothing gets stuck: every run can go on until all calls are answered.
-/

/-- What the file system answers to `readInWorker`, call after call; `none` is an error. -/
structure FileAnswers where
  /-- `weakly_canonical` of the path. -/
  candidate : Option Bytes := none
  /-- The canonical paths of the candidate and of the root, as `relative` finds them. -/
  resolved : Option (Bytes × Bytes) := none
  found : Bool := false
  foundError : Bool := false
  regular : Bool := false
  size : Option Nat := none
  opened : Bool := false
  /-- What the stream reads up to the end of the file; `none` when it fails before. -/
  content : Option Bytes := none
  deriving DecidableEq, Repr

/-- `isBelow`. -/
def isBelow (resolved : Option (Bytes × Bytes)) : Bool :=
  match resolved with
  | none => false
  | some (candidate, root) =>
    let relative := Path.lexicallyRelative candidate root
    if relative.isEmpty ∨ relative.head? = some [47] then false
    else relative.all (· ≠ Path.dotDot)

/-- `failure`. -/
def fileFailure (status : FileStatus) : FileResult := { status := status }

/-- `BoundedFileService::readInWorker`. -/
def readInWorker (maximumBytes : Nat) (answers : FileAnswers) : FileResult :=
  match answers.candidate with
  | none => fileFailure .NotFound
  | some candidate =>
    if !isBelow answers.resolved then fileFailure .Forbidden
    else if !answers.found then fileFailure .NotFound
    else if answers.foundError ∨ !answers.regular then fileFailure .Forbidden
    else
      match answers.size with
      | none => fileFailure .InternalError
      | some size =>
        if maximumBytes < size then fileFailure .TooLarge
        else if !answers.opened then fileFailure .InternalError
        else
          match answers.content with
          | none => fileFailure .InternalError
          | some content =>
            -- a file that became shorter leaves zeros
            { status := .Ok, path := candidate,
              body := content.take size ++ List.replicate (size - content.length) 0 }

/-! ### Calls of `read` -/

inductive ReadStage
  /-- In `tryAcquireSlot`, or behind it and before the first post. -/
  | acquiring (attempt : BoundedCounter.Attempt)
  /-- In the queue of the pool. -/
  | queued
  /-- With a worker, in `readInWorker`. -/
  | working
  | read (result : FileResult)
  /-- Counted out; the worker is about to post the answer. -/
  | released (result : FileResult)
  /-- The answer is in the queue of the executor.  One of a worker has the guard of its job. -/
  | posted (served : Bool) (result : FileResult)
  | done (served : Bool) (result : FileResult)
  deriving DecidableEq, Repr

structure FileRead where
  path : Bytes
  maximumBytes : Nat
  stage : ReadStage := .acquiring .loading
  deriving DecidableEq, Repr

/-- A file service in use, with all calls there were. -/
structure BoundedFileService where
  workerCount : Nat
  queueCapacity : Nat
  pending : Nat := 0
  reads : List FileRead := []
  /-- The jobs that wait in the pool, the first one first. -/
  queue : List Nat := []
  replyWork : Nat := 0
  /-- What the workers found, in their order. -/
  found : List (Nat × FileAnswers) := []
  /-- The answers that were given, in their order. -/
  answered : List (Nat × FileResult) := []
  /-- The destructor has run. -/
  destroyed : Bool := false
  deriving DecidableEq, Repr

namespace BoundedFileService

/-- The constructor, for a document root that is a directory. -/
def create (workerCount queueCapacity : Nat) : Except Exception BoundedFileService :=
  if workerCount = 0 ∨ queueCapacity = 0 then .error .InvalidArgument
  else .ok { workerCount := workerCount, queueCapacity := queueCapacity }

/-- The call holds a slot. -/
def holdsSlot : ReadStage → Bool
  | .acquiring .counted | .queued | .working | .read _ => true
  | _ => false

/-- The call has a worker. -/
def hasWorker : ReadStage → Bool
  | .working | .read _ | .released _ => true
  | _ => false

/-- Neither the call nor a job of it will use the service. -/
def hasLeft : ReadStage → Bool
  | .posted _ _ | .done _ _ => true
  | _ => false

inductive Event
  | call (path : Bytes) (maximumBytes : Nat)
  | access (i : Nat) (a : BoundedCounter.Access)
  /-- `tryAcquireSlot` has returned; the call posts a job, or the answer `Busy`. -/
  | initiate (i : Nat)
  /-- A worker takes the first job. -/
  | take
  | finish (i : Nat) (answers : FileAnswers)
  | release (i : Nat)
  | post (i : Nat)
  /-- The executor runs an answer that was posted to it. -/
  | reply (i : Nat)
  | destroy
  deriving DecidableEq, Repr

def setStage (s : BoundedFileService) (i : Nat) (r : FileRead) (stage : ReadStage) :
    BoundedFileService :=
  { s with reads := s.reads.set i { r with stage := stage } }

def step (s : BoundedFileService) : Event → Option BoundedFileService
  | .call path maximumBytes =>
    -- the owner does not call a service that is gone
    if s.destroyed then none
    else
      some { s with reads := s.reads ++ [{ path := path, maximumBytes := maximumBytes }] }
  | .access i a =>
    s.reads[i]?.bind fun r =>
      match r.stage with
      | .acquiring attempt =>
        (BoundedCounter.access s.queueCapacity s.pending attempt a).map fun (pending, attempt') =>
          { s.setStage i r (.acquiring attempt') with pending := pending }
      | _ => none
  | .initiate i =>
    s.reads[i]?.bind fun r =>
      match r.stage with
      | .acquiring .counted =>
        -- the job holds a work guard of the executor
        some { s.setStage i r .queued with
          queue := s.queue ++ [i], replyWork := s.replyWork + 1 }
      | .acquiring .full =>
        some { s.setStage i r (.posted false (fileFailure .Busy)) with
          replyWork := s.replyWork + 1 }
      | _ => none
  | .take =>
    match s.queue with
    | [] => none
    | i :: queue =>
      if s.reads.countP (fun r => hasWorker r.stage) < s.workerCount then
        s.reads[i]?.map fun r => { s.setStage i r .working with queue := queue }
      else none
  | .finish i answers =>
    s.reads[i]?.bind fun r =>
      match r.stage with
      | .working =>
        some { s.setStage i r (.read (readInWorker r.maximumBytes answers)) with
          found := s.found ++ [(i, answers)] }
      | _ => none
  | .release i =>
    s.reads[i]?.bind fun r =>
      match r.stage with
      | .read result =>
        some { s.setStage i r (.released result) with
          pending := BoundedCounter.fetchSub sizeModulus s.pending }
      | _ => none
  | .post i =>
    s.reads[i]?.bind fun r =>
      match r.stage with
      | .released result =>
        -- the answer has the guard of the job
        some { s.setStage i r (.posted true result) with replyWork := s.replyWork + 1 }
      | _ => none
  | .reply i =>
    s.reads[i]?.bind fun r =>
      match r.stage with
      | .posted served result =>
        some { s.setStage i r (.done served result) with
          replyWork := s.replyWork - if served then 2 else 1
          answered := s.answered ++ [(i, result)] }
      | _ => none
  | .destroy =>
    -- the caller has left `read`, and `join` waits for the jobs
    if !s.destroyed ∧ s.reads.all (fun r => hasLeft r.stage) then some { s with destroyed := true }
    else none

/-! ### The accounts -/

/-- A work guard keeps the executor of the caller alive. -/
def hasGuard : ReadStage → Bool
  | .queued | .working | .read _ | .released _ | .posted true _ => true
  | _ => false

def isPosted : ReadStage → Bool
  | .posted _ _ => true
  | _ => false

/-- What a worker has made of the file. -/
def servedResult : ReadStage → Option FileResult
  | .read result | .released result | .posted true result | .done true result => some result
  | _ => none

/-- The answer to a call that was not let in. -/
def refusedResult : ReadStage → Option FileResult
  | .posted false result | .done false result => some result
  | _ => none

def isDone : ReadStage → Bool
  | .done _ _ => true
  | _ => false

/-- The number of the calls at some stages. -/
def count (s : BoundedFileService) (p : ReadStage → Bool) : Nat :=
  s.reads.countP fun r => p r.stage

/-- What the answer to a call is made of. -/
structure Explained (s : BoundedFileService) (i : Nat) (r : FileRead) : Prop where
  /-- Its one worker found this. -/
  served : ∀ result ∈ servedResult r.stage, ∃ answers, (i, answers) ∈ s.found ∧
    result = readInWorker r.maximumBytes answers
  refused : ∀ result ∈ refusedResult r.stage, result = fileFailure .Busy

structure Accounted (s : BoundedFileService) : Prop where
  pending : s.pending = s.count holdsSlot
  capacity : s.pending ≤ s.queueCapacity
  workers : s.count hasWorker ≤ s.workerCount
  /-- The executor has work as long as a call waits for its answer. -/
  work : s.replyWork = s.count hasGuard + s.count isPosted
  queue : Roster s.queue s.reads fun r => r.stage = .queued
  /-- No file is read twice. -/
  found : Roster (s.found.map (·.1)) s.reads fun r => (servedResult r.stage).isSome = true
  /-- No call is answered twice. -/
  answered : Roster (s.answered.map (·.1)) s.reads fun r => isDone r.stage = true
  answers : ∀ x ∈ s.answered, ∃ r served, s.reads[x.1]? = some r ∧ r.stage = .done served x.2
  explained : ∀ (i : Nat) (r : FileRead), s.reads[i]? = some r → s.Explained i r

/-- What holds between two steps. -/
structure Inv (s : BoundedFileService) : Prop where
  accounted : s.Accounted
  valid : ∀ r ∈ s.reads, ∀ attempt, r.stage = .acquiring attempt →
    attempt.Valid s.queueCapacity
  destroyed : s.destroyed = true → ∀ r ∈ s.reads, hasLeft r.stage = true

variable {s s' : BoundedFileService} {i : Nat} {r : FileRead} {stage : ReadStage}

theorem inv_init (workerCount queueCapacity : Nat) :
    Inv { workerCount := workerCount, queueCapacity := queueCapacity } where
  accounted :=
    { pending := rfl
      capacity := Nat.zero_le _
      workers := Nat.zero_le _
      work := rfl
      queue := .empty
      found := .empty
      answered := .empty
      answers := fun _ hx => absurd hx List.not_mem_nil
      explained := fun _ _ hr => by cases hr }
  valid _ hr := absurd hr List.not_mem_nil
  destroyed hdestroyed := by cases hdestroyed

theorem count_setStage (hr : s.reads[i]? = some r) (p : ReadStage → Bool) (stage : ReadStage) :
    (s.setStage i r stage).count p + (p r.stage).toNat = s.count p + (p stage).toNat :=
  BoundedCounter.countP_set (fun r : FileRead => p r.stage) hr { r with stage := stage }

/-- A call goes to another stage, and what the answers are made of stays explained. -/
theorem Accounted.explains (h : s.Accounted) (hr : s.reads[i]? = some r)
    (hreads : s'.reads = s.reads.set i { r with stage := stage })
    (hfound : ∀ x ∈ s.found, x ∈ s'.found)
    (hown : s'.Explained i { r with stage := stage }) :
    ∀ (j : Nat) (other : FileRead), s'.reads[j]? = some other → s'.Explained j other := by
  intro j other hother
  rw [hreads] at hother
  by_cases hij : i = j
  · subst hij
    rw [List.getElem?_set_self (List.getElem?_eq_some_iff.mp hr).1] at hother
    exact Option.some.inj hother ▸ hown
  · rw [List.getElem?_set_ne hij] at hother
    obtain ⟨hserved, hrefused⟩ := h.explained j other hother
    refine ⟨fun result hresult => ?_, hrefused⟩
    obtain ⟨answers, hmem, heq⟩ := hserved result hresult
    exact ⟨answers, hfound _ hmem, heq⟩

/-- The answers given stay those of calls that are done. -/
theorem Accounted.keeps (h : s.Accounted) (hr : s.reads[i]? = some r)
    (hdone : isDone r.stage = false) :
    ∀ x ∈ s.answered, ∃ other served, (s.reads.set i { r with stage := stage })[x.1]? = some other ∧
      other.stage = .done served x.2 := by
  intro x hx
  obtain ⟨other, served, hother, hstage⟩ := h.answers x hx
  have hij : i ≠ x.1 := by
    rintro rfl
    obtain rfl := Option.some.inj (hr.symm.trans hother)
    rw [hstage] at hdone
    cases hdone
  exact ⟨other, served, (List.getElem?_set_ne hij).trans hother, hstage⟩

/-- What a step does not do: it does not refuse a call while there is a free slot, does not count
below zero, and does not use the service after its destructor. -/
structure Proper (s : BoundedFileService) (e : Event) (s' : BoundedFileService) : Prop where
  refuses : ∀ i a, e = .access i a → (∃ r, s'.reads[i]? = some r ∧ r.stage = .acquiring .full) →
    s.pending = s.queueCapacity
  releases : ∀ i, e = .release i → s.pending ≠ 0
  /-- The answer that the executor runs is work that it knows of. -/
  replies : ∀ i, e = .reply i → s'.replyWork < s.replyWork
  destroyed : s.destroyed = true → ∃ i, e = .reply i

/-- The stages of the other calls, and what does not change. -/
theorem Inv.sets (h : s.Inv) (hr : s.reads[i]? = some r)
    (hreads : s'.reads = s.reads.set i { r with stage := stage })
    (hsame : s'.workerCount = s.workerCount ∧ s'.queueCapacity = s.queueCapacity ∧
      s'.destroyed = s.destroyed) (hleft : hasLeft r.stage = true → hasLeft stage = true)
    (hvalid : ∀ attempt, stage = .acquiring attempt → attempt.Valid s.queueCapacity)
    (haccounted : s'.Accounted) : s'.Inv := by
  obtain ⟨-, hcapacity, hdestroyed⟩ := hsame
  refine ⟨haccounted, fun other hother attempt hattempt => ?_, fun hgone other hother => ?_⟩
  · rw [hreads] at hother
    rw [hcapacity]
    rcases List.mem_or_eq_of_mem_set hother with hother | rfl
    · exact h.valid other hother attempt hattempt
    · exact hvalid attempt hattempt
  · rw [hreads] at hother
    rw [hdestroyed] at hgone
    rcases List.mem_or_eq_of_mem_set hother with hother | rfl
    · exact h.destroyed hgone other hother
    · exact hleft (h.destroyed hgone r (List.mem_of_getElem? hr))

/-- Only a call that has not left the service can go on in it. -/
theorem Inv.not_destroyed (h : s.Inv) (hr : s.reads[i]? = some r) (hstage : hasLeft r.stage = false)
    {p : Prop} (hgone : s.destroyed = true) : p := by
  rw [h.destroyed hgone r (List.mem_of_getElem? hr)] at hstage
  cases hstage

/-- A call goes to another stage, and everything is counted as before. -/
theorem Accounted.moves (h : s.Accounted) (hr : s.reads[i]? = some r)
    (hreads : s'.reads = s.reads.set i { r with stage := stage })
    (hsame : s'.workerCount = s.workerCount ∧ s'.queueCapacity = s.queueCapacity)
    (hpending : s'.pending + (holdsSlot r.stage).toNat = s.pending + (holdsSlot stage).toNat)
    (hcapacity : s'.pending ≤ s.queueCapacity)
    (hworkers : (hasWorker stage).toNat ≤ (hasWorker r.stage).toNat ∨
      s.count hasWorker < s.workerCount)
    (hwork : s'.replyWork + ((hasGuard r.stage).toNat + (isPosted r.stage).toNat) =
      s.replyWork + ((hasGuard stage).toNat + (isPosted stage).toNat))
    (hqueue : Roster s'.queue (s.reads.set i { r with stage := stage }) fun r => r.stage = .queued)
    (hfound : Roster (s'.found.map (·.1)) (s.reads.set i { r with stage := stage })
      fun r => (servedResult r.stage).isSome = true)
    (hanswered : Roster (s'.answered.map (·.1)) (s.reads.set i { r with stage := stage })
      fun r => isDone r.stage = true)
    (hanswers : ∀ x ∈ s'.answered, ∃ other served,
      (s.reads.set i { r with stage := stage })[x.1]? = some other ∧ other.stage = .done served x.2)
    (hkept : ∀ x ∈ s.found, x ∈ s'.found)
    (hown : s'.Explained i { r with stage := stage }) : s'.Accounted := by
  have hcount : ∀ p, s'.count p + (p r.stage).toNat = s.count p + (p stage).toNat := by
    intro p
    have hset := count_setStage hr p stage
    rwa [show (s.setStage i r stage).count p = s'.count p by
      rw [count, count, hreads]; rfl] at hset
  have hslots := hcount holdsSlot
  have hbusy := hcount hasWorker
  have hguards := hcount hasGuard
  have hposted := hcount isPosted
  have hold := h.pending
  have hold_workers := h.workers
  have hold_work := h.work
  refine ⟨by omega, hsame.2 ▸ hcapacity, ?_, by omega, hreads ▸ hqueue, hreads ▸ hfound,
    hreads ▸ hanswered, hreads ▸ hanswers, h.explains hr hreads hkept hown⟩
  rw [hsame.1]
  have hone : (hasWorker stage).toNat ≤ 1 := Bool.toNat_le _
  omega

/-- **Step lemma** for an access to the counter. -/
theorem Inv.accesses (h : s.Inv) (hr : s.reads[i]? = some r)
    {attempt attempt' : BoundedCounter.Attempt}
    (hstage : r.stage = .acquiring attempt) {a : BoundedCounter.Access} {pending : Nat}
    (haccess : BoundedCounter.access s.queueCapacity s.pending attempt a =
      some (pending, attempt')) :
    let s' := { s.setStage i r (.acquiring attempt') with pending := pending }
    s.Proper (.access i a) s' ∧ s'.Inv := by
  obtain ⟨hpast, hcases⟩ :=
    BoundedCounter.access_cases (h.valid r (List.mem_of_getElem? hr) attempt hstage) haccess
  have hnot : holdsSlot (.acquiring attempt) = false := by
    rcases hpast with rfl | ⟨observed, rfl⟩ <;> rfl
  -- the counter changes as the slot does
  have hslot : pending = s.pending + (holdsSlot (.acquiring attempt')).toNat ∧
      pending ≤ s.queueCapacity ∧ attempt'.Valid s.queueCapacity ∧
        (attempt' = .full → s.queueCapacity ≤ s.pending) := by
    have hcapacity := h.accounted.capacity
    rcases hcases with ⟨rfl, hroom, rfl⟩ | ⟨rfl, hroom, rfl⟩ | ⟨rfl, hfull, rfl⟩
    · exact ⟨rfl, hcapacity, hroom, nofun⟩
    · exact ⟨rfl, hroom, trivial, nofun⟩
    · exact ⟨rfl, hcapacity, trivial, fun _ => hfull⟩
  obtain ⟨hpending, hcapacity, hvalid, hfull⟩ := hslot
  have hlt := (List.getElem?_eq_some_iff.mp hr).1
  refine ⟨⟨?_, nofun, nofun, h.not_destroyed hr (by rw [hstage]; rfl)⟩, ?_⟩
  · rintro _ _ heq ⟨other, hother, hother_stage⟩
    obtain ⟨rfl, rfl⟩ := Event.access.inj heq
    have hown : (s.reads.set i { r with stage := .acquiring attempt' })[i]? = some other := hother
    rw [List.getElem?_set_self hlt] at hown
    obtain rfl := Option.some.inj hown
    obtain rfl := ReadStage.acquiring.inj hother_stage
    exact le_antisymm h.accounted.capacity (hfull rfl)
  · refine h.sets hr rfl ⟨rfl, rfl, rfl⟩ (fun hleft => ?_) (fun _ heq => ?_) ?_
    · rw [hstage] at hleft
      cases hleft
    · exact ReadStage.acquiring.inj heq ▸ hvalid
    · refine h.accounted.moves hr rfl ⟨rfl, rfl⟩ ?_ hcapacity ?_ ?_
        (h.accounted.queue.keep hr (by rw [hstage]; exact iff_of_false nofun nofun))
        (h.accounted.found.keep hr (by rw [hstage]; rfl))
        (h.accounted.answered.keep hr (by rw [hstage]; rfl))
        (h.accounted.keeps hr (by rw [hstage]; rfl)) (fun _ hx => hx) ⟨nofun, nofun⟩
      · rw [hstage, hnot]
        exact hpending
      · exact .inl (by rw [hstage]; rfl)
      · rw [hstage]
        rfl

/-- A call that holds a slot is counted. -/
theorem Accounted.pending_pos (h : s.Accounted) (hr : s.reads[i]? = some r)
    (hslot : holdsSlot r.stage = true) : s.pending ≠ 0 := by
  rw [h.pending]
  exact Nat.ne_of_gt (List.countP_pos_iff.mpr ⟨r, List.mem_of_getElem? hr, hslot⟩)

/-- **Step lemma** for a call that has left `tryAcquireSlot`. -/
theorem Inv.initiates (h : s.Inv) (hr : s.reads[i]? = some r)
    (hstep : s.step (.initiate i) = some s') : s'.Inv := by
  have hcapacity := h.accounted.capacity
  change s.reads[i]?.bind _ = some s' at hstep
  rw [hr, Option.bind_some] at hstep
  split at hstep
  · next hstage =>
    obtain rfl := Option.some.inj hstep
    refine h.sets hr rfl ⟨rfl, rfl, rfl⟩ (by rw [hstage]; exact fun h => h) nofun ?_
    refine h.accounted.moves hr rfl ⟨rfl, rfl⟩ ?_ hcapacity (.inl (by rw [hstage]; rfl)) ?_
      (h.accounted.queue.enter hr (by rw [hstage]; exact nofun) rfl)
      (h.accounted.found.keep hr (by rw [hstage]; rfl))
      (h.accounted.answered.keep hr (by rw [hstage]; rfl))
      (h.accounted.keeps hr (by rw [hstage]; rfl)) (fun _ hx => hx) ⟨nofun, nofun⟩
    · rw [hstage]
      rfl
    · rw [hstage]
      rfl
  · next hstage =>
    obtain rfl := Option.some.inj hstep
    refine h.sets hr rfl ⟨rfl, rfl, rfl⟩ (by rw [hstage]; exact nofun) nofun ?_
    refine h.accounted.moves hr rfl ⟨rfl, rfl⟩ ?_ hcapacity (.inl (by rw [hstage]; rfl)) ?_
      (h.accounted.queue.keep hr (by rw [hstage]; exact iff_of_false nofun nofun))
      (h.accounted.found.keep hr (by rw [hstage]; rfl))
      (h.accounted.answered.keep hr (by rw [hstage]; rfl))
      (h.accounted.keeps hr (by rw [hstage]; rfl)) (fun _ hx => hx)
      ⟨nofun, fun _ hresult => (Option.some.inj hresult).symm⟩
    · rw [hstage]
      rfl
    · rw [hstage]
      rfl
  · cases hstep

/-- **Step lemma** for a worker that takes a job. -/
theorem Inv.takes (h : s.Inv) {queue : List Nat} (hqueue : s.queue = i :: queue)
    (hr : s.reads[i]? = some r) (hstage : r.stage = .queued)
    (hfree : s.count hasWorker < s.workerCount) :
    Inv { s.setStage i r .working with queue := queue } := by
  refine h.sets hr rfl ⟨rfl, rfl, rfl⟩ (by rw [hstage]; exact nofun) nofun ?_
  refine h.accounted.moves hr rfl ⟨rfl, rfl⟩ ?_ h.accounted.capacity (.inr hfree) ?_
    ((hqueue ▸ h.accounted.queue).leave hr nofun)
    (h.accounted.found.keep hr (by rw [hstage]; rfl))
    (h.accounted.answered.keep hr (by rw [hstage]; rfl))
    (h.accounted.keeps hr (by rw [hstage]; rfl)) (fun _ hx => hx) ⟨nofun, nofun⟩
  · rw [hstage]
    rfl
  · rw [hstage]
    rfl

/-- **Step lemma** for a worker that has read the file, or has failed to. -/
theorem Inv.finishes (h : s.Inv) (hr : s.reads[i]? = some r) (hstage : r.stage = .working)
    (answers : FileAnswers) :
    Inv { s.setStage i r (.read (readInWorker r.maximumBytes answers)) with
      found := s.found ++ [(i, answers)] } := by
  refine h.sets hr rfl ⟨rfl, rfl, rfl⟩ (by rw [hstage]; exact nofun) nofun ?_
  refine h.accounted.moves hr rfl ⟨rfl, rfl⟩ ?_ h.accounted.capacity (.inl (by rw [hstage]; rfl)) ?_
    (h.accounted.queue.keep hr (by rw [hstage]; exact iff_of_false nofun nofun)) ?_
    (h.accounted.answered.keep hr (by rw [hstage]; rfl))
    (h.accounted.keeps hr (by rw [hstage]; rfl)) (fun _ hx => List.mem_append_left _ hx) ?_
  · rw [hstage]
    rfl
  · rw [hstage]
    rfl
  · show Roster ((s.found ++ [(i, answers)]).map (·.1)) _ _
    rw [List.map_append]
    exact h.accounted.found.enter hr (by rw [hstage]; exact nofun) rfl
  · refine ⟨fun result hresult => ?_, nofun⟩
    exact ⟨answers, List.mem_append_right _ (.head _), (Option.some.inj hresult).symm⟩

/-- **Step lemma** for a worker that gives the slot back. -/
theorem Inv.releases (h : s.Inv) (hr : s.reads[i]? = some r) {result : FileResult}
    (hstage : r.stage = .read result) :
    s.pending ≠ 0 ∧ Inv { s.setStage i r (.released result) with
      pending := BoundedCounter.fetchSub sizeModulus s.pending } := by
  have hpos := h.accounted.pending_pos hr (by rw [hstage]; rfl)
  have hcapacity := h.accounted.capacity
  have hsub := BoundedCounter.fetchSub_add_one sizeModulus hpos
  obtain ⟨hserved, -⟩ := h.accounted.explained i r hr
  generalize BoundedCounter.fetchSub sizeModulus s.pending = less at hsub ⊢
  refine ⟨hpos, ?_⟩
  refine h.sets hr rfl ⟨rfl, rfl, rfl⟩ (by rw [hstage]; exact nofun) nofun ?_
  refine h.accounted.moves hr rfl ⟨rfl, rfl⟩ ?_ (show less ≤ _ by omega)
    (.inl (by rw [hstage]; rfl)) ?_
    (h.accounted.queue.keep hr (by rw [hstage]; exact iff_of_false nofun nofun))
    (h.accounted.found.keep hr (by rw [hstage]; rfl))
    (h.accounted.answered.keep hr (by rw [hstage]; rfl))
    (h.accounted.keeps hr (by rw [hstage]; rfl)) (fun _ hx => hx)
    ⟨fun result hresult => hserved result (by rw [hstage]; exact hresult), nofun⟩
  · rw [hstage]
    exact hsub
  · rw [hstage]
    rfl

/-- **Step lemma** for a worker that posts the answer. -/
theorem Inv.posts (h : s.Inv) (hr : s.reads[i]? = some r) {result : FileResult}
    (hstage : r.stage = .released result) :
    Inv { s.setStage i r (.posted true result) with replyWork := s.replyWork + 1 } := by
  obtain ⟨hserved, -⟩ := h.accounted.explained i r hr
  refine h.sets hr rfl ⟨rfl, rfl, rfl⟩ (by rw [hstage]; exact nofun) nofun ?_
  refine h.accounted.moves hr rfl ⟨rfl, rfl⟩ ?_ h.accounted.capacity (.inl (Nat.zero_le _)) ?_
    (h.accounted.queue.keep hr (by rw [hstage]; exact iff_of_false nofun nofun))
    (h.accounted.found.keep hr (by rw [hstage]; rfl))
    (h.accounted.answered.keep hr (by rw [hstage]; rfl))
    (h.accounted.keeps hr (by rw [hstage]; rfl)) (fun _ hx => hx)
    ⟨fun result hresult => hserved result (by rw [hstage]; exact hresult), nofun⟩
  · rw [hstage]
    rfl
  · rw [hstage]
    show s.replyWork + 1 + 1 = s.replyWork + 2
    rfl

/-- **Step lemma** for the executor that runs an answer. -/
theorem Inv.replies (h : s.Inv) (hr : s.reads[i]? = some r) {served : Bool} {result : FileResult}
    (hstage : r.stage = .posted served result) :
    let replyWork := s.replyWork - if served then 2 else 1
    replyWork < s.replyWork ∧ Inv { s.setStage i r (.done served result) with
      replyWork := replyWork, answered := s.answered ++ [(i, result)] } := by
  have hmem := List.mem_of_getElem? hr
  have hlt := (List.getElem?_eq_some_iff.mp hr).1
  have hposted : 0 < s.count isPosted :=
    List.countP_pos_iff.mpr ⟨r, hmem, by rw [hstage]; rfl⟩
  -- an answer of a worker has a guard, too
  have hguard : (if served then 2 else 1) ≤ s.replyWork := by
    rw [h.accounted.work]
    cases served with
    | false => exact Nat.le_add_left_of_le hposted
    | true =>
      have hguards : 0 < s.count hasGuard :=
        List.countP_pos_iff.mpr ⟨r, hmem, by rw [hstage]; rfl⟩
      exact Nat.add_le_add hguards hposted
  obtain ⟨hserved, hrefused⟩ := h.accounted.explained i r hr
  constructor
  · have hpos : 0 < if served then 2 else 1 := by cases served <;> decide
    exact Nat.sub_lt_self hpos hguard
  · refine h.sets hr rfl ⟨rfl, rfl, rfl⟩ (fun _ => rfl) nofun ?_
    refine h.accounted.moves hr rfl ⟨rfl, rfl⟩ ?_ h.accounted.capacity
      (.inl (by rw [hstage]; rfl)) ?_
      (h.accounted.queue.keep hr (by rw [hstage]; exact iff_of_false nofun nofun)) ?_ ?_ ?_
      (fun _ hx => hx) ?_
    · rw [hstage]
      rfl
    · rw [hstage]
      show s.replyWork - _ + _ = s.replyWork + 0
      cases served with
      | false =>
        show s.replyWork - 1 + 1 = s.replyWork
        exact Nat.sub_add_cancel hguard
      | true =>
        show s.replyWork - 2 + 2 = s.replyWork
        exact Nat.sub_add_cancel hguard
    · exact h.accounted.found.keep hr (by rw [hstage]; cases served <;> rfl)
    · show Roster ((s.answered ++ [(i, result)]).map (·.1)) _ _
      rw [List.map_append]
      exact h.accounted.answered.enter hr (by rw [hstage]; exact nofun) rfl
    · intro x hx
      rcases List.mem_append.mp hx with hx | hx
      · exact h.accounted.keeps hr (by rw [hstage]; rfl) x hx
      · rw [List.mem_singleton.mp hx]
        exact ⟨_, served, List.getElem?_set_self hlt, rfl⟩
    · refine ⟨fun result hresult => hserved result ?_, fun result hresult => hrefused result ?_⟩
      · rw [hstage]
        cases served with
        | false => cases hresult
        | true => exact hresult
      · rw [hstage]
        cases served with
        | false => exact hresult
        | true => cases hresult

/-- **Step lemma** for a new call. -/
theorem Inv.calls (h : s.Inv) (hpresent : s.destroyed = false) (path : Bytes) (maximumBytes : Nat) :
    Inv { s with reads := s.reads ++ [{ path := path, maximumBytes := maximumBytes }] } := by
  have hcount : ∀ p : ReadStage → Bool, p (.acquiring .loading) = false →
      (s.reads ++ [({ path := path, maximumBytes := maximumBytes } : FileRead)]).countP
        (fun r => p r.stage) = s.count p := by
    intro p hp
    rw [List.countP_append, List.countP_singleton, hp]
    rfl
  have hslots := hcount holdsSlot rfl
  have hworkers := hcount hasWorker rfl
  have hguards := hcount hasGuard rfl
  have hposted := hcount isPosted rfl
  have haccounted := h.accounted
  refine ⟨⟨haccounted.pending.trans hslots.symm, haccounted.capacity,
    hworkers.trans_le haccounted.workers,
    haccounted.work.trans (congrArg₂ (· + ·) hguards.symm hposted.symm),
    haccounted.queue.join nofun, haccounted.found.join nofun, haccounted.answered.join nofun,
    fun x hx => ?_, fun j other hother => ?_⟩, fun r hr attempt hattempt => ?_, ?_⟩
  · obtain ⟨other, served, hother, hstage⟩ := haccounted.answers x hx
    exact ⟨other, served, (List.getElem?_append_left
      (List.getElem?_eq_some_iff.mp hother).1).trans hother, hstage⟩
  · rcases Nat.lt_or_ge j s.reads.length with hj | hj
    · have hother : s.reads[j]? = some other := (List.getElem?_append_left hj).symm.trans hother
      obtain ⟨hserved, hrefused⟩ := haccounted.explained j other hother
      exact ⟨hserved, hrefused⟩
    · have hnew : other = { path := path, maximumBytes := maximumBytes } := by
        have hother : (s.reads ++ [_])[j]? = some other := hother
        rw [List.getElem?_append_right hj] at hother
        exact List.mem_singleton.mp (List.mem_of_getElem? hother)
      subst hnew
      exact ⟨nofun, nofun⟩
  · rcases List.mem_append.mp hr with hr | hr
    · exact h.valid r hr attempt hattempt
    · rw [List.mem_singleton.mp hr] at hattempt
      exact ReadStage.acquiring.inj hattempt ▸ trivial
  · intro hgone
    rw [show s.destroyed = true from hgone] at hpresent
    cases hpresent

/-- **Step lemma.** -/
theorem Inv.step (h : s.Inv) {e : Event} (hstep : s.step e = some s') :
    s.Proper e s' ∧ s'.Inv := by
  cases e with
  | call path maximumBytes =>
    change (if s.destroyed then none else some _) = some s' at hstep
    split at hstep
    · cases hstep
    · next hpresent =>
      obtain rfl := Option.some.inj hstep
      have hpresent := Bool.eq_false_of_not_eq_true hpresent
      refine ⟨⟨nofun, nofun, nofun, fun hgone => ?_⟩, h.calls hpresent path maximumBytes⟩
      rw [hpresent] at hgone
      cases hgone
  | access i a =>
    obtain ⟨r, hr, hstep⟩ := Option.bind_eq_some_iff.mp hstep
    split at hstep
    · next attempt hstage =>
      obtain ⟨⟨pending, attempt'⟩, haccess, rfl⟩ := Option.map_eq_some_iff.mp hstep
      exact h.accesses hr hstage haccess
    · cases hstep
  | initiate i =>
    obtain ⟨r, hr, hstages⟩ := Option.bind_eq_some_iff.mp hstep
    refine ⟨⟨nofun, nofun, nofun, h.not_destroyed hr ?_⟩, h.initiates hr hstep⟩
    split at hstages
    · next hstage => rw [hstage]; rfl
    · next hstage => rw [hstage]; rfl
    · cases hstages
  | take =>
    unfold BoundedFileService.step at hstep
    simp only at hstep
    split at hstep
    · cases hstep
    · next i queue hqueue =>
      split at hstep
      · next hfree =>
        obtain ⟨r, hr, rfl⟩ := Option.map_eq_some_iff.mp hstep
        obtain ⟨r', hr', hstage⟩ := (h.accounted.queue.mem_iff i).mp (hqueue ▸ List.mem_cons_self)
        obtain rfl := Option.some.inj (hr.symm.trans hr')
        refine ⟨⟨nofun, nofun, nofun, h.not_destroyed hr (by rw [hstage]; rfl)⟩, ?_⟩
        exact h.takes hqueue hr hstage hfree
      · cases hstep
  | finish i answers =>
    obtain ⟨r, hr, hstep⟩ := Option.bind_eq_some_iff.mp hstep
    split at hstep
    · next hstage =>
      obtain rfl := Option.some.inj hstep
      exact ⟨⟨nofun, nofun, nofun, h.not_destroyed hr (by rw [hstage]; rfl)⟩,
        h.finishes hr hstage answers⟩
    · cases hstep
  | release i =>
    obtain ⟨r, hr, hstep⟩ := Option.bind_eq_some_iff.mp hstep
    split at hstep
    · next result hstage =>
      obtain rfl := Option.some.inj hstep
      obtain ⟨hpos, hinv⟩ := h.releases hr hstage
      exact ⟨⟨nofun, fun _ _ => hpos, nofun, h.not_destroyed hr (by rw [hstage]; rfl)⟩, hinv⟩
    · cases hstep
  | post i =>
    obtain ⟨r, hr, hstep⟩ := Option.bind_eq_some_iff.mp hstep
    split at hstep
    · next result hstage =>
      obtain rfl := Option.some.inj hstep
      exact ⟨⟨nofun, nofun, nofun, h.not_destroyed hr (by rw [hstage]; rfl)⟩, h.posts hr hstage⟩
    · cases hstep
  | reply i =>
    obtain ⟨r, hr, hstep⟩ := Option.bind_eq_some_iff.mp hstep
    split at hstep
    · next served result hstage =>
      obtain rfl := Option.some.inj hstep
      obtain ⟨hless, hinv⟩ := h.replies hr hstage
      exact ⟨⟨nofun, nofun, fun _ _ => hless, fun _ => ⟨i, rfl⟩⟩, hinv⟩
    · cases hstep
  | destroy =>
    change (if _ then some _ else none) = some s' at hstep
    split at hstep
    · next hleft =>
      obtain rfl := Option.some.inj hstep
      have hpresent : s.destroyed = false := by simpa using hleft.1
      obtain ⟨haccounted, hvalid, -⟩ := h
      refine ⟨⟨nofun, nofun, nofun, fun hgone => ?_⟩, ?_, hvalid,
        fun _ => List.all_eq_true.mp hleft.2⟩
      · rw [hpresent] at hgone
        cases hgone
      · obtain ⟨hpending, hcapacity, hworkers, hwork, hqueue, hfound, hanswered, hanswers,
          hexplained⟩ := haccounted
        exact ⟨hpending, hcapacity, hworkers, hwork, hqueue, hfound, hanswered, hanswers,
          fun j other hother => ⟨(hexplained j other hother).served,
            (hexplained j other hother).refused⟩⟩
    · cases hstep

theorem workerCount_step {e : Event} (hstep : s.step e = some s') :
    s'.workerCount = s.workerCount := by
  unfold BoundedFileService.step at hstep
  cases e <;> simp only [Option.bind_eq_some_iff] at hstep <;>
    grind [setStage, Option.map_eq_some_iff]

/-- **The file service.** In every run of any calls: `pending_` is the number of the calls with a
slot, and at most the capacity; no more workers are busy than there are; the executor of the
callers has work as long as an answer is due; every file is read by one worker, every call is
answered once, with what its worker made of the file or with `Busy`.  A call is refused only when
all slots are taken, and the service is not used after its destructor. -/
theorem file_reads_accounted (workerCount queueCapacity : Nat) (events : List Event) :
    Machine.Always BoundedFileService.step Accounted
        { workerCount := workerCount, queueCapacity := queueCapacity } events ∧
      Machine.EachStep BoundedFileService.step Proper
        { workerCount := workerCount, queueCapacity := queueCapacity } events := by
  have hinit := inv_init workerCount queueCapacity
  constructor
  · exact Machine.always_of_invariant Inv (fun _ h => h.accounted)
      (fun _ _ _ h hstep => (h.step hstep).2) events hinit
  · apply Machine.eachStep_of_invariant Inv _ events hinit
    exact fun s e s' h hstep => h.step hstep

/-! ### Every call is answered -/

/-- How many stages a call has before it. -/
def remaining : ReadStage → Nat
  | .acquiring .loading | .acquiring (.looping _) => 7
  | .acquiring .counted | .acquiring .full => 6
  | .queued => 5
  | .working => 4
  | .read _ => 3
  | .released _ => 2
  | .posted _ _ => 1
  | .done _ _ => 0

def totalRemaining (s : BoundedFileService) : Nat :=
  (s.reads.map fun r => remaining r.stage).sum

/-- No new call, and no destructor. -/
def Internal : Event → Prop
  | .call _ _ | .destroy => False
  | _ => True

/-- What does not change on the way. -/
structure Settling (s initial : BoundedFileService) : Prop where
  inv : s.Inv
  workers : 0 < s.workerCount
  length : s.reads.length = initial.reads.length

theorem totalRemaining_setStage (hr : s.reads[i]? = some r)
    (hreads : s'.reads = s.reads.set i { r with stage := stage })
    (hless : remaining stage < remaining r.stage) : s'.totalRemaining < s.totalRemaining := by
  have hsum := Roster.sum_set (fun r : FileRead => remaining r.stage) hr { r with stage := stage }
  unfold totalRemaining
  rw [hreads]
  simp only at hsum
  omega

variable {initial : BoundedFileService}

/-- The calls can go on from `s` to a state with less before them. -/
def GoesOn (s initial : BoundedFileService) : Prop :=
  ∃ es s', Machine.run step s es = some s' ∧ (∀ e ∈ es, Internal e) ∧ s'.Settling initial ∧
    s'.totalRemaining < s.totalRemaining

theorem Settling.step (h : s.Settling initial) {e : Event} (hstep : s.step e = some s')
    (hworkers : s'.workerCount = s.workerCount)
    (hreads : s'.reads = s.reads.set i { r with stage := stage }) : s'.Settling initial where
  inv := (h.inv.step hstep).2
  workers := hworkers ▸ h.workers
  length := by rw [hreads, List.length_set, h.length]

/-- One step of a call to a later stage. -/
theorem Settling.goes (h : s.Settling initial) (hr : s.reads[i]? = some r) (e : Event)
    (s' : BoundedFileService) (hinternal : Internal e) (hstep : s.step e = some s')
    (hworkers : s'.workerCount = s.workerCount)
    (hreads : s'.reads = s.reads.set i { r with stage := stage })
    (hless : remaining stage < remaining r.stage) : s.GoesOn initial := by
  refine ⟨[e], s', ?_, List.forall_mem_singleton.mpr hinternal, h.step hstep hworkers hreads,
    totalRemaining_setStage hr hreads hless⟩
  rw [Machine.run, hstep]
  rfl

/-- An exchange with what the counter is, and no other access in between. -/
theorem Settling.exchanges (h : s.Settling initial) (hr : s.reads[i]? = some r)
    (hstage : r.stage = .acquiring (.looping s.pending)) : s.GoesOn initial := by
  refine h.goes hr (.access i (.exchange false)) { s.setStage i r
    (.acquiring .counted) with pending := s.pending + 1 } trivial ?_ rfl rfl
    (by rw [hstage]; exact Nat.lt_succ_self _)
  show s.reads[i]?.bind _ = _
  rw [hr, Option.bind_some, hstage]
  simp only [BoundedCounter.access, true_and, if_true, Option.map_some]

/-- An access that reads the counter, and then the exchange. -/
theorem Settling.reads_counter (h : s.Settling initial) (hr : s.reads[i]? = some r)
    (hrest : remaining r.stage = 7) {a : BoundedCounter.Access}
    (hstep : s.step (.access i a) = some (s.setStage i r
      (.acquiring (BoundedCounter.observe s.queueCapacity s.pending)))) : s.GoesOn initial := by
  by_cases hroom : s.pending < s.queueCapacity
  · rw [BoundedCounter.observe, if_pos hroom] at hstep
    have hnext := h.step hstep rfl rfl
    have hlt := (List.getElem?_eq_some_iff.mp hr).1
    obtain ⟨es, s', hrun, hinternal, hsettling, hless⟩ :=
      hnext.exchanges (List.getElem?_set_self hlt) rfl
    refine ⟨.access i a :: es, s', ?_, List.forall_mem_cons.mpr ⟨trivial, hinternal⟩, hsettling, ?_⟩
    · rw [Machine.run, hstep]
      exact hrun
    · -- the first access leaves the call where it was
      refine hless.trans_eq ?_
      have hsum : (s.setStage i r (.acquiring (.looping s.pending))).totalRemaining +
          remaining r.stage = s.totalRemaining + 7 :=
        Roster.sum_set (fun r : FileRead => remaining r.stage) hr
          { r with stage := .acquiring (.looping s.pending) }
      rw [hrest] at hsum
      exact Nat.add_right_cancel hsum
  · rw [BoundedCounter.observe, if_neg hroom] at hstep
    exact h.goes hr (.access i a) _ trivial hstep rfl rfl (by rw [hrest]; exact Nat.lt_succ_self _)

/-- **A call in `tryAcquireSlot` can leave it.** -/
theorem Settling.acquires (h : s.Settling initial) (hr : s.reads[i]? = some r)
    {attempt : BoundedCounter.Attempt} (hstage : r.stage = .acquiring attempt) :
    s.GoesOn initial := by
  cases attempt with
  | loading =>
    refine h.reads_counter hr (by rw [hstage]; rfl) (a := .load) ?_
    show s.reads[i]?.bind _ = _
    rw [hr, Option.bind_some, hstage]
    rfl
  | looping observed =>
    by_cases hsame : observed = s.pending
    · exact h.exchanges hr (hsame ▸ hstage)
    · refine h.reads_counter hr (by rw [hstage]; rfl) (a := .exchange false) ?_
      show s.reads[i]?.bind _ = _
      rw [hr, Option.bind_some, hstage]
      simp only [BoundedCounter.access, hsame, false_and, if_false, Option.map_some]
      rfl
  | counted =>
    refine h.goes hr (.initiate i) { s.setStage i r .queued with
      queue := s.queue ++ [i], replyWork := s.replyWork + 1 } trivial ?_ rfl rfl
      (by rw [hstage]; exact Nat.lt_succ_self _)
    show s.reads[i]?.bind _ = _
    rw [hr, Option.bind_some, hstage]
  | full =>
    refine h.goes hr (.initiate i) { s.setStage i r
      (.posted false (fileFailure .Busy)) with replyWork := s.replyWork + 1 } trivial ?_ rfl rfl
      (by rw [hstage]; show 1 < 6; decide)
    show s.reads[i]?.bind _ = _
    rw [hr, Option.bind_some, hstage]

/-- A job that waits can be taken when no worker is busy. -/
theorem Settling.takes (h : s.Settling initial) (hr : s.reads[i]? = some r)
    (hstage : r.stage = .queued) (hidle : s.count hasWorker = 0) : s.GoesOn initial := by
  have hmem := (h.inv.accounted.queue.mem_iff i).mpr ⟨r, hr, hstage⟩
  cases hqueue : s.queue with
  | nil => rw [hqueue] at hmem; cases hmem
  | cons first queue =>
    obtain ⟨r', hr', hstage'⟩ :=
      (h.inv.accounted.queue.mem_iff first).mp (hqueue ▸ List.mem_cons_self)
    have hfree : s.reads.countP (fun r => hasWorker r.stage) < s.workerCount :=
      hidle.trans_lt h.workers
    refine h.goes hr' (.take) { s.setStage first r' .working with
      queue := queue } trivial ?_ rfl rfl (by rw [hstage']; decide)
    unfold BoundedFileService.step
    simp only [hqueue]
    rw [if_pos hfree, hr']
    rfl

/-- **As long as a call is not done, some call can go on.** -/
theorem Settling.progress (h : s.Settling initial)
    (hopen : ¬ ∀ r ∈ s.reads, isDone r.stage = true) : s.GoesOn initial := by
  by_cases hidle : s.count hasWorker = 0
  · obtain ⟨r, hr⟩ : ∃ r ∈ s.reads, isDone r.stage ≠ true := by
      simpa only [not_forall, exists_prop] using hopen
    obtain ⟨i, hi⟩ := List.mem_iff_getElem?.mp hr.1
    have hnone := List.countP_eq_zero.mp hidle r hr.1
    cases hstage : r.stage with
    | acquiring attempt => exact h.acquires hi hstage
    | queued => exact h.takes hi hstage hidle
    | posted served result =>
      refine h.goes hi (.reply i) { s.setStage i r (.done served result) with
        replyWork := s.replyWork - if served then 2 else 1
        answered := s.answered ++ [(i, result)] } trivial ?_ rfl rfl
        (by rw [hstage]; exact Nat.lt_succ_self _)
      show s.reads[i]?.bind _ = _
      rw [hi, Option.bind_some, hstage]
    | done served result => exact absurd (by rw [hstage]; rfl) hr.2
    | _ => exact absurd (by rw [hstage]; rfl) hnone
  · -- a busy worker goes on
    obtain ⟨r, hr, hbusy⟩ := List.countP_pos_iff.mp (Nat.pos_of_ne_zero hidle)
    obtain ⟨i, hi⟩ := List.mem_iff_getElem?.mp hr
    cases hstage : r.stage with
    | working =>
      refine h.goes hi (.finish i {}) { s.setStage i r
        (.read (readInWorker r.maximumBytes {})) with found := s.found ++ [(i, {})] } trivial ?_ rfl
        rfl (by rw [hstage]; exact Nat.lt_succ_self _)
      show s.reads[i]?.bind _ = _
      rw [hi, Option.bind_some, hstage]
    | read result =>
      refine h.goes hi (.release i) { s.setStage i r (.released result) with
        pending := BoundedCounter.fetchSub sizeModulus s.pending } trivial ?_ rfl rfl
        (by rw [hstage]; exact Nat.lt_succ_self _)
      show s.reads[i]?.bind _ = _
      rw [hi, Option.bind_some, hstage]
    | released result =>
      refine h.goes hi (.post i) { s.setStage i r (.posted true result) with
        replyWork := s.replyWork + 1 } trivial ?_ rfl rfl (by rw [hstage]; exact Nat.lt_succ_self _)
      show s.reads[i]?.bind _ = _
      rw [hi, Option.bind_some, hstage]
    | _ =>
      rw [hstage] at hbusy
      cases hbusy

/-- The one answer to a call that is done. -/
theorem Accounted.answered_once (h : s.Accounted) (hr : s.reads[i]? = some r)
    (hdone : isDone r.stage = true) : ∃! x, x ∈ s.answered ∧ x.1 = i := by
  obtain ⟨x, hx, rfl⟩ := List.mem_map.mp ((h.answered.mem_iff i).mpr ⟨r, hr, hdone⟩)
  refine ⟨x, ⟨hx, rfl⟩, fun y ⟨hy, hkey⟩ => ?_⟩
  exact List.inj_on_of_nodup_map h.answered.nodup hy hx hkey

/-- **Every call is answered.** Wherever a run of a service that its constructor has accepted has
come to, some steps of the calls, workers and executors that are there lead on to a state in which
all calls that were made are answered, each of them once. -/
theorem every_read_answered {workerCount queueCapacity : Nat} {init : BoundedFileService}
    (hcreate : create workerCount queueCapacity = .ok init) (events : List Event) :
    ∀ s ∈ Machine.run BoundedFileService.step init events,
      ∃ more s', Machine.run BoundedFileService.step s more = some s' ∧ (∀ e ∈ more, Internal e) ∧
        s'.reads.length = s.reads.length ∧
        ∀ i < s.reads.length, ∃! x, x ∈ s'.answered ∧ x.1 = i := by
  intro s hs
  unfold create at hcreate
  split at hcreate
  · cases hcreate
  next hlimits =>
  obtain rfl := Except.ok.inj hcreate
  -- the number of workers stays what the constructor was given
  have hinv : s.Inv ∧ s.workerCount = workerCount :=
    (Machine.always_of_invariant (fun s => s.Inv ∧ s.workerCount = workerCount) (fun _ h => h)
      (fun s e s' h hstep => ⟨(h.1.step hstep).2, (workerCount_step hstep).trans h.2⟩) events
      ⟨inv_init workerCount queueCapacity, rfl⟩).last s hs
  have hworkers : 0 < s.workerCount := by
    rw [hinv.2]
    exact Nat.pos_of_ne_zero fun hzero => hlimits (.inl hzero)
  obtain ⟨more, s', hrun, hinternal, hsettling, hdone⟩ :=
    Machine.exists_run_of_measure (fun s' => s'.Settling s)
      (fun s' => ∀ r ∈ s'.reads, isDone r.stage = true) Internal totalRemaining
      (fun s' h hopen => h.progress hopen) ⟨hinv.1, hworkers, rfl⟩
  refine ⟨more, s', hrun, hinternal, hsettling.length, fun i hi => ?_⟩
  have hlt : i < s'.reads.length := hsettling.length ▸ hi
  exact hsettling.inv.accounted.answered_once (List.getElem?_eq_getElem hlt)
    (hdone _ (List.getElem_mem hlt))

/-- One slot and two calls, one of which finds it taken. -/
theorem every_read_answered_two :
    ∃ s, Machine.run BoundedFileService.step { workerCount := 1, queueCapacity := 1 }
        [.call [47] 9, .call [47] 9, .access 0 .load, .access 1 .load,
          .access 0 (.exchange false), .access 1 (.exchange false), .initiate 1] = some s ∧
      ∃ more s', Machine.run BoundedFileService.step s more = some s' ∧ (∀ e ∈ more, Internal e) ∧
        s'.reads.length = s.reads.length ∧
        ∀ i < s.reads.length, ∃! x, x ∈ s'.answered ∧ x.1 = i := by
  obtain ⟨s, hs⟩ : ∃ s, Machine.run BoundedFileService.step { workerCount := 1, queueCapacity := 1 }
        [.call [47] 9, .call [47] 9, .access 0 .load, .access 1 .load,
          .access 0 (.exchange false), .access 1 (.exchange false), .initiate 1] = some s :=
    Option.isSome_iff_exists.mp (by decide)
  exact ⟨s, hs, @every_read_answered 1 1 _ rfl _ s hs⟩

end BoundedFileService
end PulseGate
