import Mathlib.Data.List.Nodup
import PulseGate.Http.HttpServer
import PulseGate.Http.SessionSteps

namespace PulseGate

/-!
# What a step of the server does

For one connection `Accounted` ties its counts to how far the accept callback and
`closeInExecutor` have come with it.  `HttpServer.Inv` says so of all connections, and that the
registry and the threads hold sessions that were admitted only; every step keeps it
(`step_inv`).  A session that is registered is alive, so that pruning removes nothing
(`prune_eq`).
-/

/-! ### One connection -/

namespace Connection

/-- What `closeInExecutor` has called so far. -/
def CloseCalls (c : Connection) : Prop :=
  match c.due with
  | none => c.removed = c.session.removals.length ∧ c.closed = c.session.removals.length
  | some (.remove _) => c.session.removals.length = 1 ∧ c.removed = 0 ∧ c.closed = 0
  | some .count => c.session.removals.length = 1 ∧ c.removed = 1 ∧ c.closed = 0

/-- How far the accept callback has come with the connection. -/
def FitsCallback (c : Connection) : Option CallbackPoint → Prop
  | some .adding | some .rejecting => c.added = false
  | some .counting | some .starting => c.added = true ∧ c.launched = false
  | none => c.added = c.launched

structure Accounted (c : Connection) (listed : Prop) (point : Option CallbackPoint) : Prop where
  closeInv : c.session.CloseInv 0
  calls : c.CloseCalls
  fits : c.FitsCallback point
  registered : listed ↔ c.added = true ∧ c.removed = 0
  accepted : c.accepted = if c.added ∧ point ≠ some .counting then 1 else 0
  /-- A session that was not admitted does nothing. -/
  outside : c.added = false → c.session.removals = [] ∧ c.launched = false ∧ c.requests = []
  alive : listed ∨ point ≠ none → c.expired = false

variable {c : Connection} {listed : Prop} {point : Option CallbackPoint}

theorem Accounted.removals_le (h : c.Accounted listed point) :
    c.session.removals.length ≤ 1 := by
  rw [h.closeInv.recorded.2.2.1]
  split <;> omega

theorem Accounted.of_not_added (h : c.Accounted listed point) (hadded : c.added = false) :
    c.due = none ∧ c.removed = 0 ∧ c.closed = 0 ∧ c.accepted = 0 := by
  have hcalls := h.calls
  have hnever : c.session.removals.length = 0 := by rw [(h.outside hadded).1]; rfl
  have haccepted := h.accepted
  rw [if_neg (by simp [hadded])] at haccepted
  unfold CloseCalls at hcalls
  split at hcalls
  · next hdue =>
    rw [hnever] at hcalls
    exact ⟨hdue, hcalls.1, hcalls.2, haccepted⟩
  all_goals
    rw [hnever] at hcalls
    exact absurd hcalls.1 Nat.zero_ne_one

/-- A session that runs was admitted. -/
theorem Accounted.added_of_launched (h : c.Accounted listed point) (hlaunched : c.launched = true) :
    c.added = true := by
  by_contra hadded
  rw [(h.outside (Bool.eq_false_iff.mpr hadded)).2.1] at hlaunched
  cases hlaunched

theorem Accounted.added_of_requests (h : c.Accounted listed point) (hrequests : c.requests ≠ []) :
    c.added = true := by
  by_contra hadded
  exact hrequests (h.outside (Bool.eq_false_iff.mpr hadded)).2.2

/-- A session that has taken a step in its executor. -/
theorem Accounted.stepped {now : Int} {e : SessionEvent} {session : HttpSession}
    (h : c.Accounted listed point) (hdue : c.due = none) (hadded : c.added = true)
    (hstep : c.session.step (now, e) = some session) :
    (c.stepped session).Accounted listed point := by
  have hinv := HttpSession.step_closeInv h.closeInv.since hstep
  have hgrown := hinv.recorded.2.2.2
  have hcalls := h.calls
  rw [CloseCalls, hdue] at hcalls
  have hle : session.removals.length ≤ 1 := by
    rw [hinv.recorded.2.2.1]
    split <;> omega
  refine ⟨hinv.any, ?_, h.fits, h.registered, h.accepted, fun hout => ?_, h.alive⟩
  · unfold CloseCalls Connection.stepped
    dsimp only
    split_ifs with hclosed
    -- the session has closed, and nothing has been called for it before
    · obtain ⟨reason, rest, hremovals⟩ : ∃ reason rest, session.removals = reason :: rest :=
        List.exists_cons_of_length_pos (by omega)
      rw [hremovals]
      rw [hremovals, List.length_cons] at hle hclosed
      exact ⟨by simpa using hle, by omega, by omega⟩
    · exact ⟨by omega, by omega⟩
  · rw [show c.added = false from hout] at hadded
    cases hadded

theorem Accounted.congr {listed' : Prop} {point' : Option CallbackPoint}
    (h : c.Accounted listed point) (hlisted : listed' ↔ listed) (hpoint : point' = point) :
    c.Accounted listed' point' := by
  rw [propext hlisted, hpoint]
  exact h

end Connection

namespace HttpServer

variable {s t : HttpServer}

/-! ### All connections -/

/-- Where the accept callback is with a connection. -/
def callbackAt (s : HttpServer) (id : SessionId) : Option CallbackPoint :=
  s.callback.bind fun p => if p.1 = id then some p.2 else none

/-- The session was admitted. -/
def Added (s : HttpServer) (id : SessionId) : Prop :=
  ∃ c, s.connections[id]? = some c ∧ c.added = true

/-- No session is admitted. -/
def AdmitsNone (s t : HttpServer) : Prop := ∀ id, t.Added id → s.Added id

structure Inv (s : HttpServer) : Prop where
  accounts : ∀ (id : SessionId) (c : Connection), s.connections[id]? = some c →
    c.Accounted (id ∈ s.registry.sessions) (s.callbackAt id)
  registered : ∀ id ∈ s.registry.sessions, s.Added id
  nodup : s.registry.sessions.Nodup
  callback : ∀ p ∈ s.callback, p.1 < s.connections.length
  held : ∀ thread ∈ s.threads, ∀ id ∈ thread.held, s.Added id

theorem Inv.alive (h : s.Inv) {id : SessionId} (hid : id ∈ s.registry.sessions) :
    s.alive id = true := by
  obtain ⟨c, hc, -⟩ := h.registered id hid
  simp [HttpServer.alive, hc, (h.accounts id c hc).alive (.inl hid)]

theorem Inv.pruneExpired_eq (h : s.Inv) : s.registry.pruneExpired s.alive = s.registry := by
  unfold SessionRegistry.pruneExpired
  rw [List.filter_eq_self.mpr fun id hid => h.alive hid]

/-- A registered session is alive. -/
theorem Inv.prune_eq (h : s.Inv) : s.prune = s := by
  unfold prune
  rw [h.pruneExpired_eq]

theorem Added.lt {id : SessionId} (h : s.Added id) : id < s.connections.length := by
  obtain ⟨c, hc, -⟩ := h
  exact (List.getElem?_eq_some_iff.mp hc).1

theorem create_inv {limits : SessionLimits} (h : create limits = .ok s) : s.Inv := by
  unfold create SessionRegistry.create at h
  split at h
  · cases h
  · obtain rfl := Except.ok.inj h
    refine ⟨fun id c hc => ?_, fun id hid => ?_, List.nodup_nil, nofun, fun thread hthread => ?_⟩
    · rw [List.getElem?_nil] at hc
      cases hc
    · exact absurd hid List.not_mem_nil
    · exact absurd hthread List.not_mem_nil

/-- The connections, the registry and the accept callback are as they were. -/
theorem Inv.same (h : s.Inv) (hconnections : t.connections = s.connections)
    (hsessions : t.registry.sessions = s.registry.sessions) (hcallback : t.callback = s.callback)
    (hheld : ∀ thread ∈ t.threads, ∀ id ∈ thread.held, s.Added id) : t.Inv := by
  have hadded {id : SessionId} (hid : s.Added id) : t.Added id := by
    rw [Added, hconnections]
    exact hid
  refine ⟨fun id c hc => ?_, fun id hid => ?_, by rw [hsessions]; exact h.nodup, ?_,
    fun thread hthread id hid => hadded (hheld thread hthread id hid)⟩
  · rw [hconnections] at hc
    exact (h.accounts id c hc).congr (by rw [hsessions]) (by rw [callbackAt, hcallback]; rfl)
  · rw [hsessions] at hid
    exact hadded (h.registered id hid)
  · rw [hcallback, hconnections]
    exact h.callback

/-! ### Changing one connection -/

/-- One connection changes, and what the registry and the accept callback have to do with it. -/
structure Changes (s t : HttpServer) (id : SessionId) (f : Connection → Connection) : Prop where
  connections : t.connections = s.connections.modify id f
  threads : t.threads = s.threads
  nodup : t.registry.sessions.Nodup
  callback : ∀ p ∈ t.callback, p.1 < s.connections.length
  others : ∀ j ≠ id, (j ∈ t.registry.sessions ↔ j ∈ s.registry.sessions) ∧
    t.callbackAt j = s.callbackAt j
  keepsAdded : ∀ c, c.added = true → (f c).added = true

variable {id : SessionId} {f : Connection → Connection}

theorem Added.changes {j : SessionId} (h : s.Added j) (hchange : s.Changes t id f) :
    t.Added j := by
  obtain ⟨c, hc, hadded⟩ := h
  refine ⟨if id = j then f c else c, ?_, ?_⟩
  · rw [hchange.connections, List.getElem?_modify, hc]
    rfl
  · split
    · exact hchange.keepsAdded c hadded
    · exact hadded

theorem Inv.changes (h : s.Inv) (hchange : s.Changes t id f)
    (haccounted : ∀ c, s.connections[id]? = some c →
      (f c).Accounted (id ∈ t.registry.sessions) (t.callbackAt id))
    (hregistered : id ∈ t.registry.sessions → t.Added id) : t.Inv where
  -- only the connection that changes is accounted for anew
  accounts j d hd := by
    rw [hchange.connections, List.getElem?_modify] at hd
    obtain ⟨c, hc, rfl⟩ := Option.map_eq_some_iff.mp hd
    by_cases hj : id = j
    · subst hj
      rw [if_pos rfl]
      exact haccounted c hc
    · rw [if_neg hj]
      obtain ⟨hsame, hcallback⟩ := hchange.others j (Ne.symm hj)
      exact (h.accounts j c hc).congr hsame hcallback
  registered j hj := by
    by_cases hid : j = id
    · exact hid ▸ hregistered (hid ▸ hj)
    · exact (h.registered j ((hchange.others j hid).1.mp hj)).changes hchange
  nodup := hchange.nodup
  callback p hp := by
    rw [hchange.connections, List.length_modify]
    exact hchange.callback p hp
  held thread hthread j hj := by
    rw [hchange.threads] at hthread
    exact (h.held thread hthread j hj).changes hchange

/-- Only the connection itself changes. -/
theorem Inv.update (h : s.Inv) (hadded : ∀ c, (f c).added = c.added)
    (haccounted : ∀ c, s.connections[id]? = some c →
      (f c).Accounted (id ∈ s.registry.sessions) (s.callbackAt id)) : (s.update id f).Inv := by
  have hchange : s.Changes (s.update id f) id f :=
    ⟨rfl, rfl, h.nodup, h.callback, fun j _ => ⟨Iff.rfl, rfl⟩, fun c hc => by rw [hadded, hc]⟩
  apply h.changes hchange haccounted
  intro hid
  exact (h.registered id hid).changes hchange

/-! ### The accept callback -/

theorem callbackAt_of_eq {point : CallbackPoint} (h : s.callback = some (id, point)) :
    s.callbackAt id = some point := by
  simp [callbackAt, h]

theorem callbackAt_of_ne {point : CallbackPoint} (h : s.callback = some (id, point))
    {j : SessionId} (hj : j ≠ id) : s.callbackAt j = none := by
  simp [callbackAt, h, Ne.symm hj]

theorem callbackAt_of_none (h : s.callback = none) (id : SessionId) : s.callbackAt id = none := by
  simp [callbackAt, h]

/-- What the accept callback does for the connection it was called for. -/
inductive CallbackStep (s t : HttpServer) (id : SessionId) : Prop
  | admitted (point : s.callback = some (id, .adding)) (open_ : s.registry.draining = false)
      (room : s.registry.sessions.length < s.registry.maximumSessions)
      (eq : t = HttpServer.update
        { s with registry := { s.registry with sessions := s.registry.sessions ++ [id] },
                 callback := some (id, .counting) } id fun c => { c with added := true })
  | refused (point : s.callback = some (id, .adding))
      (eq : t = { s with callback := some (id, .rejecting) })
  | counted (point : s.callback = some (id, .counting))
      (eq : t = HttpServer.connectionAccepted { s with callback := some (id, .starting) } id)
  | started (point : s.callback = some (id, .starting))
      (eq : t = HttpServer.update { s with callback := none } id fun c =>
        { c with launched := true })
  | rejected (point : s.callback = some (id, .rejecting))
      (eq : t = { s with callback := none,
                         registry := s.registry.recordRejected .ResourceLimit })

theorem runCallback_cases (h : s.Inv) (hstep : s.runCallback = some t) :
    ∃ id, s.CallbackStep t id := by
  unfold runCallback at hstep
  obtain ⟨⟨id, point⟩, hpoint, rfl⟩ := Option.map_eq_some_iff.mp hstep
  refine ⟨id, ?_⟩
  cases point with
  | adding =>
    simp only [SessionRegistry.tryAdd, h.pruneExpired_eq]
    split
    · exact .refused hpoint rfl
    · next hroom =>
      obtain ⟨hopen, hroom⟩ := not_or.mp hroom
      split
      · exact .refused hpoint rfl
      · exact .admitted hpoint (Bool.eq_false_iff.mpr hopen) (Nat.lt_of_not_le hroom) rfl
  | counting => exact .counted hpoint rfl
  | starting => exact .started hpoint rfl
  | rejecting => exact .rejected hpoint rfl

/-- The callback goes on with its connection, in a step that leaves the registry as it is. -/
theorem Inv.callbackGoesOn {point : CallbackPoint} (h : s.Inv)
    (hpoint : s.callback = some (id, point))
    (hconnections : t.connections = s.connections.modify id f)
    (hthreads : t.threads = s.threads) (hsessions : t.registry.sessions = s.registry.sessions)
    (hcallback : ∀ p ∈ t.callback, p.1 = id) (hadded : ∀ c, (f c).added = c.added)
    (haccounted : ∀ c, c.Accounted (id ∈ s.registry.sessions) (some point) →
      (f c).Accounted (id ∈ s.registry.sessions) (t.callbackAt id)) : t.Inv := by
  have hothers (j : SessionId) (hj : j ≠ id) :
      (j ∈ t.registry.sessions ↔ j ∈ s.registry.sessions) ∧ t.callbackAt j = s.callbackAt j := by
    refine ⟨by rw [hsessions], ?_⟩
    rw [callbackAt_of_ne hpoint hj]
    cases hnext : t.callback with
    | none => exact callbackAt_of_none hnext j
    | some p =>
      obtain rfl := hcallback p hnext
      exact callbackAt_of_ne hnext hj
  have hchange : s.Changes t id f :=
    { connections := hconnections
      threads := hthreads
      nodup := by rw [hsessions]; exact h.nodup
      callback := fun p hp => by rw [hcallback p hp]; exact h.callback _ hpoint
      others := hothers
      keepsAdded := fun c hc => by rw [hadded, hc] }
  apply h.changes hchange
  · intro c hc
    rw [hsessions]
    apply haccounted
    rw [← callbackAt_of_eq hpoint]
    exact h.accounts id c hc
  · intro hid
    rw [hsessions] at hid
    exact (h.registered id hid).changes hchange

theorem runCallback_inv (h : s.Inv) (hstep : s.runCallback = some t) : t.Inv := by
  obtain ⟨id, hcase⟩ := runCallback_cases h hstep
  cases hcase with
  | admitted hpoint hopen hroom heq =>
    subst heq
    -- the session was not admitted before, and is not registered
    have hbefore (c : Connection) (hc : s.connections[id]? = some c) :
        c.Accounted (id ∈ s.registry.sessions) (some .adding) := by
      rw [← callbackAt_of_eq hpoint]
      exact h.accounts id c hc
    have hlt := h.callback _ hpoint
    have hnot : id ∉ s.registry.sessions := by
      intro hid
      have hold := hbefore _ (List.getElem?_eq_getElem hlt)
      exact absurd (hold.registered.mp hid).1 (by rw [show _ = false from hold.fits]; nofun)
    have hchange : s.Changes (HttpServer.update
        { s with registry := { s.registry with sessions := s.registry.sessions ++ [id] },
                 callback := some (id, .counting) } id fun c => { c with added := true })
        id fun c => { c with added := true } :=
      { connections := rfl
        threads := rfl
        nodup := by
          show (s.registry.sessions ++ [id]).Nodup
          rw [← List.concat_eq_append]
          exact List.Nodup.concat hnot h.nodup
        callback := by
          rintro p ⟨⟩
          exact hlt
        others := fun j hj => ⟨by simp [update, hj],
          (callbackAt_of_ne rfl hj).trans (callbackAt_of_ne hpoint hj).symm⟩
        keepsAdded := fun _ _ => rfl }
    apply h.changes hchange
    · intro c hc
      rw [callbackAt_of_eq rfl]
      have hold := hbefore c hc
      obtain ⟨-, hremoved, -, haccepted⟩ := hold.of_not_added hold.fits
      refine ⟨hold.closeInv, hold.calls, ⟨rfl, (hold.outside hold.fits).2.1⟩, ?_, ?_, nofun,
        fun _ => hold.alive (.inr nofun)⟩
      · simp [update, hremoved]
      · simpa using haccepted
    · intro _
      refine ⟨{ s.connections[id] with added := true }, ?_, rfl⟩
      show (s.connections.modify id _)[id]? = _
      rw [List.getElem?_modify, List.getElem?_eq_getElem hlt]
      simp
  | refused hpoint heq =>
    subst heq
    refine h.callbackGoesOn (f := fun c => c) hpoint (List.modify_id _ _).symm rfl rfl
      (by rintro p ⟨⟩; rfl) (fun _ => rfl) fun c hold => ?_
    rw [callbackAt_of_eq rfl]
    refine ⟨hold.closeInv, hold.calls, hold.fits, hold.registered, ?_, hold.outside,
      fun _ => hold.alive (.inr nofun)⟩
    rw [(hold.of_not_added hold.fits).2.2.2, if_neg (by simp [show c.added = false from hold.fits])]
  | counted hpoint heq =>
    subst heq
    refine h.callbackGoesOn hpoint rfl rfl rfl (by rintro p ⟨⟩; rfl) (fun _ => rfl) fun c hold => ?_
    rw [callbackAt_of_eq rfl]
    obtain ⟨hadded, hlaunched⟩ := hold.fits
    refine ⟨hold.closeInv, hold.calls, ⟨hadded, hlaunched⟩, hold.registered, ?_, hold.outside,
      fun _ => hold.alive (.inr nofun)⟩
    show c.accepted + 1 = _
    rw [hold.accepted]
    simp [hadded]
  | started hpoint heq =>
    subst heq
    refine h.callbackGoesOn hpoint rfl rfl rfl nofun (fun _ => rfl) fun c hold => ?_
    rw [callbackAt_of_none rfl]
    obtain ⟨hadded, hlaunched⟩ := hold.fits
    refine ⟨hold.closeInv, hold.calls, hadded, hold.registered, ?_, ?_,
      fun _ => hold.alive (.inr nofun)⟩
    · show c.accepted = _
      rw [hold.accepted]
      simp [hadded]
    · intro hout
      rw [show c.added = false from hout] at hadded
      cases hadded
  | rejected hpoint heq =>
    subst heq
    refine h.callbackGoesOn (f := fun c => c) hpoint (List.modify_id _ _).symm rfl rfl nofun
      (fun _ => rfl) fun c hold => ?_
    rw [callbackAt_of_none rfl]
    have hadded : c.added = false := hold.fits
    refine ⟨hold.closeInv, hold.calls, hadded.trans (hold.outside hadded).2.1.symm,
      hold.registered, ?_, hold.outside, fun _ => hold.alive (.inr nofun)⟩
    rw [(hold.of_not_added hadded).2.2.2, if_neg (by simp [hadded])]

theorem connect_inv (h : s.Inv) (hstep : s.connect = some t) : t.Inv := by
  simp only [connect, Option.ite_none_right_eq_some] at hstep
  obtain ⟨⟨hcallback, -⟩, hstep⟩ := hstep
  split at hstep
  · obtain rfl := Option.some.inj hstep
    exact h
  next session hsession =>
  obtain rfl := Option.some.inj hstep
  have hgrown {j : SessionId} (hj : s.Added j) :
      ∃ c, (s.connections ++ [{ session := session }])[j]? = some c ∧ c.added = true := by
    obtain ⟨c, hc, hadded⟩ := hj
    exact ⟨c, (List.getElem?_append_left (Added.lt ⟨c, hc, hadded⟩)).trans hc, hadded⟩
  refine ⟨fun j c hc => ?_, fun j hj => hgrown (h.registered j hj), h.nodup, ?_,
    fun thread hthread j hj => hgrown (h.held thread hthread j hj)⟩
  · change (s.connections ++ [_])[j]? = some c at hc
    by_cases hj : j < s.connections.length
    · rw [List.getElem?_append_left hj] at hc
      apply (h.accounts j c hc).congr Iff.rfl
      rw [callbackAt_of_none hcallback, callbackAt_of_ne rfl (Nat.ne_of_lt hj)]
    -- the new connection has done nothing yet
    · rw [List.getElem?_append_right (Nat.le_of_not_lt hj), List.getElem?_singleton] at hc
      split at hc
      · next hlast =>
        obtain rfl := Option.some.inj hc
        obtain rfl : j = s.connections.length :=
          Nat.le_antisymm (Nat.sub_eq_zero_iff_le.mp hlast) (Nat.le_of_not_lt hj)
        have hnot : s.connections.length ∉ s.registry.sessions := fun hid =>
          Nat.lt_irrefl _ (h.registered _ hid).lt
        obtain ⟨input, -, -, -, rfl⟩ := HttpSession.create_eq_ok hsession
        rw [callbackAt_of_eq rfl]
        refine ⟨HttpSession.create_closeInv hsession, ⟨rfl, rfl⟩, rfl, ?_, rfl,
          fun _ => ⟨rfl, rfl, rfl⟩, fun _ => rfl⟩
        exact ⟨fun hid => absurd hid hnot, nofun⟩
      · cases hc
  · rintro p ⟨⟩
    show s.connections.length < (s.connections ++ [_]).length
    simp

/-! ### The sessions -/

/-- A coroutine that runs has been launched, and its session has not closed. -/
theorem runCoroutine_cases {now : Int} {e : SessionEvent}
    (hstep : s.runCoroutine id now e = some t) :
    ∃ c session, s.connections[id]? = some c ∧ c.launched = true ∧ c.due = none ∧
      c.session.step (now, e) = some session ∧ t = s.update id fun c => c.stepped session := by
  obtain ⟨c, hc, hstep⟩ := Option.bind_eq_some_iff.mp hstep
  simp only [Option.ite_none_right_eq_some] at hstep
  obtain ⟨⟨hlaunched, hdue, -⟩, hstep⟩ := hstep
  obtain ⟨session, hsession, rfl⟩ := Option.map_eq_some_iff.mp hstep
  exact ⟨c, session, hc, hlaunched, hdue, hsession, rfl⟩

/-- A handler that was posted is taken from the front, and its session has not closed. -/
theorem runRequest_cases (hstep : s.runRequest id = some t) :
    ∃ c request requests session, s.connections[id]? = some c ∧ c.due = none ∧
      c.requests = request :: requests ∧ c.session.step (0, request.event) = some session ∧
      t = s.update id fun c => { c with requests := requests }.stepped session := by
  obtain ⟨c, hc, hstep⟩ := Option.bind_eq_some_iff.mp hstep
  split at hstep
  · next request requests hdue hrequests =>
    obtain ⟨session, hsession, rfl⟩ := Option.map_eq_some_iff.mp hstep
    exact ⟨c, request, requests, session, hc, hdue, hrequests, hsession, rfl⟩
  · cases hstep

theorem runCoroutine_inv {now : Int} {e : SessionEvent} (h : s.Inv)
    (hstep : s.runCoroutine id now e = some t) : t.Inv := by
  obtain ⟨c, session, hc, hlaunched, hdue, hsession, rfl⟩ := runCoroutine_cases hstep
  refine h.update (fun _ => rfl) fun c' hc' => ?_
  obtain rfl := Option.some.inj (hc.symm.trans hc')
  have hold := h.accounts id c hc
  exact hold.stepped hdue (hold.added_of_launched hlaunched) hsession

theorem runRequest_inv (h : s.Inv) (hstep : s.runRequest id = some t) : t.Inv := by
  obtain ⟨c, request, requests, session, hc, hdue, hrequests, hsession, rfl⟩ :=
    runRequest_cases hstep
  refine h.update (fun _ => rfl) fun c' hc' => ?_
  obtain rfl := Option.some.inj (hc.symm.trans hc')
  have hold := h.accounts id c hc
  -- handlers are posted to admitted sessions only
  have hadded := hold.added_of_requests (by rw [hrequests]; exact List.cons_ne_nil _ _)
  have htaken : Connection.Accounted { c with requests := requests }
      (id ∈ s.registry.sessions) (s.callbackAt id) := by
    refine ⟨hold.closeInv, hold.calls, hold.fits, hold.registered, hold.accepted, fun hout => ?_,
      hold.alive⟩
    rw [show c.added = false from hout] at hadded
    cases hadded
  exact htaken.stepped hdue hadded hsession

/-- The two calls of `closeInExecutor` after a session has closed. -/
inductive ClosingStep (s t : HttpServer) (id : SessionId) (c : Connection) : Prop
  | removed (reason : StopReason) (due : c.due = some (.remove reason))
      (registered : id ∈ s.registry.sessions)
      (eq : t = HttpServer.update
        { s with registry := { s.registry with
                   sessions := s.registry.sessions.erase id,
                   closedCounts := reason :: s.registry.closedCounts } } id fun c =>
        { c with due := some .count, removed := c.removed + 1 })
  | counted (due : c.due = some .count)
      (eq : t = HttpServer.update
        { s with activeConnections := (s.activeConnections + sizeModulus - 1) % sizeModulus } id
        fun c => { c with due := none, closed := c.closed + 1 })

theorem runClosing_cases (h : s.Inv) (hstep : s.runClosing id = some t) :
    ∃ c, s.connections[id]? = some c ∧ s.ClosingStep t id c := by
  obtain ⟨c, hc, hstep⟩ := Option.bind_eq_some_iff.mp hstep
  refine ⟨c, hc, ?_⟩
  split at hstep
  · next reason hdue =>
    have hold := h.accounts id c hc
    have hcalls := hold.calls
    rw [Connection.CloseCalls, hdue] at hcalls
    -- the session has closed, so that it was admitted, and it was not removed before
    have hadded : c.added = true := by
      by_contra hout
      rw [(hold.outside (Bool.eq_false_iff.mpr hout)).1] at hcalls
      cases hcalls.1
    have hregistered := hold.registered.mpr ⟨hadded, hcalls.2.1⟩
    refine .removed reason hdue hregistered ?_
    rw [← Option.some.inj hstep, SessionRegistry.remove]
    simp only [if_pos hregistered]
  · next hdue => exact .counted hdue (Option.some.inj hstep).symm
  · cases hstep

theorem runClosing_inv (h : s.Inv) (hstep : s.runClosing id = some t) : t.Inv := by
  obtain ⟨c, hc, hcase⟩ := runClosing_cases h hstep
  have hold := h.accounts id c hc
  have hcalls := hold.calls
  cases hcase with
  | removed reason hdue hregistered heq =>
    rw [Connection.CloseCalls, hdue] at hcalls
    obtain ⟨hremovals, hremoved, hclosed⟩ := hcalls
    subst heq
    have hnot := h.nodup.not_mem_erase (a := id)
    apply h.changes (f := fun c => { c with due := some .count, removed := c.removed + 1 })
    · exact ⟨rfl, rfl, h.nodup.erase id, h.callback,
        fun j hj => ⟨List.mem_erase_of_ne hj, rfl⟩, fun _ hadded => hadded⟩
    · intro c' hc'
      obtain rfl := Option.some.inj (hc.symm.trans hc')
      refine ⟨hold.closeInv, ⟨hremovals, by simp [hremoved], hclosed⟩, hold.fits,
        ⟨fun hid => absurd hid hnot, fun hnever => absurd hnever.2 (Nat.succ_ne_zero _)⟩,
        hold.accepted, hold.outside, ?_⟩
      rintro (hid | hpoint)
      · exact absurd hid hnot
      · exact hold.alive (.inr hpoint)
    · intro hid
      exact absurd hid hnot
  | counted hdue heq =>
    rw [Connection.CloseCalls, hdue] at hcalls
    obtain ⟨hremovals, hremoved, hclosed⟩ := hcalls
    subst heq
    generalize (s.activeConnections + sizeModulus - 1) % sizeModulus = gauge
    have hgauge : Inv { s with activeConnections := gauge } := h.same rfl rfl rfl h.held
    refine hgauge.update (fun _ => rfl) fun c' hc' => ?_
    obtain rfl := Option.some.inj (hc.symm.trans hc')
    have hold := hgauge.accounts id c hc
    exact ⟨hold.closeInv, ⟨hremoved.trans hremovals.symm, by simp [hclosed, hremovals]⟩,
      hold.fits, hold.registered, hold.accepted, hold.outside, hold.alive⟩

/-- A session is released when nothing that would still use it is left. -/
theorem release_cases (hstep : s.release id = some t) :
    ∃ c, s.connections[id]? = some c ∧ s.callback.all (·.1 ≠ id) = true ∧ c.due = none ∧
      (c.launched = true → c.session.point = .finished) ∧
      t = s.update id fun c => { c with expired := true } := by
  obtain ⟨c, hc, hstep⟩ := Option.bind_eq_some_iff.mp hstep
  simp only [Option.ite_none_right_eq_some, Option.some.injEq] at hstep
  obtain ⟨⟨hcallback, -, hdue, hfinished, -⟩, rfl⟩ := hstep
  exact ⟨c, hc, hcallback, hdue, hfinished, rfl⟩

theorem release_inv (h : s.Inv) (hstep : s.release id = some t) : t.Inv := by
  obtain ⟨c, hc, hcallback, hdue, hfinished, rfl⟩ := release_cases hstep
  refine h.update (fun _ => rfl) fun c' hc' => ?_
  obtain rfl := Option.some.inj (hc.symm.trans hc')
  have hold := h.accounts id c hc
  have hpoint : s.callbackAt id = none := by
    cases hcall : s.callback with
    | none => exact callbackAt_of_none hcall id
    | some p =>
      rw [hcall] at hcallback
      exact callbackAt_of_ne hcall (Ne.symm (by simpa using hcallback))
  refine ⟨hold.closeInv, hold.calls, hold.fits, hold.registered, hold.accepted, hold.outside, ?_⟩
  rintro (hid | hpoint')
  -- a registered session has not closed, and its coroutine holds it
  · obtain ⟨hadded, hremoved⟩ := hold.registered.mp hid
    have hfits := hold.fits
    rw [hpoint] at hfits
    have hclosed := hold.closeInv.finished (hfinished (hfits.symm.trans hadded))
    have hcalls := hold.calls
    rw [Connection.CloseCalls, hdue] at hcalls
    have hremovals := hold.closeInv.recorded.2.2.1
    rw [if_pos (hold.closeInv.recorded.2.1.mpr hclosed), ← hcalls.1, hremoved] at hremovals
    cases hremovals
  · exact absurd hpoint hpoint'

/-! ### The threads -/

/-- What a step of a thread leaves as it is. -/
structure SameSessions (s t : HttpServer) : Prop where
  limits : t.limits = s.limits
  sessions : t.registry.sessions = s.registry.sessions
  maximumSessions : t.registry.maximumSessions = s.registry.maximumSessions
  activeConnections : t.activeConnections = s.activeConnections
  callback : t.callback = s.callback
  threads : t.threads = s.threads

/-- It posts a handler at most, to a session the thread holds. -/
inductive Posted (s t : HttpServer) (held : List SessionId) : Prop
  | none (connections : t.connections = s.connections)
  | one (id : SessionId) (request : SessionRequest) (held : id ∈ held)
      (connections : t.connections = (s.post id request).connections)

theorem runThread_cases (h : s.Inv) (thread : ServerThread) :
    s.SameSessions (s.runThread thread).1 ∧ s.Posted (s.runThread thread).1 thread.held ∧
      ∀ id ∈ (s.runThread thread).2.held, id ∈ thread.held ∨ id ∈ s.registry.sessions := by
  have hsame : s.SameSessions s := ⟨rfl, rfl, rfl, rfl, rfl, rfl⟩
  cases thread
  case claiming =>
    simp only [runThread]
    split
    · exact ⟨hsame, .none rfl, nofun⟩
    · exact ⟨⟨rfl, rfl, rfl, rfl, rfl, rfl⟩, .none rfl, nofun⟩
  case listing | forceListing =>
    simp only [runThread, h.prune_eq]
    exact ⟨hsame, .none rfl, fun id hid => .inr hid⟩
  -- the threads that post hold a list of sessions, and post to its first
  case requesting caller sessions | forcing caller sessions =>
    cases sessions with
    | nil => cases caller <;> exact ⟨hsame, .none rfl, nofun⟩
    | cons id sessions =>
      exact ⟨⟨rfl, rfl, rfl, rfl, rfl, rfl⟩, .one id _ List.mem_cons_self rfl,
        fun j hj => .inl (List.mem_cons_of_mem _ hj)⟩
  case checking =>
    refine ⟨hsame, .none rfl, ?_⟩
    simp only [runThread]
    split <;> nofun
  case sizing =>
    simp only [runThread, h.prune_eq]
    exact ⟨hsame, .none rfl, by split <;> nofun⟩
  case finishing | completing =>
    simp only [runThread]
    split
    · exact ⟨⟨rfl, rfl, rfl, rfl, rfl, rfl⟩, .none rfl, nofun⟩
    · exact ⟨⟨rfl, rfl, rfl, rfl, rfl, rfl⟩, .none rfl, nofun⟩
  all_goals exact ⟨⟨rfl, rfl, rfl, rfl, rfl, rfl⟩, .none rfl, nofun⟩

theorem post_inv (h : s.Inv) (hadded : s.Added id) (request : SessionRequest) :
    (s.post id request).Inv := by
  refine h.update (fun _ => rfl) fun c hc => ?_
  have hold := h.accounts id c hc
  refine ⟨hold.closeInv, hold.calls, hold.fits, hold.registered, hold.accepted, fun hout => ?_,
    hold.alive⟩
  obtain ⟨d, hd, hadded⟩ := hadded
  obtain rfl := Option.some.inj (hc.symm.trans hd)
  rw [show c.added = false from hout] at hadded
  cases hadded

/-- A thread goes on, and is then at `next`. -/
theorem Inv.threadGoesOn (h : s.Inv) {i : Nat} {thread : ServerThread}
    (hthread : s.threads[i]? = some thread) :
    Inv { (s.runThread thread).1 with threads := s.threads.set i (s.runThread thread).2 } := by
  obtain ⟨hsame, hposted, hheld⟩ := runThread_cases h thread
  have hthis := List.mem_of_getElem? hthread
  -- what the threads hold was admitted before the step
  have hthreads : ∀ other ∈ s.threads.set i (s.runThread thread).2,
      ∀ id ∈ other.held, s.Added id := by
    intro other hother id hid
    rcases List.mem_or_eq_of_mem_set hother with hother | rfl
    · exact h.held other hother id hid
    · exact (hheld id hid).elim (h.held thread hthis id) (h.registered id)
  cases hposted with
  | none hconnections => exact h.same hconnections hsame.sessions hsame.callback hthreads
  | one id request hid hconnections =>
    have hpost := post_inv h (h.held thread hthis id hid) request
    refine hpost.same hconnections hsame.sessions hsame.callback fun other hother j hj => ?_
    obtain ⟨c, hc, hadded⟩ := hthreads other hother j hj
    refine ⟨if id = j then { c with requests := c.requests ++ [request] } else c, ?_, ?_⟩
    · show (s.connections.modify id _)[j]? = _
      rw [List.getElem?_modify, hc]
      rfl
    · split <;> exact hadded

theorem spawn_inv (h : s.Inv) {thread : ServerThread} (hheld : thread.held = []) :
    (s.spawn thread).Inv := by
  refine h.same rfl rfl rfl fun other hother id hid => ?_
  rcases List.mem_append.mp hother with hother | hother
  · exact h.held other hother id hid
  · rw [List.mem_singleton.mp hother, hheld] at hid
    cases hid

/-! ### One event -/

theorem step_inv (h : s.Inv) {e : ServerEvent} (hstep : s.step e = some t) : t.Inv := by
  cases e with
  | connected => exact connect_inv h hstep
  | callback => exact runCallback_inv h hstep
  | coroutine id now e => exact runCoroutine_inv h hstep
  | request id => exact runRequest_inv h hstep
  | closing id => exact runClosing_inv h hstep
  | released id => exact release_inv h hstep
  | beginDrain grace onComplete =>
    obtain rfl := Option.some.inj hstep
    split
    · exact h
    · exact spawn_inv h rfl
  | stop =>
    obtain rfl := Option.some.inj hstep
    exact spawn_inv h rfl
  | thread i =>
    obtain ⟨thread, hthread, rfl⟩ := Option.map_eq_some_iff.mp hstep
    exact h.threadGoesOn hthread
  | graceExpired =>
    simp only [step, Option.ite_none_right_eq_some, Option.some.injEq] at hstep
    obtain ⟨-, rfl⟩ := hstep
    have hexpired : Inv { s with drainTimer := .expired } := h.same rfl rfl rfl h.held
    exact spawn_inv hexpired rfl

end HttpServer
end PulseGate
