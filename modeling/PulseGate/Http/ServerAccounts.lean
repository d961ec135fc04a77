import Mathlib.Algebra.GroupWithZero.Nat
import Mathlib.Data.Nat.ModEq
import PulseGate.Http.ServerSteps

namespace PulseGate

/-!
# The connections are counted

Every session that is admitted is counted once as accepted, taken from the registry once, and
counted once as closed.  The gauge `active_connections_` is the number of the calls of
`connectionAccepted` less that of `connectionClosed`, modulo the size of its word.

The accept callback admits a session first and counts it then.  In between other threads can
close it: the gauge falls below the number of the counted sessions, and from zero to its largest
value.  `connections_counted_iff` says when that does not happen, and that the gauge is right
whenever the callback is not between the two calls, for handlers that return on the executor of
their session.
-/

namespace HttpServer

variable {s t : HttpServer} {id : SessionId} {c : Connection}

/-! ### The properties -/

/-- The calls for one connection. -/
structure CountedOnce (s : HttpServer) (id : SessionId) (c : Connection) : Prop where
  accepted : c.accepted = if c.added ∧ s.callbackAt id ≠ some .counting then 1 else 0
  /-- Only a session that was admitted is closed. -/
  admitted : c.session.state = .Closed → c.added = true
  registered : id ∈ s.registry.sessions ↔ c.added = true ∧ c.removed = 0
  removedFirst : c.closed ≤ c.removed
  running : c.session.state ≠ .Closed → c.removed = 0
  ended : c.session.state = .Closed → c.due = none → c.removed = 1 ∧ c.closed = 1
  once : c.removed ≤ 1

def AllCountedOnce (s : HttpServer) : Prop :=
  ∀ (id : SessionId) (c : Connection), s.connections[id]? = some c → s.CountedOnce id c

/-- The sessions that were admitted and have not been counted as closed. -/
def openSessions (s : HttpServer) : Nat := s.connections.countP fun c => c.added && c.closed == 0

/-- Those that were counted as accepted. -/
def countedSessions (s : HttpServer) : Nat :=
  s.connections.countP fun c => c.accepted == 1 && c.closed == 0

/-- The gauge is the number of the sessions that are open. -/
def GaugeExact (s : HttpServer) : Prop := s.activeConnections = s.openSessions

/-- The gauge is the number of the sessions that were counted and are open. -/
def GaugeCounts (s : HttpServer) : Prop := s.activeConnections = s.countedSessions

/-- The accept callback has admitted a session, and is to count it. -/
def IsCounting (s : HttpServer) : Prop := ∃ id, s.callback = some (id, .counting)

/-! ### Their conditions -/

/-- A session is counted as closed only after it was counted as accepted. -/
def CountedFirst (s : HttpServer) : ServerEvent → Prop
  | .closing id => ∀ c ∈ s.connections[id]?, c.due = some .count → c.accepted = 1
  | _ => True

instance (s : HttpServer) : DecidablePred s.CountedFirst
  | .closing id => inferInstanceAs (Decidable (∀ c ∈ s.connections[id]?, _))
  | .connected | .callback | .coroutine .. | .request _ | .released _ | .beginDrain .. | .stop
  | .thread _ | .graceExpired => isTrue trivial

/-! ### Every call once -/

theorem Inv.countedOnce (h : s.Inv) : s.AllCountedOnce := by
  intro id c hc
  have hold := h.accounts id c hc
  obtain ⟨-, hclosed, hremovals, -⟩ := hold.closeInv.recorded
  have hcalls := hold.calls
  refine ⟨hold.accepted, fun hstate => ?_, hold.registered, ?_, fun hstate => ?_,
    fun hstate hdue => ?_, ?_⟩
  · by_contra hadded
    rw [(hold.outside (Bool.eq_false_iff.mpr hadded)).1, if_pos (hclosed.mpr hstate)] at hremovals
    cases hremovals
  · unfold Connection.CloseCalls at hcalls
    split at hcalls <;> omega
  · rw [if_neg fun hrecorded => hstate (hclosed.mp hrecorded)] at hremovals
    unfold Connection.CloseCalls at hcalls
    split at hcalls <;> omega
  · rw [Connection.CloseCalls, hdue, hremovals, if_pos (hclosed.mpr hstate)] at hcalls
    exact hcalls
  · have hle := hold.removals_le
    unfold Connection.CloseCalls at hcalls
    split at hcalls <;> omega

/-! ### The gauge -/

/-- The gauge and the calls it counts. -/
structure Balanced (s : HttpServer) : Prop where
  bounded : s.activeConnections < sizeModulus
  few : s.connections.length < sizeModulus
  balance : s.activeConnections + (s.connections.map (·.closed)).sum ≡
    (s.connections.map (·.accepted)).sum [MOD sizeModulus]

/-- A sum over a list one member of which changes. -/
theorem sum_map_modify {α : Type} {l : List α} {i : Nat} {a : α} (f : α → α) (g : α → Nat)
    (h : l[i]? = some a) : ((l.modify i f).map g).sum + g a = (l.map g).sum + g (f a) := by
  induction l generalizing i with
  | nil => cases h
  | cons b l ih =>
    cases i with
    | zero =>
      obtain rfl := Option.some.inj h
      simp only [List.modify_zero_cons, List.map_cons, List.sum_cons]
      omega
    | succ i =>
      have hrest := ih (i := i) h
      simp only [List.modify_succ_cons, List.map_cons, List.sum_cons]
      omega

/-- The sessions that were closed before they were counted as accepted. -/
def earlySessions (s : HttpServer) : Nat :=
  s.connections.countP fun c => c.accepted == 0 && c.closed == 1

/-- Calls that are made once add up to the sessions between them. -/
theorem sum_accepted_add (l : List Connection) (h : ∀ c ∈ l, c.accepted ≤ 1 ∧ c.closed ≤ 1) :
    (l.map (·.accepted)).sum + l.countP (fun c => c.accepted == 0 && c.closed == 1) =
      (l.map (·.closed)).sum + l.countP (fun c => c.accepted == 1 && c.closed == 0) := by
  induction l with
  | nil => rfl
  | cons c l ih =>
    have hrest := ih fun d hd => h d (List.mem_cons_of_mem c hd)
    obtain ⟨haccepted, hclosed⟩ := h c List.mem_cons_self
    simp only [List.map_cons, List.sum_cons, List.countP_cons]
    rcases Nat.le_one_iff_eq_zero_or_eq_one.mp haccepted with ha | ha <;>
      rcases Nat.le_one_iff_eq_zero_or_eq_one.mp hclosed with hb | hb <;>
      simp [ha, hb] <;> omega

theorem Inv.calls_le (h : s.Inv) (hc : c ∈ s.connections) : c.accepted ≤ 1 ∧ c.closed ≤ 1 := by
  obtain ⟨id, hid, rfl⟩ := List.mem_iff_getElem.mp hc
  have honce := h.countedOnce id _ (List.getElem?_eq_getElem hid)
  refine ⟨?_, honce.removedFirst.trans honce.once⟩
  rw [honce.accepted]
  split <;> omega

/-- The gauge counts the sessions, but for those that were closed early. -/
theorem Balanced.early (hbalanced : s.Balanced) (h : s.Inv) :
    (s.activeConnections + s.earlySessions) % sizeModulus = s.countedSessions := by
  have hsum := sum_accepted_add s.connections fun c hc => h.calls_le hc
  change _ + s.earlySessions = _ + s.countedSessions at hsum
  have hcounted : s.countedSessions < sizeModulus :=
    Nat.lt_of_le_of_lt List.countP_le_length hbalanced.few
  rw [← Nat.mod_eq_of_lt hcounted]
  apply Nat.ModEq.add_right_cancel' (s.connections.map (·.closed)).sum
  calc s.activeConnections + s.earlySessions + (s.connections.map (·.closed)).sum
      = s.activeConnections + (s.connections.map (·.closed)).sum + s.earlySessions := by
        rw [Nat.add_right_comm]
    _ ≡ (s.connections.map (·.accepted)).sum + s.earlySessions [MOD sizeModulus] :=
        hbalanced.balance.add_right _
    _ = s.countedSessions + (s.connections.map (·.closed)).sum := by rw [hsum, Nat.add_comm]

theorem Balanced.gaugeCounts_iff (hbalanced : s.Balanced) (h : s.Inv) :
    s.GaugeCounts ↔ ∀ c ∈ s.connections, c.closed ≤ c.accepted := by
  have hearly := hbalanced.early h
  have hfew : s.earlySessions < sizeModulus :=
    Nat.lt_of_le_of_lt List.countP_le_length hbalanced.few
  -- no session was closed early
  have hnone : s.earlySessions = 0 ↔ ∀ c ∈ s.connections, c.closed ≤ c.accepted := by
    rw [earlySessions, List.countP_eq_zero]
    refine forall₂_congr fun c hc => ?_
    obtain ⟨haccepted, hclosed⟩ := h.calls_le hc
    simp only [Bool.and_eq_true, beq_iff_eq]
    omega
  rw [← hnone]
  constructor
  · intro hcounts
    have hsame : s.activeConnections + s.earlySessions ≡ s.activeConnections + 0
        [MOD sizeModulus] := by
      show _ % _ = _ % _
      rw [hearly, ← hcounts, Nat.add_zero, Nat.mod_eq_of_lt hbalanced.bounded]
    have hzero := hsame.add_left_cancel'
    exact Nat.ModEq.eq_of_lt_of_lt hzero hfew (Nat.pos_of_ne_zero (Nat.ne_zero_of_lt hfew))
  · intro hzero
    rw [hzero, Nat.add_zero, Nat.mod_eq_of_lt hbalanced.bounded] at hearly
    exact hearly

/-- While the callback is not between its two calls, the sessions that were counted are those
that were admitted. -/
theorem Inv.countedSessions_eq (h : s.Inv) (hcounting : ¬s.IsCounting) :
    s.countedSessions = s.openSessions ∧ ∀ c ∈ s.connections, c.closed ≤ c.accepted := by
  have haccepted (c : Connection) (hc : c ∈ s.connections) :
      c.accepted = if c.added then 1 else 0 := by
    obtain ⟨id, hid, rfl⟩ := List.mem_iff_getElem.mp hc
    rw [(h.countedOnce id _ (List.getElem?_eq_getElem hid)).accepted]
    have hpoint : s.callbackAt id ≠ some .counting := by
      intro hpoint
      obtain ⟨p, hp, heq⟩ := Option.bind_eq_some_iff.mp hpoint
      split at heq
      · next hfirst => exact hcounting ⟨id, by rw [hp, ← hfirst, ← Option.some.inj heq]⟩
      · cases heq
    simp [hpoint]
  constructor
  · refine List.countP_congr fun c hc => ?_
    rw [haccepted c hc]
    cases c.added <;> simp
  · intro c hc
    obtain ⟨id, hid, rfl⟩ := List.mem_iff_getElem.mp hc
    have honce := h.countedOnce id _ (List.getElem?_eq_getElem hid)
    have hle := h.calls_le hc
    rw [haccepted _ hc]
    split
    · exact hle.2
    -- a session that was not admitted is never closed
    · next hadded =>
      have hold := h.accounts id _ (List.getElem?_eq_getElem hid)
      exact ((hold.of_not_added (Bool.eq_false_iff.mpr hadded)).2.2.1).le

theorem Balanced.exact (hbalanced : s.Balanced) (h : s.Inv) (hcounting : ¬s.IsCounting) :
    s.GaugeExact := by
  obtain ⟨hsame, hnone⟩ := h.countedSessions_eq hcounting
  exact ((hbalanced.gaugeCounts_iff h).mpr hnone).trans hsame

/-! ### What a step counts -/

theorem forall_mem_modify {α : Type} {l : List α} {i : Nat} {f : α → α} {p : α → Prop}
    (hmem : ∀ a ∈ l, p a) (hchanged : ∀ a, l[i]? = some a → p (f a)) : ∀ a ∈ l.modify i f, p a := by
  intro a ha
  obtain ⟨j, hj⟩ := List.mem_iff_getElem?.mp ha
  rw [List.getElem?_modify] at hj
  obtain ⟨b, hb, rfl⟩ := Option.map_eq_some_iff.mp hj
  split
  · next heq => exact hchanged b (heq ▸ hb)
  · exact hmem b (List.mem_of_getElem? hb)

/-- The calls a connection counts. -/
def SameCalls (f : Connection → Connection) : Prop :=
  ∀ c, (f c).accepted = c.accepted ∧ (f c).closed = c.closed ∧ (f c).added = c.added

inductive CountStep (s t : HttpServer) (e : ServerEvent) : Prop
  | same (id : SessionId) (f : Connection → Connection)
      (connections : t.connections = s.connections.modify id f)
      (gauge : t.activeConnections = s.activeConnections) (calls : SameCalls f)
  | connected (session : HttpSession)
      (connections : t.connections = s.connections ++ [{ session := session }])
      (few : s.connections.length + 1 < sizeModulus)
      (gauge : t.activeConnections = s.activeConnections)
  | admitted (id : SessionId) (c : Connection) (connection : s.connections[id]? = some c)
      (connections : t.connections = s.connections.modify id fun c => { c with added := true })
      (gauge : t.activeConnections = s.activeConnections)
  | accepted (id : SessionId) (c : Connection) (connection : s.connections[id]? = some c)
      (connections : t.connections =
        s.connections.modify id fun c => { c with accepted := c.accepted + 1 })
      (gauge : t.activeConnections = (s.activeConnections + 1) % sizeModulus)
  | closed (id : SessionId) (c : Connection) (connection : s.connections[id]? = some c)
      (event : e = .closing id) (due : c.due = some .count)
      (connections : t.connections =
        s.connections.modify id fun c => { c with due := none, closed := c.closed + 1 })
      (gauge : t.activeConnections = (s.activeConnections + sizeModulus - 1) % sizeModulus)

theorem CountStep.unchanged {e : ServerEvent} (hconnections : t.connections = s.connections)
    (hgauge : t.activeConnections = s.activeConnections) : s.CountStep t e :=
  .same 0 (fun c => c) (hconnections.trans (List.modify_id _ _).symm) hgauge
    fun _ => ⟨rfl, rfl, rfl⟩

theorem step_count (h : s.Inv) {e : ServerEvent} (hstep : s.step e = some t) :
    s.CountStep t e := by
  cases e with
  | connected =>
    simp only [step, connect, Option.ite_none_right_eq_some] at hstep
    obtain ⟨⟨-, hfew⟩, hstep⟩ := hstep
    split at hstep
    · obtain rfl := Option.some.inj hstep
      exact .unchanged rfl rfl
    · next session _ =>
      obtain rfl := Option.some.inj hstep
      exact .connected session rfl hfew rfl
  | callback =>
    obtain ⟨id, hcase⟩ := runCallback_cases h hstep
    cases hcase with
    | admitted hpoint hopen hroom heq =>
      subst heq
      exact .admitted id _ (List.getElem?_eq_getElem (h.callback _ hpoint)) rfl rfl
    | refused hpoint heq => exact .unchanged (by rw [heq]) (by rw [heq])
    | counted hpoint heq =>
      subst heq
      exact .accepted id _ (List.getElem?_eq_getElem (h.callback _ hpoint)) rfl rfl
    | started hpoint heq =>
      subst heq
      exact .same id _ rfl rfl fun _ => ⟨rfl, rfl, rfl⟩
    | rejected hpoint heq => exact .unchanged (by rw [heq]) (by rw [heq])
  | coroutine id now e =>
    obtain ⟨c, session, -, -, -, -, rfl⟩ := runCoroutine_cases hstep
    exact .same id _ rfl rfl fun _ => ⟨rfl, rfl, rfl⟩
  | request id =>
    obtain ⟨c, request, requests, session, -, -, -, -, rfl⟩ := runRequest_cases hstep
    exact .same id _ rfl rfl fun _ => ⟨rfl, rfl, rfl⟩
  -- the callback of the close removes the session first, and counts it after that
  | closing id =>
    obtain ⟨c, hc, hcase⟩ := runClosing_cases h hstep
    cases hcase with
    | removed reason hdue hregistered heq =>
      subst heq
      exact .same id _ rfl rfl fun _ => ⟨rfl, rfl, rfl⟩
    | counted hdue heq =>
      subst heq
      exact .closed id c hc rfl hdue rfl rfl
  | released id =>
    obtain ⟨c, -, -, -, -, rfl⟩ := release_cases hstep
    exact .same id _ rfl rfl fun _ => ⟨rfl, rfl, rfl⟩
  | beginDrain grace onComplete =>
    obtain rfl := Option.some.inj hstep
    split <;> exact .unchanged rfl rfl
  | stop =>
    obtain rfl := Option.some.inj hstep
    exact .unchanged rfl rfl
  | thread i =>
    -- a thread of the server posts to one connection at most
    obtain ⟨thread, hthread, rfl⟩ := Option.map_eq_some_iff.mp hstep
    obtain ⟨hsame, hposted, -⟩ := runThread_cases h thread
    cases hposted with
    | none hconnections => exact .unchanged hconnections hsame.activeConnections
    | one id request hid hconnections =>
      exact .same id _ hconnections hsame.activeConnections fun _ => ⟨rfl, rfl, rfl⟩
  | graceExpired =>
    simp only [step, Option.ite_none_right_eq_some, Option.some.injEq] at hstep
    obtain ⟨-, rfl⟩ := hstep
    exact .unchanged rfl rfl

theorem Balanced.step {e : ServerEvent} (hbalanced : s.Balanced) (hcount : s.CountStep t e) :
    t.Balanced := by
  obtain ⟨hbounded, hfew, hbalance⟩ := hbalanced
  -- the gauge is a `size_t`: the balance is kept modulo its size
  have hmodulus : 0 < sizeModulus := Nat.pos_of_ne_zero (Nat.ne_zero_of_lt hbounded)
  cases hcount with
  | same id f hconnections hgauge hcalls =>
    -- a change that keeps a count keeps the sum of it
    have hsum (g : Connection → Nat) (hg : ∀ c, g (f c) = g c) :
        (t.connections.map g).sum = (s.connections.map g).sum := by
      rw [hconnections]
      cases hc : s.connections[id]? with
      | none => rw [List.modify_eq_self (List.getElem?_eq_none_iff.mp hc)]
      | some c =>
        have hmodify := sum_map_modify f g hc
        rw [hg] at hmodify
        exact Nat.add_right_cancel hmodify
    refine ⟨by rw [hgauge]; exact hbounded, ?_, ?_⟩
    · rw [hconnections, List.length_modify]
      exact hfew
    · rw [hgauge, hsum _ fun c => (hcalls c).2.1, hsum _ fun c => (hcalls c).1]
      exact hbalance
  | connected session hconnections hroom hgauge =>
    refine ⟨by rw [hgauge]; exact hbounded, ?_, ?_⟩
    · rw [hconnections, List.length_append]
      exact hroom
    · rw [hgauge, hconnections]
      simpa using hbalance
  | admitted id c hc hconnections hgauge =>
    have hclosed := sum_map_modify (fun c => { c with added := true }) (·.closed) hc
    have haccepted := sum_map_modify (fun c => { c with added := true }) (·.accepted) hc
    refine ⟨by rw [hgauge]; exact hbounded, ?_, ?_⟩
    · rw [hconnections, List.length_modify]
      exact hfew
    · rw [hgauge, hconnections, Nat.add_right_cancel hclosed, Nat.add_right_cancel haccepted]
      exact hbalance
  | accepted id c hc hconnections hgauge =>
    have hclosed := sum_map_modify (fun c => { c with accepted := c.accepted + 1 }) (·.closed) hc
    have haccepted :=
      sum_map_modify (fun c => { c with accepted := c.accepted + 1 }) (·.accepted) hc
    refine ⟨by rw [hgauge]; exact Nat.mod_lt _ hmodulus, ?_, ?_⟩
    · rw [hconnections, List.length_modify]
      exact hfew
    · rw [hgauge, hconnections, Nat.add_right_cancel hclosed]
      have hone : ((s.connections.modify id fun c => { c with accepted := c.accepted + 1 }).map
          (·.accepted)).sum = (s.connections.map (·.accepted)).sum + 1 := by
        have := haccepted
        dsimp only at this
        omega
      rw [hone]
      -- `fetch_add` and the accepted connection move together
      calc (s.activeConnections + 1) % sizeModulus + (s.connections.map (·.closed)).sum
          ≡ s.activeConnections + 1 + (s.connections.map (·.closed)).sum [MOD sizeModulus] :=
            (Nat.mod_modEq _ _).add_right _
        _ = s.activeConnections + (s.connections.map (·.closed)).sum + 1 := by
            rw [Nat.add_right_comm]
        _ ≡ (s.connections.map (·.accepted)).sum + 1 [MOD sizeModulus] := hbalance.add_right 1
  | closed id c hc hevent hdue hconnections hgauge =>
    have hclosed := sum_map_modify (fun c => { c with due := none, closed := c.closed + 1 })
      (·.closed) hc
    have haccepted := sum_map_modify (fun c => { c with due := none, closed := c.closed + 1 })
      (·.accepted) hc
    refine ⟨by rw [hgauge]; exact Nat.mod_lt _ hmodulus, ?_, ?_⟩
    · rw [hconnections, List.length_modify]
      exact hfew
    · rw [hgauge, hconnections, Nat.add_right_cancel haccepted]
      have hone : ((s.connections.modify id fun c =>
          { c with due := none, closed := c.closed + 1 }).map (·.closed)).sum =
            (s.connections.map (·.closed)).sum + 1 := by
        have := hclosed
        dsimp only at this
        omega
      rw [hone]
      -- `fetch_sub` adds the modulus less one, which is to take one away
      calc (s.activeConnections + sizeModulus - 1) % sizeModulus +
            ((s.connections.map (·.closed)).sum + 1)
          ≡ s.activeConnections + sizeModulus - 1 + ((s.connections.map (·.closed)).sum + 1)
            [MOD sizeModulus] := (Nat.mod_modEq _ _).add_right _
        _ = s.activeConnections + (s.connections.map (·.closed)).sum + sizeModulus := by omega
        _ ≡ s.activeConnections + (s.connections.map (·.closed)).sum [MOD sizeModulus] := by
            simp [Nat.ModEq]
        _ ≡ (s.connections.map (·.accepted)).sum [MOD sizeModulus] := hbalance

/-! ### When the gauge is right -/

/-- A step closes early only where it closes a session that was not counted. -/
theorem closedAfterCounted_step {e : ServerEvent} (h : s.Inv) (hcount : s.CountStep t e)
    (hbefore : ∀ c ∈ s.connections, c.closed ≤ c.accepted) (hfirst : s.CountedFirst e) :
    ∀ c ∈ t.connections, c.closed ≤ c.accepted := by
  cases hcount with
  | same id f hconnections hgauge hcalls =>
    rw [hconnections]
    refine forall_mem_modify hbefore fun c hc => ?_
    rw [(hcalls c).1, (hcalls c).2.1]
    exact hbefore c (List.mem_of_getElem? hc)
  | connected session hconnections hroom hgauge =>
    rw [hconnections]
    intro c hc
    rcases List.mem_append.mp hc with hc | hc
    · exact hbefore c hc
    · obtain rfl := List.mem_singleton.mp hc
      exact le_rfl
  | admitted id c hc hconnections hgauge =>
    rw [hconnections]
    exact forall_mem_modify hbefore fun c hc => hbefore c (List.mem_of_getElem? hc)
  | accepted id c hc hconnections hgauge =>
    rw [hconnections]
    exact forall_mem_modify hbefore fun c hc =>
      Nat.le_succ_of_le (hbefore c (List.mem_of_getElem? hc))
  -- the callback is due once, and the connection was counted before
  | closed id c hc hevent hdue hconnections hgauge =>
    rw [hconnections]
    refine forall_mem_modify hbefore fun d hd => ?_
    obtain rfl := Option.some.inj (hc.symm.trans hd)
    subst hevent
    have hcalls := (h.accounts id c hc).calls
    rw [Connection.CloseCalls, hdue] at hcalls
    show c.closed + 1 ≤ c.accepted
    rw [hcalls.2.2, hfirst c hc hdue]

theorem not_closedAfterCounted_step {e : ServerEvent} (h : s.Inv) (hcount : s.CountStep t e)
    (hearly : ¬s.CountedFirst e) (hstep : s.step e = some t) :
    ¬∀ c ∈ t.connections, c.closed ≤ c.accepted := by
  cases e with
  | closing id =>
    simp only [CountedFirst, not_forall] at hearly
    obtain ⟨c, hc, hdue, haccepted⟩ := hearly
    obtain ⟨d, hd, hcase⟩ := runClosing_cases h hstep
    obtain rfl := Option.some.inj (hc.symm.trans hd)
    cases hcase with
    | removed reason hdue' =>
      rw [hdue] at hdue'
      cases hdue'
    | counted _ heq =>
      intro hall
      have hzero : c.accepted = 0 := by
        have := (h.calls_le (List.mem_of_getElem? hc)).1
        omega
      have hchanged : { c with due := none, closed := c.closed + 1 } ∈ t.connections := by
        rw [heq]
        refine List.mem_of_getElem? (i := id) ?_
        show (s.connections.modify id _)[id]? = _
        rw [List.getElem?_modify, show s.connections[id]? = some c from hc]
        simp
      have := hall _ hchanged
      simp [hzero] at this
  | _ => exact absurd trivial hearly

/-- Nobody is admitted before the first step that admits a session. -/
theorem not_added_step {e : ServerEvent} (hcount : s.CountStep t e)
    (hbefore : ∀ c ∈ s.connections, c.added = false) (hadmits : ¬s.AdmitsNone t) :
    ∃ id c, s.connections[id]? = some c ∧ t.activeConnections = s.activeConnections ∧
      t.connections = s.connections.modify id fun c => { c with added := true } := by
  -- a step after which none is added admits none
  have hnone (hall : ∀ c ∈ t.connections, c.added = false) : False := by
    simp only [AdmitsNone, not_forall] at hadmits
    obtain ⟨id, ⟨c, hc, hadded⟩, -⟩ := hadmits
    rw [hall c (List.mem_of_getElem? hc)] at hadded
    cases hadded
  cases hcount with
  | same id f hconnections hgauge hcalls =>
    refine (hnone ?_).elim
    rw [hconnections]
    refine forall_mem_modify hbefore fun c hc => ?_
    rw [(hcalls c).2.2]
    exact hbefore c (List.mem_of_getElem? hc)
  | connected session hconnections hroom hgauge =>
    refine (hnone ?_).elim
    rw [hconnections]
    intro c hc
    rcases List.mem_append.mp hc with hc | hc
    · exact hbefore c hc
    · rw [List.mem_singleton.mp hc]
  | admitted id c hc hconnections hgauge => exact ⟨id, c, hc, hgauge, hconnections⟩
  | accepted id c hc hconnections hgauge =>
    refine (hnone ?_).elim
    rw [hconnections]
    exact forall_mem_modify hbefore fun c hc => hbefore c (List.mem_of_getElem? hc)
  | closed id c hc hevent hdue hconnections hgauge =>
    refine (hnone ?_).elim
    rw [hconnections]
    exact forall_mem_modify hbefore fun c hc => hbefore c (List.mem_of_getElem? hc)

/-- What holds in every state. -/
structure AccountsInv (s : HttpServer) : Prop where
  inv : s.Inv
  balanced : s.Balanced

theorem step_accountsInv {e : ServerEvent} (h : s.AccountsInv) (hstep : s.step e = some t) :
    t.AccountsInv :=
  ⟨step_inv h.inv hstep, h.balanced.step (step_count h.inv hstep)⟩

theorem create_accountsInv {limits : SessionLimits} (h : create limits = .ok s) :
    s.AccountsInv ∧ s.connections = [] ∧ s.activeConnections = 0 := by
  have hinv := create_inv h
  unfold create SessionRegistry.create at h
  split at h
  · cases h
  · obtain rfl := Except.ok.inj h
    have hpos : 0 < sizeModulus := Nat.two_pow_pos 64
    exact ⟨⟨hinv, hpos, hpos, rfl⟩, rfl, rfl⟩

theorem gaugeCounts_iff_eachStep (h : s.AccountsInv) (hcounts : s.GaugeCounts)
    (es : List ServerEvent) :
    Machine.Always step GaugeCounts s es ↔
      Machine.EachStep step (fun s e _ => s.CountedFirst e) s es := by
  refine Machine.always_iff_eachStep AccountsInv ?_ ?_ es h hcounts
  · intro s e t h hcounts hfirst hstep
    have hnext := step_accountsInv h hstep
    refine ⟨hnext, (hnext.balanced.gaugeCounts_iff hnext.inv).mpr ?_⟩
    have hbefore := (h.balanced.gaugeCounts_iff h.inv).mp hcounts
    exact closedAfterCounted_step h.inv (step_count h.inv hstep) hbefore hfirst
  · intro s e t h _ hearly hstep hcounts
    have hnext := step_accountsInv h hstep
    have hafter := (hnext.balanced.gaugeCounts_iff hnext.inv).mp hcounts
    exact not_closedAfterCounted_step h.inv (step_count h.inv hstep) hearly hstep hafter

theorem gaugeExact_iff_eachStep (h : s.AccountsInv) (hnone : ∀ c ∈ s.connections, c.added = false)
    (es : List ServerEvent) :
    Machine.Always step GaugeExact s es ↔
      Machine.EachStep step (fun s _ t => s.AdmitsNone t) s es := by
  -- where nobody was admitted, the callback counts nobody
  have hexact {s : HttpServer} (h : s.AccountsInv)
      (hnone : ∀ c ∈ s.connections, c.added = false) : s.GaugeExact := by
    refine h.balanced.exact h.inv ?_
    rintro ⟨id, hpoint⟩
    have hlt := h.inv.callback _ hpoint
    have hfits := (h.inv.accounts id _ (List.getElem?_eq_getElem hlt)).fits
    rw [callbackAt_of_eq hpoint] at hfits
    have hadded := hfits.1
    rw [hnone _ (List.getElem_mem hlt)] at hadded
    cases hadded
  refine Machine.always_iff_eachStep
    (fun s => s.AccountsInv ∧ ∀ c ∈ s.connections, c.added = false) ?_ ?_ es ⟨h, hnone⟩
    (hexact h hnone)
  · rintro s e t ⟨h, hnone⟩ - hadmits hstep
    have hnext := step_accountsInv h hstep
    have hafter : ∀ c ∈ t.connections, c.added = false := by
      intro c hc
      by_contra hadded
      obtain ⟨id, hid⟩ := List.mem_iff_getElem?.mp hc
      obtain ⟨d, hd, hbefore⟩ := hadmits id ⟨c, hid, by simpa using hadded⟩
      rw [hnone d (List.mem_of_getElem? hd)] at hbefore
      cases hbefore
    exact ⟨⟨hnext, hafter⟩, hexact hnext hafter⟩
  · rintro s e t ⟨h, hnone⟩ hbefore hadmits hstep hafter
    obtain ⟨id, c, hc, hgauge, hconnections⟩ :=
      not_added_step (step_count h.inv hstep) hnone hadmits
    -- the gauge stays at zero, and a session is open
    have hzero : s.openSessions = 0 := by
      refine List.countP_eq_zero.mpr fun d hd => ?_
      simp [hnone d hd]
    have hold := h.inv.accounts id c hc
    have hclosed := (hold.of_not_added (hnone c (List.mem_of_getElem? hc))).2.2.1
    have hopen : 0 < t.openSessions := by
      refine List.countP_pos_iff.mpr ⟨{ c with added := true }, ?_, by simp [hclosed]⟩
      rw [hconnections]
      refine List.mem_of_getElem? (i := id) ?_
      rw [List.getElem?_modify, hc]
      simp
    rw [← show t.activeConnections = t.openSessions from hafter, hgauge,
      show s.activeConnections = s.openSessions from hbefore, hzero] at hopen
    exact Nat.lt_irrefl 0 hopen

/-- **Connection accounting.** Where handlers return on the executor of their session, in every
run each session is counted once as accepted, taken from the registry once and counted once as
closed, and the gauge is the number of the open sessions whenever the accept callback has counted
what it admitted.  It is the number of the counted sessions that are open all along exactly if no
session is closed before it is counted; it is never behind the sessions that are admitted exactly
if none is. -/
theorem connections_counted_iff {limits : SessionLimits} (hcreate : create limits = .ok s)
    (es : List ServerEvent) :
    Machine.Always step (fun s => s.AllCountedOnce ∧ (¬s.IsCounting → s.GaugeExact)) s es ∧
    (Machine.Always step GaugeCounts s es ↔
      Machine.EachStep step (fun s e _ => s.CountedFirst e) s es) ∧
    (Machine.Always step GaugeExact s es ↔
      Machine.EachStep step (fun s _ t => s.AdmitsNone t) s es) := by
  obtain ⟨h, hempty, hzero⟩ := create_accountsInv hcreate
  refine ⟨?_, ?_, ?_⟩
  · refine Machine.always_of_invariant AccountsInv ?_ ?_ es h
    · exact fun s h => ⟨h.inv.countedOnce, h.balanced.exact h.inv⟩
    · exact fun s e t h hstep => step_accountsInv h hstep
  · apply gaugeCounts_iff_eachStep h
    rw [GaugeCounts, countedSessions, hempty, hzero]
    rfl
  · apply gaugeExact_iff_eachStep h
    rw [hempty]
    exact fun c hc => absurd hc List.not_mem_nil

/-- `stop` closes a session that the accept callback has admitted and not counted yet. -/
def stoppedEarly : List ServerEvent :=
  [.connected, .callback, .stop, .thread 0, .thread 0, .thread 0, .thread 0, .thread 0, .thread 0,
    .request 0, .request 0, .closing 0, .closing 0]

/-- A run in which the gauge goes below zero. -/
theorem connections_counted_iff_stoppedEarly :
    ∃ s, create smallReads = .ok s ∧
      Machine.Always step (fun s => s.AllCountedOnce ∧ (¬s.IsCounting → s.GaugeExact)) s
        stoppedEarly ∧
      (Machine.Always step GaugeCounts s stoppedEarly ↔
        Machine.EachStep step (fun s e _ => s.CountedFirst e) s stoppedEarly) ∧
      (Machine.Always step GaugeExact s stoppedEarly ↔
        Machine.EachStep step (fun s _ t => s.AdmitsNone t) s stoppedEarly) := by
  obtain ⟨s, hcreate⟩ : ∃ s, create smallReads = .ok s := ⟨_, rfl⟩
  exact ⟨s, hcreate, connections_counted_iff hcreate stoppedEarly⟩

/-- The gauge shows its largest value, while no session is open. -/
theorem gauge_wraps :
    ∃ s, create smallReads = .ok s ∧ ¬Machine.Always step GaugeExact s stoppedEarly ∧
      ¬Machine.Always step GaugeCounts s stoppedEarly := by
  obtain ⟨s, hcreate, hend⟩ : ∃ s, create smallReads = .ok s ∧
      (Machine.run step s stoppedEarly).map (fun t =>
        (t.activeConnections, t.openSessions, t.countedSessions)) = some (2 ^ 64 - 1, 0, 0) :=
    ⟨_, rfl, by decide +kernel⟩
  obtain ⟨t, hrun, hcounts⟩ := Option.map_eq_some_iff.mp hend
  obtain ⟨hactive, hrest⟩ := Prod.mk.inj hcounts
  obtain ⟨hopen, hcounted⟩ := Prod.mk.inj hrest
  refine ⟨s, hcreate, fun halways => ?_, fun halways => ?_⟩
  · have hexact : t.activeConnections = t.openSessions := halways.last t hrun
    rw [hactive, hopen] at hexact
    cases hexact
  · have hexact : t.activeConnections = t.countedSessions := halways.last t hrun
    rw [hactive, hcounted] at hexact
    cases hexact

end HttpServer
end PulseGate
