import DoorAccess.Lib.Transition
import Mathlib.Data.List.Basic

/-!
# The accept loop of the HTTP server and its shutdown

`serve` accepts a connection under the lock of the listener, and only after it has let the lock go
does it count the connection as active and spawn the thread that serves it. `shutdown` stores the
closing flag, takes the listener under the same lock and waits for the number of active connections
to be zero. `run` shuts the server down, joins the thread of `serve` and then joins the pushes that
the tracker has, on which a handler registers what it spawns.

`shutdown_ok_quiet_iff` says when an `Ok` of `shutdown` means what `run` takes it to mean: it does
exactly if the accept loop has no connection in hand at that moment and can get no other.
`lateHandler_runs` is a run in which it has one.
-/

set_option autoImplicit false
set_option relaxedAutoImplicit false

namespace DoorAccess.Httpx.Server

open Transition

/-! ### The threads -/

/-- What `serve` returns. `failed` is any error but `ServerClosedError`. -/
inductive ServeResult
  | ok
  | serverClosed
  | failed
  deriving DecidableEq

/-- Where the thread of `serve` is. -/
inductive ServePhase
  /-- Before the listener is stored. The socket is bound on the way. -/
  | starting
  /-- At the head of its loop. -/
  | polling
  /-- With a connection that is not counted yet. -/
  | accepted
  /-- With a connection that is counted and has no thread yet. -/
  | counted
  /-- `accept` has failed, with an error other than `WouldBlock` and `TimedOut` if `fatal`. -/
  | erred (fatal : Bool)
  | returned (result : ServeResult)
  /-- `thread::spawn` has panicked. -/
  | panicked
  deriving DecidableEq

/-- The connection that `serve` has counted itself. -/
def ServePhase.counts : ServePhase → ℕ
  | .counted | .panicked => 1
  | _ => 0

/-- Where the thread of a connection is in `serve_conn`. -/
inductive ConnPhase
  /-- Reading the request. -/
  | reading
  /-- In `serve_http`. -/
  | handling
  /-- In `serve_http`, between the spawn of a push and its registration. -/
  | pushing (p : ℕ)
  /-- Behind the handler, or behind a request that has none. -/
  | closing
  /-- The `ActiveGuard` is dropped. -/
  | ended
  deriving DecidableEq

def ConnPhase.alive : ConnPhase → Bool
  | .ended => false
  | _ => true

/-- A request handler is running. -/
def ConnPhase.handles : ConnPhase → Bool
  | .handling | .pushing _ => true
  | _ => false

inductive ShutdownError
  | timeout
  deriving DecidableEq

/-- Where `run` is. -/
inductive MainPhase
  /-- In its loop, before `shutdown`. -/
  | serving
  /-- In `shutdown`, with the closing flag stored. -/
  | closing
  /-- In `shutdown`, with the listener taken. -/
  | taken
  /-- In the loop of `shutdown`, before the number of active connections is read. -/
  | waiting (deadline : Option ℕ)
  /-- In the loop of `shutdown`, with a number other than zero read. -/
  | busy (deadline : Option ℕ)
  | sleeping (deadline : Option ℕ)
  /-- `shutdown` has returned. -/
  | joiningHttp (result : Except ShutdownError Unit)
  /-- Before `PushTracker::join_all`. -/
  | draining
  /-- In `join_all`, with the handles that are left to join. -/
  | joiningPushes (handles : List ℕ)
  | returned

/-- `shutdown` has stored the closing flag. -/
def MainPhase.begun : MainPhase → Bool
  | .serving => false
  | _ => true

/-- `join_all` has taken the handles. -/
def MainPhase.drained : MainPhase → Bool
  | .joiningPushes _ | .returned => true
  | _ => false

/-- The handles that `join_all` has taken and not joined. -/
def MainPhase.taking : MainPhase → List ℕ
  | .joiningPushes handles => handles
  | _ => []

structure State where
  serve : ServePhase
  main : MainPhase
  /-- The mutex of the server has a listener in it. -/
  listener : Bool
  closing : Bool
  active : ℕ
  conns : List ConnPhase
  /-- The push threads that handlers have spawned, and whether each has finished. -/
  pushes : List Bool
  /-- The handles in the tracker. -/
  handles : List ℕ
  clock : ℕ
  /-- History: the pushes registered, and those registered when `join_all` took the handles. -/
  registered : List ℕ
  registeredAtDrain : Option (List ℕ)

def State.init : State where
  serve := .starting
  main := .serving
  listener := false
  closing := false
  active := 0
  conns := []
  pushes := []
  handles := []
  clock := 0
  registered := []
  registeredAtDrain := none

inductive ServeMove
  /-- The listener is bound and stored. -/
  | install
  /-- It cannot be bound or made nonblocking. -/
  | failInstall
  /-- A connection comes out of `accept`. -/
  | accept
  | acceptFails (fatal : Bool)
  /-- There is no listener to accept from. -/
  | unlisted
  | count
  | spawn
  | spawnPanics
  /-- What the loop does about a failed `accept`. -/
  | recover
  deriving DecidableEq

inductive ConnMove
  /-- The request is read and its handler starts. -/
  | request
  /-- There is no request to handle. -/
  | refuse
  /-- The handler spawns a push. -/
  | spawnPush
  /-- The handle of the push goes to the tracker. -/
  | register
  /-- The handler returns or panics. -/
  | finish
  /-- The `ActiveGuard` is dropped. -/
  | drop
  deriving DecidableEq

inductive MainMove
  /-- `shutdown` stores the closing flag. -/
  | close
  /-- It takes the listener. -/
  | take
  /-- It computes its deadline. -/
  | arm
  /-- It reads the number of active connections. -/
  | load
  /-- It compares the clock with its deadline. -/
  | check
  | wake
  /-- `run` joins the thread of `serve`. -/
  | joinHttp
  /-- `join_all` takes the handles. -/
  | drain
  /-- `join_all` joins the first handle. -/
  | joinPush
  /-- `join_all` has no handle left. -/
  | return
  deriving DecidableEq

inductive Label
  | serve (m : ServeMove)
  | conn (i : ℕ) (m : ConnMove)
  | main (m : MainMove)
  /-- A push thread finishes. -/
  | pushEnds (p : ℕ)
  | tick
  deriving DecidableEq

def serveStep (s : State) : ServeMove → Option State
  | .install =>
    if s.serve = .starting then some { s with serve := .polling, listener := true } else none
  | .failInstall =>
    if s.serve = .starting then some { s with serve := .returned .failed } else none
  | .accept =>
    if s.serve = .polling ∧ s.listener = true then some { s with serve := .accepted } else none
  | .acceptFails fatal =>
    if s.serve = .polling ∧ s.listener = true then some { s with serve := .erred fatal } else none
  | .unlisted =>
    if s.serve = .polling ∧ s.listener = false then
      some { s with serve := .returned (if s.closing then .serverClosed else .ok) }
    else none
  | .count =>
    if s.serve = .accepted then some { s with serve := .counted, active := s.active + 1 } else none
  | .spawn =>
    if s.serve = .counted then
      some { s with serve := .polling, conns := s.conns ++ [.reading] }
    else none
  | .spawnPanics =>
    if s.serve = .counted then some { s with serve := .panicked } else none
  | .recover =>
    match s.serve with
    | .erred fatal =>
      if s.closing then some { s with serve := .returned .serverClosed }
      else if fatal then some { s with serve := .returned .failed }
      else some { s with serve := .polling }
    | _ => none

/-- A push thread that `retain` takes for finished. -/
def State.finished (s : State) (p : ℕ) : Bool :=
  s.pushes[p]? == some true

/-- `PushTracker::register`. -/
def State.register (s : State) (p : ℕ) : State :=
  { s with
    handles := s.handles.filter (fun h ↦ !s.finished h) ++ [p]
    registered := s.registered ++ [p] }

/-- The thread of the connection `i` goes to another phase. -/
def State.setConn (s : State) (i : ℕ) (c : ConnPhase) : State :=
  { s with conns := s.conns.set i c }

def connStep (s : State) (i : ℕ) : ConnMove → Option State
  | .request =>
    if s.conns[i]? = some .reading then some (s.setConn i .handling) else none
  | .refuse =>
    if s.conns[i]? = some .reading then some (s.setConn i .closing) else none
  | .spawnPush =>
    if s.conns[i]? = some .handling then
      some { s.setConn i (.pushing s.pushes.length) with pushes := s.pushes ++ [false] }
    else none
  | .register =>
    match s.conns[i]? with
    | some (.pushing p) => some ((s.setConn i .handling).register p)
    | _ => none
  | .finish =>
    if s.conns[i]? = some .handling then some (s.setConn i .closing) else none
  | .drop =>
    if s.conns[i]? = some .closing then
      some { s.setConn i .ended with active := s.active - 1 }
    else none

/-- A step of `run`, with the timeout that it gives `shutdown`. -/
def mainStep (timeout : Option ℕ) (s : State) : MainMove → Option State
  | .close =>
    match s.main with
    | .serving => some { s with main := .closing, closing := true }
    | _ => none
  | .take =>
    match s.main with
    | .closing => some { s with main := .taken, listener := false }
    | _ => none
  | .arm =>
    match s.main with
    | .taken => some { s with main := .waiting (timeout.map (s.clock + ·)) }
    | _ => none
  | .load =>
    match s.main with
    | .waiting deadline =>
      if s.active = 0 then some { s with main := .joiningHttp (.ok ()) }
      else some { s with main := .busy deadline }
    | _ => none
  | .check =>
    match s.main with
    | .busy deadline =>
      if deadline.any (· ≤ s.clock) then some { s with main := .joiningHttp (.error .timeout) }
      else some { s with main := .sleeping deadline }
    | _ => none
  | .wake =>
    match s.main with
    | .sleeping deadline => some { s with main := .waiting deadline }
    | _ => none
  | .joinHttp =>
    match s.main, s.serve with
    | .joiningHttp _, .returned _ | .joiningHttp _, .panicked => some { s with main := .draining }
    | _, _ => none
  | .drain =>
    match s.main with
    | .draining =>
      some { s with
        main := .joiningPushes s.handles
        handles := []
        registeredAtDrain := some s.registered }
    | _ => none
  | .joinPush =>
    match s.main with
    | .joiningPushes (h :: rest) =>
      if s.finished h then some { s with main := .joiningPushes rest } else none
    | _ => none
  | .return =>
    match s.main with
    | .joiningPushes [] => some { s with main := .returned }
    | _ => none

def step (timeout : Option ℕ) (s : State) : Label → Option State
  | .serve m => serveStep s m
  | .conn i m => connStep s i m
  | .main m => mainStep timeout s m
  | .pushEnds p =>
    if p < s.pushes.length then some { s with pushes := s.pushes.set p true } else none
  | .tick => some { s with clock := s.clock + 1 }

/-! ### What `run` relies on -/

/-- No handler runs, and no push has been spawned that was not registered when `join_all` took the
handles. -/
structure Quiet (s : State) : Prop where
  handlers : ∀ c ∈ s.conns, c.handles = false
  pushes : ∀ taken, s.registeredAtDrain = some taken → ∀ p < s.pushes.length, p ∈ taken

/-- The accept loop has no connection in hand and can get no other once the closing flag is
stored. -/
def Settled (s : State) : Prop :=
  (∃ result, s.serve = .returned result) ∨ (∃ fatal, s.serve = .erred fatal) ∨
    (s.serve = .polling ∧ s.listener = false)

variable {timeout : Option ℕ} {s t : State} {i : ℕ}

/-! ### The count of active connections -/

/-- What every reachable state is like: the count is that of the connections alive and of the one
in the hands of `serve`, and a push that is not registered is in the hands of its handler. -/
structure Inv (s : State) : Prop where
  active : s.active = s.conns.countP ConnPhase.alive + s.serve.counts
  closing : s.main.begun = true → s.closing = true
  pushing : ∀ p < s.pushes.length, p ∈ s.registered ∨ .pushing p ∈ s.conns
  undrained : s.main.drained = false → s.registeredAtDrain = none
  tracked : ∀ p ∈ s.registered, s.finished p = true ∨ p ∈ s.handles ∨ p ∈ s.main.taking

theorem inv_init : Inv .init where
  active := rfl
  closing := fun h ↦ nomatch h
  pushing := fun _ h ↦ absurd h (Nat.not_lt_zero _)
  undrained := fun _ ↦ rfl
  tracked := fun _ h ↦ nomatch h

/-- The move of one thread in the count of those alive. -/
theorem countP_alive_set {conns : List ConnPhase} {c : ConnPhase} (d : ConnPhase)
    (hget : conns[i]? = some c) (halive : c.alive = true) :
    (conns.set i d).countP ConnPhase.alive + 1 =
      conns.countP ConnPhase.alive + d.alive.toNat := by
  obtain ⟨hi, hc⟩ := List.getElem?_eq_some_iff.mp hget
  have hpos : 0 < conns.countP ConnPhase.alive :=
    List.countP_pos_iff.mpr ⟨c, List.mem_of_getElem? hget, halive⟩
  rw [List.countP_set hi, hc, if_pos halive]
  cases d.alive with
  | false => exact Nat.sub_add_cancel hpos
  | true => exact congrArg (· + 1) (Nat.sub_add_cancel hpos)

/-- A thread that moves leaves what the others are at. -/
theorem mem_set_of_ne {conns : List ConnPhase} {c d : ConnPhase} (hmem : c ∈ conns)
    (hne : conns[i]? ≠ some c) : c ∈ conns.set i d := by
  obtain ⟨j, hj⟩ := List.mem_iff_getElem?.mp hmem
  have hij : i ≠ j := by
    rintro rfl
    exact hne hj
  exact List.mem_iff_getElem?.mpr ⟨j, (List.getElem?_set_ne hij).trans hj⟩

/-! ### One inversion for each thread -/

/-- What a step of `serve` does. From a settled loop it only returns. -/
inductive Served (s : State) : State → Prop
  | moves {serve : ServePhase} {listener : Bool} {active : ℕ}
      (hactive : active + s.serve.counts = s.active + serve.counts)
      (hsettled : s.closing = true → Settled s → ∃ result, serve = .returned result) :
      Served s { s with serve := serve, listener := listener, active := active }
  | spawns (hserve : s.serve = .counted) :
      Served s { s with serve := .polling, conns := s.conns ++ [.reading] }

theorem not_settled_of_starting (hserve : s.serve = .starting) : ¬ Settled s := by
  simp [Settled, hserve]

theorem not_settled_of_listening (hserve : s.serve = .polling) (hlistener : s.listener = true) :
    ¬ Settled s := by
  simp [Settled, hserve, hlistener]

theorem not_settled_of_accepted (hserve : s.serve = .accepted) : ¬ Settled s := by
  simp [Settled, hserve]

theorem not_settled_of_counted (hserve : s.serve = .counted) : ¬ Settled s := by
  simp [Settled, hserve]

theorem serveStep_served {m : ServeMove} (h : serveStep s m = some t) : Served s t := by
  cases m with
  | install =>
    simp only [serveStep] at h
    split_ifs at h with hserve
    obtain rfl := Option.some.inj h
    refine .moves ?_ fun _ hsettled ↦ absurd hsettled (not_settled_of_starting hserve)
    rw [hserve]
    rfl
  | failInstall =>
    simp only [serveStep] at h
    split_ifs at h with hserve
    obtain rfl := Option.some.inj h
    refine .moves ?_ fun _ _ ↦ ⟨.failed, rfl⟩
    rw [hserve]
    rfl
  | accept =>
    simp only [serveStep] at h
    split_ifs at h with hguard
    obtain rfl := Option.some.inj h
    refine .moves ?_ fun _ hsettled ↦
      absurd hsettled (not_settled_of_listening hguard.1 hguard.2)
    rw [hguard.1]
    rfl
  | acceptFails fatal =>
    simp only [serveStep] at h
    split_ifs at h with hguard
    obtain rfl := Option.some.inj h
    refine .moves ?_ fun _ hsettled ↦
      absurd hsettled (not_settled_of_listening hguard.1 hguard.2)
    rw [hguard.1]
    rfl
  | unlisted =>
    simp only [serveStep] at h
    split_ifs at h with hguard hclosing
    · obtain rfl := Option.some.inj h
      refine .moves ?_ fun _ _ ↦ ⟨.serverClosed, rfl⟩
      rw [hguard.1]
      rfl
    · obtain rfl := Option.some.inj h
      refine .moves ?_ fun _ _ ↦ ⟨.ok, rfl⟩
      rw [hguard.1]
      rfl
  | count =>
    simp only [serveStep] at h
    split_ifs at h with hserve
    obtain rfl := Option.some.inj h
    refine .moves ?_ fun _ hsettled ↦ absurd hsettled (not_settled_of_accepted hserve)
    rw [hserve]
    rfl
  | spawn =>
    simp only [serveStep] at h
    split_ifs at h with hserve
    obtain rfl := Option.some.inj h
    exact .spawns hserve
  | spawnPanics =>
    simp only [serveStep] at h
    split_ifs at h with hserve
    obtain rfl := Option.some.inj h
    refine .moves ?_ fun _ hsettled ↦ absurd hsettled (not_settled_of_counted hserve)
    rw [hserve]
    rfl
  | recover =>
    simp only [serveStep] at h
    split at h
    · rename_i fatal hserve
      split_ifs at h with hclosing hfatal
      · obtain rfl := Option.some.inj h
        refine .moves ?_ fun _ _ ↦ ⟨.serverClosed, rfl⟩
        rw [hserve]
        rfl
      · obtain rfl := Option.some.inj h
        refine .moves ?_ fun _ _ ↦ ⟨.failed, rfl⟩
        rw [hserve]
        rfl
      · obtain rfl := Option.some.inj h
        refine .moves ?_ fun hclosed _ ↦ absurd hclosed hclosing
        rw [hserve]
        rfl
    · exact nomatch h

/-- What a step of the connection `i` does. -/
inductive Connected (s : State) (i : ℕ) : State → Prop
  | moves {c d : ConnPhase} (hget : s.conns[i]? = some c) (hfrom : c.alive = true)
      (hto : d.alive = true) (hpush : ∀ p, c ≠ .pushing p) : Connected s i (s.setConn i d)
  | spawns (hget : s.conns[i]? = some .handling) :
      Connected s i
        { s.setConn i (.pushing s.pushes.length) with pushes := s.pushes ++ [false] }
  | registers {p : ℕ} (hget : s.conns[i]? = some (.pushing p)) :
      Connected s i ((s.setConn i .handling).register p)
  | drops (hget : s.conns[i]? = some .closing) :
      Connected s i { s.setConn i .ended with active := s.active - 1 }

theorem connStep_connected {m : ConnMove} (h : connStep s i m = some t) : Connected s i t := by
  cases m with
  | request =>
    simp only [connStep] at h
    split_ifs at h with hget
    exact Option.some.inj h ▸ .moves hget rfl rfl fun _ heq ↦ nomatch heq
  | refuse =>
    simp only [connStep] at h
    split_ifs at h with hget
    exact Option.some.inj h ▸ .moves hget rfl rfl fun _ heq ↦ nomatch heq
  | spawnPush =>
    simp only [connStep] at h
    split_ifs at h with hget
    exact Option.some.inj h ▸ .spawns hget
  | register =>
    simp only [connStep] at h
    split at h
    · rename_i p hget
      exact Option.some.inj h ▸ .registers hget
    · exact nomatch h
  | finish =>
    simp only [connStep] at h
    split_ifs at h with hget
    exact Option.some.inj h ▸ .moves hget rfl rfl fun _ heq ↦ nomatch heq
  | drop =>
    simp only [connStep] at h
    split_ifs at h with hget
    exact Option.some.inj h ▸ .drops hget

/-- The thread of the connection is alive. -/
theorem Connected.exists_alive (h : Connected s i t) : ∃ c ∈ s.conns, c.alive = true := by
  cases h with
  | moves hget hfrom _ _ => exact ⟨_, List.mem_of_getElem? hget, hfrom⟩
  | spawns hget => exact ⟨_, List.mem_of_getElem? hget, rfl⟩
  | registers hget => exact ⟨_, List.mem_of_getElem? hget, rfl⟩
  | drops hget => exact ⟨_, List.mem_of_getElem? hget, rfl⟩

/-- What a step of `run` does: before `join_all` it goes on with the closing flag stored and puts no
listener back, and `join_all` takes the handles and joins them. -/
inductive Advanced (s : State) : State → Prop
  | moves {main : MainPhase} {listener : Bool} (hfrom : s.main.drained = false)
      (hto : main.drained = false) (hlistener : listener = true → s.listener = true) :
      Advanced s { s with main := main, listener := listener, closing := true }
  | drains (hmain : s.main = .draining) :
      Advanced s { s with
        main := .joiningPushes s.handles, handles := [], registeredAtDrain := some s.registered }
  | joins {p : ℕ} {rest : List ℕ} (hmain : s.main = .joiningPushes (p :: rest))
      (hfinished : s.finished p = true) : Advanced s { s with main := .joiningPushes rest }
  | returns (hmain : s.main = .joiningPushes []) : Advanced s { s with main := .returned }

theorem mainStep_advanced {m : MainMove} (hclosing : s.main.begun = true → s.closing = true)
    (h : mainStep timeout s m = some t) : Advanced s t := by
  -- The closing flag is stored already, or `close` stores it.
  have moves {main : MainPhase} {listener : Bool} (hbegun : s.main.begun = true)
      (hfrom : s.main.drained = false) (hto : main.drained = false)
      (hlistener : listener = true → s.listener = true) :
      Advanced s { s with main := main, listener := listener } := by
    have hadvanced := Advanced.moves hfrom hto hlistener
    rwa [← hclosing hbegun] at hadvanced
  cases m with
  | close =>
    simp only [mainStep] at h
    split at h
    · rename_i hmain
      obtain rfl := Option.some.inj h
      exact .moves (by rw [hmain]; rfl) rfl id
    · exact nomatch h
  | take =>
    simp only [mainStep] at h
    split at h
    · rename_i hmain
      obtain rfl := Option.some.inj h
      exact moves (by rw [hmain]; rfl) (by rw [hmain]; rfl) rfl (fun hlistener ↦ nomatch hlistener)
    · exact nomatch h
  | arm =>
    simp only [mainStep] at h
    split at h
    · rename_i hmain
      obtain rfl := Option.some.inj h
      exact moves (by rw [hmain]; rfl) (by rw [hmain]; rfl) rfl id
    · exact nomatch h
  | load =>
    simp only [mainStep] at h
    split at h
    · rename_i deadline hmain
      split_ifs at h
      all_goals
        obtain rfl := Option.some.inj h
        exact moves (by rw [hmain]; rfl) (by rw [hmain]; rfl) rfl id
    · exact nomatch h
  | check =>
    simp only [mainStep] at h
    split at h
    · rename_i deadline hmain
      split_ifs at h
      all_goals
        obtain rfl := Option.some.inj h
        exact moves (by rw [hmain]; rfl) (by rw [hmain]; rfl) rfl id
    · exact nomatch h
  | wake =>
    simp only [mainStep] at h
    split at h
    · rename_i deadline hmain
      obtain rfl := Option.some.inj h
      exact moves (by rw [hmain]; rfl) (by rw [hmain]; rfl) rfl id
    · exact nomatch h
  | joinHttp =>
    simp only [mainStep] at h
    split at h
    · rename_i result _ hmain _
      obtain rfl := Option.some.inj h
      exact moves (by rw [hmain]; rfl) (by rw [hmain]; rfl) rfl id
    · rename_i result hmain _
      obtain rfl := Option.some.inj h
      exact moves (by rw [hmain]; rfl) (by rw [hmain]; rfl) rfl id
    · exact nomatch h
  | drain =>
    simp only [mainStep] at h
    split at h
    · rename_i hmain
      obtain rfl := Option.some.inj h
      exact .drains hmain
    · exact nomatch h
  | joinPush =>
    simp only [mainStep] at h
    split at h
    · rename_i p rest hmain
      split_ifs at h with hfinished
      obtain rfl := Option.some.inj h
      exact .joins hmain hfinished
    · exact nomatch h
  | «return» =>
    simp only [mainStep] at h
    split at h
    · rename_i hmain
      obtain rfl := Option.some.inj h
      exact .returns hmain
    · exact nomatch h

/-! ### The steps keep the count -/

theorem Inv.serve (h : Inv s) (hserved : Served s t) : Inv t := by
  have hcount := h.active
  cases hserved with
  | moves hactive _ =>
    refine ⟨?_, h.closing, h.pushing, h.undrained, h.tracked⟩
    simp only
    omega
  | spawns hserve =>
    refine ⟨?_, h.closing, fun p hp ↦ ?_, h.undrained, h.tracked⟩
    · rw [hserve] at hcount
      simpa [ServePhase.counts, ConnPhase.alive, List.countP_append] using hcount
    · exact (h.pushing p hp).imp_right (List.mem_append_left _)

/-- A thread that has no push in hand goes to another phase. -/
theorem Inv.setConn (h : Inv s) {c : ConnPhase} (d : ConnPhase) {active : ℕ}
    (hget : s.conns[i]? = some c) (halive : c.alive = true) (hpush : ∀ p, c ≠ .pushing p)
    (hactive : active + 1 = s.active + d.alive.toNat) :
    Inv { s.setConn i d with active := active } := by
  have hcount := h.active
  have hset := countP_alive_set d hget halive
  refine ⟨?_, h.closing, fun p hp ↦ ?_, h.undrained, h.tracked⟩
  · simp only [State.setConn]
    omega
  · refine (h.pushing p hp).imp_right fun hmem ↦ mem_set_of_ne hmem ?_
    rw [hget]
    exact fun heq ↦ hpush p (Option.some.inj heq)

/-- A push is spawned that a handler has in hand. -/
theorem Inv.spawnPush (h : Inv s) (hmem : .pushing s.pushes.length ∈ s.conns) :
    Inv { s with pushes := s.pushes ++ [false] } := by
  refine ⟨h.active, h.closing, fun p hp ↦ ?_, h.undrained, fun p hp ↦ ?_⟩
  · rw [List.length_append, List.length_singleton] at hp
    rcases Nat.lt_succ_iff_lt_or_eq.mp hp with hlt | rfl
    · exact h.pushing p hlt
    · exact .inr hmem
  · refine (h.tracked p hp).imp_left fun hfinished ↦ ?_
    have hget := beq_iff_eq.mp hfinished
    refine beq_iff_eq.mpr ?_
    rw [List.getElem?_append_left (List.getElem?_eq_some_iff.mp hget).1]
    exact hget

/-- The handle of a push goes to the tracker, which drops those of the pushes that have finished. -/
theorem Inv.register (h : Inv s) {p : ℕ} (hget : s.conns[i]? = some (.pushing p)) :
    Inv ((s.setConn i .handling).register p) := by
  have hcount := h.active
  have hset := countP_alive_set .handling hget rfl
  refine ⟨?_, h.closing, fun q hq ↦ ?_, h.undrained, fun q hq ↦ ?_⟩
  · simp only [State.register, State.setConn]
    have halive : (ConnPhase.handling.alive).toNat = 1 := rfl
    omega
  · simp only [State.register, State.setConn, List.mem_append, List.mem_singleton]
    by_cases hqp : q = p
    · exact .inl (.inr hqp)
    · refine (h.pushing q hq).imp .inl fun hmem ↦ mem_set_of_ne hmem ?_
      rw [hget]
      intro heq
      exact hqp (ConnPhase.pushing.inj (Option.some.inj heq)).symm
  · simp only [State.register, State.setConn, List.mem_append, List.mem_singleton] at hq ⊢
    rcases hq with hq | rfl
    · rcases h.tracked q hq with hfinished | hhandle | htaken
      · exact .inl hfinished
      · by_cases hfinished : s.finished q = true
        · exact .inl hfinished
        · refine .inr (.inl (.inl (List.mem_filter.mpr ⟨hhandle, ?_⟩)))
          exact (Bool.not_eq_true' _).mpr (Bool.not_eq_true _ ▸ hfinished)
      · exact .inr (.inr htaken)
    · exact .inr (.inl (.inr rfl))

theorem Inv.conn (h : Inv s) (hconnected : Connected s i t) : Inv t := by
  cases hconnected with
  | moves hget hfrom hto hpush => exact h.setConn _ hget hfrom hpush (by rw [hto]; rfl)
  | spawns hget =>
    have hset := h.setConn (.pushing s.pushes.length) hget rfl (fun _ heq ↦ nomatch heq) rfl
    exact hset.spawnPush (List.mem_set (List.getElem?_eq_some_iff.mp hget).1 _)
  | registers hget => exact h.register hget
  | drops hget =>
    -- The thread itself is among those counted.
    have hpos : 0 < s.conns.countP ConnPhase.alive :=
      List.countP_pos_iff.mpr ⟨_, List.mem_of_getElem? hget, rfl⟩
    have hcount := h.active
    have hended : (ConnPhase.ended.alive).toNat = 0 := rfl
    exact h.setConn .ended hget rfl (fun _ heq ↦ nomatch heq) (by omega)

/-- Before `join_all` nothing is taken. -/
theorem MainPhase.taking_eq_nil {main : MainPhase} (h : main.drained = false) :
    main.taking = [] := by
  cases main with
  | joiningPushes handles => exact nomatch h
  | _ => rfl

theorem Inv.main (h : Inv s) (hadvanced : Advanced s t) : Inv t := by
  cases hadvanced with
  | moves hfrom hto _ =>
    refine ⟨h.active, fun _ ↦ rfl, h.pushing, fun _ ↦ h.undrained hfrom, fun p hp ↦ ?_⟩
    refine (h.tracked p hp).imp_right (Or.imp_right fun htaken ↦ ?_)
    rw [MainPhase.taking_eq_nil hfrom] at htaken
    exact nomatch htaken
  | drains hmain =>
    refine ⟨h.active, fun _ ↦ h.closing (by rw [hmain]; rfl), h.pushing, (fun hto ↦ nomatch hto),
      fun p hp ↦ ?_⟩
    have htracked := h.tracked p hp
    rw [hmain] at htracked
    exact htracked.imp_right fun htaken ↦ .inr (htaken.resolve_right fun hmem ↦ nomatch hmem)
  | joins hmain hfinished =>
    refine ⟨h.active, fun _ ↦ h.closing (by rw [hmain]; rfl), h.pushing, (fun hto ↦ nomatch hto),
      fun p hp ↦ ?_⟩
    have htracked := h.tracked p hp
    rw [hmain] at htracked
    rcases htracked with hdone | hhandle | htaken
    · exact .inl hdone
    · exact .inr (.inl hhandle)
    · rcases List.mem_cons.mp htaken with rfl | hrest
      · exact .inl hfinished
      · exact .inr (.inr hrest)
  | returns hmain =>
    refine ⟨h.active, fun _ ↦ h.closing (by rw [hmain]; rfl), h.pushing, (fun hto ↦ nomatch hto),
      fun p hp ↦ ?_⟩
    have htracked := h.tracked p hp
    rwa [hmain] at htracked

theorem Inv.pushEnds (h : Inv s) {p : ℕ} (hp : p < s.pushes.length) :
    Inv { s with pushes := s.pushes.set p true } := by
  refine ⟨h.active, h.closing, fun q hq ↦ ?_, h.undrained, fun q hq ↦ ?_⟩
  · rw [List.length_set] at hq
    exact h.pushing q hq
  · refine (h.tracked q hq).imp_left fun hfinished ↦ beq_iff_eq.mpr ?_
    by_cases hqp : p = q
    · rw [hqp, List.getElem?_set_self (hqp ▸ hp)]
    · rw [List.getElem?_set_ne hqp]
      exact beq_iff_eq.mp hfinished

theorem Inv.step {l : Label} (h : Inv s) (hstep : step timeout s l = some t) : Inv t := by
  cases l with
  | serve m => exact h.serve (serveStep_served hstep)
  | conn i m => exact h.conn (connStep_connected hstep)
  | main m => exact h.main (mainStep_advanced h.closing hstep)
  | pushEnds p =>
    simp only [Server.step] at hstep
    split_ifs at hstep with hp
    exact Option.some.inj hstep ▸ h.pushEnds hp
  | tick => exact Option.some.inj hstep ▸ ⟨h.active, h.closing, h.pushing, h.undrained, h.tracked⟩

theorem reachable_inv (hreach : Reachable (step timeout) .init s) : Inv s :=
  hreach.invariant inv_init fun hinv hstep ↦ hinv.step hstep

/-! ### After the last connection -/

/-- Nothing is left to end and nothing can start. -/
structure Over (s : State) : Prop where
  ended : ∀ c ∈ s.conns, c.alive = false
  closing : s.closing = true
  settled : Settled s
  registered : ∀ p < s.pushes.length, p ∈ s.registered
  drained : ∀ taken, s.registeredAtDrain = some taken → ∀ p < s.pushes.length, p ∈ taken
  taken : s.main.drained = true → s.handles = []

theorem Over.quiet (h : Over s) : Quiet s where
  handlers := fun c hc ↦ by
    have hended := h.ended c hc
    cases c with
    | ended => rfl
    | _ => exact nomatch hended
  pushes := h.drained

theorem Over.serve (h : Over s) (hserved : Served s t) : Over t := by
  cases hserved with
  | moves _ hsettled =>
    exact ⟨h.ended, h.closing, .inl (hsettled h.closing h.settled), h.registered, h.drained,
      h.taken⟩
  | spawns hserve => exact absurd h.settled (not_settled_of_counted hserve)

theorem Over.main (h : Over s) (hadvanced : Advanced s t) : Over t := by
  cases hadvanced with
  | moves _ hto hlistener =>
    refine ⟨h.ended, rfl, ?_, h.registered, h.drained, fun hdrained ↦ ?_⟩
    · refine h.settled.imp_right (Or.imp_right fun hidle ↦ ⟨hidle.1, ?_⟩)
      exact Bool.eq_false_iff.mpr fun hlisted ↦
        Bool.eq_false_iff.mp hidle.2 (hlistener hlisted)
    · exact absurd hdrained (Bool.eq_false_iff.mp hto)
  | drains _ =>
    refine ⟨h.ended, h.closing, h.settled, h.registered, fun taken htaken ↦ ?_, fun _ ↦ rfl⟩
    exact Option.some.inj htaken ▸ h.registered
  | joins hmain _ =>
    exact ⟨h.ended, h.closing, h.settled, h.registered, h.drained,
      fun _ ↦ h.taken (by rw [hmain]; rfl)⟩
  | returns hmain =>
    exact ⟨h.ended, h.closing, h.settled, h.registered, h.drained,
      fun _ ↦ h.taken (by rw [hmain]; rfl)⟩

theorem Over.step {l : Label} (h : Over s) (hstep : step timeout s l = some t) : Over t := by
  cases l with
  | serve m => exact h.serve (serveStep_served hstep)
  | conn i m =>
    obtain ⟨c, hc, halive⟩ := (connStep_connected hstep).exists_alive
    rw [h.ended c hc] at halive
    exact nomatch halive
  | main m => exact h.main (mainStep_advanced (fun _ ↦ h.closing) hstep)
  | pushEnds p =>
    simp only [Server.step] at hstep
    split_ifs at hstep with hp
    obtain rfl := Option.some.inj hstep
    have hlength : (s.pushes.set p true).length = s.pushes.length := List.length_set
    exact ⟨h.ended, h.closing, h.settled, hlength ▸ h.registered, hlength ▸ h.drained, h.taken⟩
  | tick =>
    exact Option.some.inj hstep ▸
      ⟨h.ended, h.closing, h.settled, h.registered, h.drained, h.taken⟩

/-- `shutdown` reads zero and returns `Ok`. -/
theorem load_ok (hload : step timeout s (.main .load) = some t)
    (hok : t.main = .joiningHttp (.ok ())) :
    s.active = 0 ∧ (∃ deadline, s.main = .waiting deadline) ∧
      t = { s with main := .joiningHttp (.ok ()) } := by
  simp only [step, mainStep] at hload
  split at hload
  · rename_i deadline hmain
    split_ifs at hload with hactive
    · exact ⟨hactive, ⟨deadline, hmain⟩, (Option.some.inj hload).symm⟩
    · obtain rfl := Option.some.inj hload
      exact nomatch hok
  · exact nomatch hload

theorem Inv.over (h : Inv s) (hactive : s.active = 0) {deadline : Option ℕ}
    (hmain : s.main = .waiting deadline) (hsettled : Settled s) :
    Over { s with main := .joiningHttp (.ok ()) } := by
  have hcount := h.active
  have hended : ∀ c ∈ s.conns, c.alive = false := by
    have hzero : s.conns.countP ConnPhase.alive = 0 := by omega
    exact fun c hc ↦ Bool.eq_false_iff.mpr (List.countP_eq_zero.mp hzero c hc)
  refine ⟨hended, h.closing (by rw [hmain]; rfl), hsettled, fun p hp ↦ ?_, fun taken htaken ↦ ?_,
    (fun hdrained ↦ nomatch hdrained)⟩
  · refine (h.pushing p hp).resolve_right fun hmem ↦ ?_
    exact nomatch hended _ hmem
  · have hnone := h.undrained (by rw [hmain]; rfl)
    exact nomatch hnone.symm.trans htaken

/-! ### A connection on the way -/

/-- The accept loop with a connection in hand goes on to the handler. -/
theorem exists_handling_of_accepted (timeout : Option ℕ) (hserve : s.serve = .accepted) :
    ∃ u, exec (step timeout) s
        [.serve .count, .serve .spawn, .conn s.conns.length .request] = some u ∧
      .handling ∈ u.conns := by
  refine ⟨{ s with
    serve := .polling
    active := s.active + 1
    conns := (s.conns ++ [ConnPhase.reading]).set s.conns.length .handling }, ?_, ?_⟩
  · simp [exec, step, serveStep, connStep, State.setConn, hserve]
  · exact List.mem_set (by simp) _

/-- So does the accept loop with a listener. -/
theorem exists_handling_of_listening (timeout : Option ℕ) (hserve : s.serve = .polling)
    (hlistener : s.listener = true) :
    ∃ labels u, exec (step timeout) s labels = some u ∧ .handling ∈ u.conns := by
  obtain ⟨u, hrun, hmem⟩ :=
    exists_handling_of_accepted timeout (s := { s with serve := .accepted }) rfl
  refine ⟨.serve .accept :: _, u, exec_cons_eq_some.mpr ⟨_, ?_, hrun⟩, hmem⟩
  exact if_pos ⟨hserve, hlistener⟩

/-- A loop that is not settled can still start a handler. -/
theorem Inv.exists_handling (h : Inv s) (hactive : s.active = 0) (hsettled : ¬ Settled s) :
    ∃ labels u, exec (Server.step timeout) s labels = some u ∧ .handling ∈ u.conns := by
  have hcount := h.active
  rw [hactive] at hcount
  cases hserve : s.serve with
  | starting =>
    obtain ⟨labels, u, hrun, hmem⟩ := exists_handling_of_listening timeout
      (s := { s with serve := .polling, listener := true }) rfl rfl
    refine ⟨.serve .install :: labels, u, exec_cons_eq_some.mpr ⟨_, ?_, hrun⟩, hmem⟩
    exact if_pos hserve
  | polling =>
    cases hlistener : s.listener with
    | false => exact absurd (.inr (.inr ⟨hserve, hlistener⟩)) hsettled
    | true => exact exists_handling_of_listening timeout hserve hlistener
  | accepted =>
    obtain ⟨u, hrun, hmem⟩ := exists_handling_of_accepted timeout hserve
    exact ⟨_, u, hrun, hmem⟩
  | counted =>
    rw [hserve] at hcount
    exact nomatch hcount
  | panicked =>
    rw [hserve] at hcount
    exact nomatch hcount
  | erred fatal => exact absurd (.inr (.inl ⟨fatal, hserve⟩)) hsettled
  | returned result => exact absurd (.inl ⟨result, hserve⟩) hsettled

/-! ### What an `Ok` of `shutdown` means -/

theorem over_of_settled (hreach : Reachable (step timeout) .init s)
    (hload : step timeout s (.main .load) = some t) (hok : t.main = .joiningHttp (.ok ()))
    (hsettled : Settled s) {u : State} {labels : List Label}
    (hrun : exec (step timeout) t labels = some u) : Over u := by
  obtain ⟨hactive, ⟨deadline, hmain⟩, rfl⟩ := load_ok hload hok
  have hover := (reachable_inv hreach).over hactive hmain hsettled
  exact Reachable.invariant hover (fun h hstep ↦ h.step hstep) ⟨labels, hrun⟩

/-- When `run` has returned behind a settled `shutdown`, the pushes of its handlers have
finished. -/
theorem pushes_finished (hreach : Reachable (step timeout) .init s)
    (hload : step timeout s (.main .load) = some t) (hok : t.main = .joiningHttp (.ok ()))
    (hsettled : Settled s) {u : State} {labels : List Label}
    (hrun : exec (step timeout) t labels = some u) (hreturned : u.main = .returned) :
    ∀ p < u.pushes.length, u.finished p = true := by
  have hover := over_of_settled hreach hload hok hsettled hrun
  have hinv : Inv u :=
    Reachable.invariant ((reachable_inv hreach).step hload) (fun h hstep ↦ h.step hstep)
      ⟨labels, hrun⟩
  intro p hp
  have htracked := hinv.tracked p (hover.registered p hp)
  rw [hover.taken (by rw [hreturned]; rfl), hreturned] at htracked
  rcases htracked with hfinished | hhandle | htaken
  · exact hfinished
  · exact nomatch hhandle
  · exact nomatch htaken

/-- After an `Ok` of `shutdown` no handler ever runs, and every push is registered in time, exactly
if the accept loop was settled when `shutdown` read the count. -/
theorem shutdown_ok_quiet_iff (hreach : Reachable (step timeout) .init s)
    (hload : step timeout s (.main .load) = some t) (hok : t.main = .joiningHttp (.ok ())) :
    (∀ labels u, exec (step timeout) t labels = some u → Quiet u) ↔ Settled s := by
  constructor
  · intro hquiet
    by_contra hsettled
    obtain ⟨hactive, -, rfl⟩ := load_ok hload hok
    have hinv := (reachable_inv hreach).step hload
    obtain ⟨labels, u, hrun, hmem⟩ := hinv.exists_handling hactive hsettled
    exact nomatch (hquiet labels u hrun).handlers _ hmem
  · intro hsettled labels u hrun
    exact (over_of_settled hreach hload hok hsettled hrun).quiet

/-- A signal that comes while the accept loop sleeps, with one request served before. -/
def idleShutdown : List Label :=
  [.serve .install, .serve .accept, .serve .count, .serve .spawn, .conn 0 .request,
    .conn 0 .spawnPush, .conn 0 .register, .conn 0 .finish, .serve (.acceptFails false),
    .main .close, .main .take, .main .arm, .conn 0 .drop]

theorem shutdown_ok_quiet_idleShutdown :
    ∃ s t, exec (step (some 5000)) .init idleShutdown = some s ∧
      step (some 5000) s (.main .load) = some t ∧ t.main = .joiningHttp (.ok ()) ∧
        ∀ labels u, exec (step (some 5000)) t labels = some u → Quiet u :=
  ⟨_, _, rfl, rfl, rfl,
    (shutdown_ok_quiet_iff ⟨idleShutdown, rfl⟩ rfl rfl).mpr (.inr (.inl ⟨false, rfl⟩))⟩

/-- A connection that is accepted before `shutdown` takes the listener, and counted only after it
has read the count. -/
def lateHandler : List Label :=
  [.serve .install, .serve .accept, .main .close, .main .take, .main .arm]

/-- `shutdown` returns `Ok`, and the handler of the connection spawns a push behind `join_all`. -/
theorem lateHandler_runs :
    ∃ s t u, exec (step (some 5000)) .init lateHandler = some s ∧
      step (some 5000) s (.main .load) = some t ∧ t.main = .joiningHttp (.ok ()) ∧
        exec (step (some 5000)) t
          [.serve .count, .serve .spawn, .serve .unlisted, .main .joinHttp, .main .drain,
            .conn 0 .request, .conn 0 .spawnPush] = some u ∧
          u.conns = [.pushing 0] ∧ u.registeredAtDrain = some [] ∧ ¬ Quiet u :=
  ⟨_, _, _, rfl, rfl, rfl, rfl, rfl, rfl,
    fun hquiet ↦ nomatch hquiet.handlers (.pushing 0) (List.mem_singleton.mpr rfl)⟩

end DoorAccess.Httpx.Server
