import TieredHart.RequestQueue

namespace TieredHart

namespace RequestQueue

inductive Offered (queue : RequestQueue) (request : CompileRequest) : Enqueued × RequestQueue → Prop where
  | busy (known : queue.busy request.entryPa = true) : Offered queue request (.busy, queue)
  | sent (unknown : queue.busy request.entryPa = false) (connected : queue.connected = true)
      (room : queue.pending < queue.capacity) : Offered queue request (.sent, { queue with
        waiting := queue.waiting ++ [request]
        active := request.entryPa :: queue.active })
  | full (unknown : queue.busy request.entryPa = false)
      (closed : queue.connected = true → queue.capacity ≤ queue.pending) : Offered queue request (.full, queue)

theorem offer_offered (queue : RequestQueue) (request : CompileRequest) :
    Offered queue request (queue.offer request) := by
  unfold offer
  by_cases known : queue.busy request.entryPa = true
  · rw [if_pos known]
    exact .busy known
  · have unknown : queue.busy request.entryPa = false := by simpa using known
    rw [if_neg known]
    by_cases accepts : queue.connected ∧ queue.pending < queue.capacity
    · rw [if_pos accepts]
      exact .sent unknown accepts.1 accepts.2
    · rw [if_neg accepts]
      exact .full unknown fun connected => Nat.le_of_not_lt fun room => accepts ⟨connected, room⟩

variable {queue : RequestQueue} {request : CompileRequest}

theorem offer_busy_iff : (queue.offer request).1 = .busy ↔ queue.busy request.entryPa = true := by
  have offered := offer_offered queue request
  generalize queue.offer request = answer at offered
  cases offered <;> simp_all

theorem offer_sent_iff (connected : queue.connected = true) :
    (queue.offer request).1 = .sent ↔ queue.busy request.entryPa = false ∧ queue.pending < queue.capacity := by
  have offered := offer_offered queue request
  generalize queue.offer request = answer at offered
  cases offered with
  | busy known => simp [known]
  | sent unknown _ room => simp [unknown, room]
  | full unknown closed => simp [closed connected]

theorem offer_full_iff (connected : queue.connected = true) :
    (queue.offer request).1 = .full ↔ queue.busy request.entryPa = false ∧ queue.capacity ≤ queue.pending := by
  have offered := offer_offered queue request
  generalize queue.offer request = answer at offered
  cases offered with
  | busy known => simp [known]
  | sent unknown _ room => simp [room]
  | full unknown closed => simp [unknown, closed connected]

theorem offer_refused (refused : (queue.offer request).1 ≠ .sent) : (queue.offer request).2 = queue := by
  have offered := offer_offered queue request
  generalize queue.offer request = answer at offered refused
  cases offered with
  | busy _ => rfl
  | sent _ _ _ => exact absurd rfl refused
  | full _ _ => rfl

end RequestQueue

-- A queue with what has passed through it: what was accepted and what was handed out, each in order, and what was handed
-- out and is not completed yet.
structure Ledger where
  queue : RequestQueue
  sent : List CompileRequest
  received : List CompileRequest
  unfinished : List CompileRequest
  deriving DecidableEq

inductive QueueMove where
  | offer (request : CompileRequest)
  | receive
  | complete (request : CompileRequest)
  | disconnect
  deriving DecidableEq

namespace Ledger

def start (queue : RequestQueue) : Ledger := ⟨queue, [], [], []⟩

def apply (ledger : Ledger) : QueueMove → Ledger
  | .offer request =>
    let (answer, queue) := ledger.queue.offer request
    { ledger with queue := queue, sent := if answer = .sent then ledger.sent ++ [request] else ledger.sent }
  | .receive =>
    match ledger.queue.receive? with
    | some (request, queue) =>
      { ledger with
        queue := queue
        received := ledger.received ++ [request]
        unfinished := request :: ledger.unfinished }
    | none => ledger
  | .complete request =>
    { ledger with
      queue := ledger.queue.complete request.entryPa
      unfinished := ledger.unfinished.erase request }
  | .disconnect => { ledger with queue := ledger.queue.disconnect }

-- Only a sender offers, and it is dropped at most once. A request is completed once, after it was handed out.
def Allowed (ledger : Ledger) : QueueMove → Prop
  | .offer _ | .disconnect => ledger.queue.connected = true
  | .receive => True
  | .complete request => request ∈ ledger.unfinished

inductive Sequence : Ledger → List QueueMove → Ledger → Prop where
  | nil {ledger : Ledger} : Sequence ledger [] ledger
  | cons {ledger after : Ledger} {move : QueueMove} {moves : List QueueMove} (allowed : ledger.Allowed move)
      (later : Sequence (ledger.apply move) moves after) : Sequence ledger (move :: moves) after

def underway (ledger : Ledger) : List CompileRequest := ledger.queue.waiting ++ ledger.unfinished

structure Kept (depth : Nat) (ledger : Ledger) : Prop where
  capacity : ledger.queue.capacity = max depth 1
  bounded : ledger.queue.waiting.length ≤ max depth 1
  active : ∀ pa, pa ∈ ledger.queue.active ↔ pa ∈ ledger.underway.map (·.entryPa)
  distinct : (ledger.underway.map (·.entryPa)).Nodup
  order : ledger.sent = ledger.received ++ ledger.queue.waiting

variable {ledger after : Ledger} {depth : Nat} {queue : RequestQueue} {request : CompileRequest} {moves : List QueueMove}

theorem start_kept {host : Host} (built : RequestQueue.ofDepth depth host = .ok queue) : Kept depth (start queue) := by
  unfold RequestQueue.ofDepth checkAllocation at built
  split at built
  · cases built
    exact ⟨rfl, Nat.zero_le _, fun _ => Iff.rfl, .nil, rfl⟩
  · cases built

theorem Kept.offer (kept : Kept depth ledger) (request : CompileRequest) : Kept depth (ledger.apply (.offer request)) := by
  have offered := RequestQueue.offer_offered ledger.queue request
  simp only [apply]
  generalize ledger.queue.offer request = answer at offered
  cases offered with
  | busy _ => exact kept
  | full _ _ => exact kept
  | sent unknown _ room =>
    have capacity := kept.capacity
    have new : (ledger.queue.waiting ++ [request] ++ ledger.unfinished).Perm (request :: ledger.underway) := by
      rw [List.append_assoc]
      exact List.perm_middle
    have absent : request.entryPa ∉ ledger.underway.map (·.entryPa) := by
      rw [← kept.active]
      simpa [RequestQueue.busy] using unknown
    refine ⟨capacity, ?_, fun pa => ?_, ?_, ?_⟩
    · unfold RequestQueue.pending at room
      simp only [List.length_append, List.length_singleton]
      omega
    · refine Iff.trans ?_ (new.map (·.entryPa)).mem_iff.symm
      rw [List.mem_cons, List.map_cons, List.mem_cons, kept.active]
    · refine (new.map (·.entryPa)).nodup_iff.mpr ?_
      rw [List.map_cons, List.nodup_cons]
      exact ⟨absent, kept.distinct⟩
    · simp only [if_true, kept.order, List.append_assoc]

theorem Kept.receive (kept : Kept depth ledger) : Kept depth (ledger.apply .receive) := by
  unfold apply RequestQueue.receive?
  cases waiting : ledger.queue.waiting with
  | nil => exact kept
  | cons request rest =>
    have bounded := kept.bounded
    have order := kept.order
    have active := kept.active
    have distinct := kept.distinct
    unfold underway at active distinct
    rw [waiting] at bounded order active distinct
    -- The request moves from the front of what waits to what is unfinished, so the same addresses are on their way.
    have moved : (rest ++ request :: ledger.unfinished).Perm (request :: rest ++ ledger.unfinished) := List.perm_middle
    refine ⟨kept.capacity, Nat.le_of_succ_le bounded, ?_, ?_, ?_⟩
    · exact fun pa => (active pa).trans (moved.map _).mem_iff.symm
    · exact (moved.map _).nodup_iff.mpr distinct
    · rw [order, List.append_assoc]
      rfl

theorem Kept.complete (kept : Kept depth ledger) (member : request ∈ ledger.unfinished) :
    Kept depth (ledger.apply (.complete request)) := by
  have active := kept.active
  have distinct := kept.distinct
  unfold underway at active distinct
  -- Its address occurs once among those on their way, so taking the request out takes the address out.
  have split : (ledger.queue.waiting ++ ledger.unfinished).Perm
      (request :: (ledger.queue.waiting ++ ledger.unfinished.erase request)) :=
    ((List.perm_cons_erase member).append_left _).trans List.perm_middle
  have apart := (split.map (·.entryPa)).nodup_iff.mp distinct
  rw [List.map_cons, List.nodup_cons] at apart
  refine ⟨kept.capacity, kept.bounded, fun pa => ?_, apart.2, kept.order⟩
  have known := (active pa).trans (split.map (·.entryPa)).mem_iff
  rw [List.map_cons, List.mem_cons] at known
  show pa ∈ ledger.queue.active.filter (· ≠ request.entryPa) ↔ _
  rw [List.mem_filter, known]
  have gone := apart.1
  unfold underway
  constructor
  · rintro ⟨rfl | there, other⟩
    · simp at other
    · exact there
  · intro there
    refine ⟨.inr there, ?_⟩
    simp only [ne_eq, decide_eq_true_eq]
    rintro rfl
    exact gone there

theorem Kept.step (kept : Kept depth ledger) {move : QueueMove} (allowed : ledger.Allowed move) :
    Kept depth (ledger.apply move) := by
  cases move with
  | offer request => exact kept.offer request
  | receive => exact kept.receive
  | complete request => exact kept.complete allowed
  | disconnect => exact ⟨kept.capacity, kept.bounded, kept.active, kept.distinct, kept.order⟩

theorem Sequence.kept (sequence : Sequence ledger moves after) (kept : Kept depth ledger) : Kept depth after := by
  induction sequence with
  | nil => exact kept
  | cons allowed _ ih => exact ih (kept.step allowed)

theorem Sequence.drains (sequence : Sequence ledger moves after) (gone : ledger.queue.connected = false) :
    after.received = ledger.received ++ ledger.queue.waiting.take (moves.count .receive) := by
  induction sequence with
  | nil => simp
  | @cons ledger after move moves allowed _ ih =>
    cases move with
    | offer request => cases gone.symm.trans allowed
    | disconnect => cases gone.symm.trans allowed
    | complete request =>
      have others : (QueueMove.complete request :: moves).count .receive = moves.count .receive :=
        List.count_cons_of_ne (by simp)
      rw [others]
      exact ih gone
    | receive =>
      rw [List.count_cons_self]
      unfold apply RequestQueue.receive? at ih
      cases waiting : ledger.queue.waiting with
      | nil =>
        rw [waiting] at ih
        simpa [waiting] using ih gone
      | cons request rest =>
        rw [waiting] at ih
        simpa using ih gone

-- What holds after any sequence of moves. The in-flight addresses are those of the requests on their way, each once;
-- what was accepted is what was handed out followed by what waits; an offer is answered by these alone; and what waits
-- when the sender goes is handed out by as many receives, whatever comes between them.
structure Protocol (depth : Nat) (ledger : Ledger) : Prop where
  inFlight : ∀ pa, ledger.queue.busy pa = true ↔ pa ∈ ledger.underway.map (·.entryPa)
  distinct : (ledger.underway.map (·.entryPa)).Nodup
  bounded : ledger.queue.pending ≤ max depth 1
  order : ledger.sent = ledger.received ++ ledger.queue.waiting
  busy : ∀ request, (ledger.queue.offer request).1 = .busy ↔ ledger.queue.busy request.entryPa = true
  full : ledger.queue.connected = true → ∀ request, (ledger.queue.offer request).1 = .full ↔
    ledger.queue.busy request.entryPa = false ∧ ledger.queue.pending = max depth 1
  accepted : ledger.queue.connected = true → ∀ request, (ledger.queue.offer request).1 = .sent ↔
    ledger.queue.busy request.entryPa = false ∧ ledger.queue.pending < max depth 1
  refused : ∀ request, (ledger.queue.offer request).1 ≠ .sent → (ledger.queue.offer request).2 = ledger.queue
  drains : ledger.queue.connected = false → ∀ moves after, Sequence ledger moves after →
    ledger.queue.pending ≤ moves.count .receive → after.received = ledger.sent

theorem Kept.protocol (kept : Kept depth ledger) : Protocol depth ledger := by
  have capacity := kept.capacity
  have bounded : ledger.queue.pending ≤ max depth 1 := kept.bounded
  refine ⟨fun pa => ?_, kept.distinct, bounded, kept.order, fun _ => RequestQueue.offer_busy_iff,
    fun connected request => ?_, fun connected request => ?_, fun _ => RequestQueue.offer_refused,
    fun gone moves after sequence enough => ?_⟩
  · rw [← kept.active]
    simp [RequestQueue.busy]
  · rw [RequestQueue.offer_full_iff connected, capacity, Nat.le_antisymm_iff]
    simp [bounded]
  · rw [RequestQueue.offer_sent_iff connected, capacity]
  · rw [sequence.drains gone, kept.order, List.take_of_length_le enough]

theorem Sequence.keeps_protocol {host : Host} (built : RequestQueue.ofDepth depth host = .ok queue)
    (sequence : Sequence (start queue) moves ledger) : Protocol depth ledger :=
  (sequence.kept (start_kept built)).protocol

def twoPlaces : RequestQueue := ⟨2, [], [], true⟩

theorem twoPlaces_keeps_protocol : RequestQueue.ofDepth 2 = .ok twoPlaces ∧ ∃ ledger, Sequence (start twoPlaces)
      [.offer ⟨4096, 0, none⟩, .offer ⟨8192, 0, none⟩, .receive, .offer ⟨4096, 0, none⟩, .complete ⟨4096, 0, none⟩,
        .offer ⟨4096, 0, none⟩, .disconnect] ledger ∧
    ledger.sent = [⟨4096, 0, none⟩, ⟨8192, 0, none⟩, ⟨4096, 0, none⟩] ∧ ledger.received = [⟨4096, 0, none⟩] ∧
    Protocol 2 ledger := by
  have built : RequestQueue.ofDepth 2 = .ok twoPlaces := rfl
  have sequence : Sequence (start twoPlaces)
      [.offer ⟨4096, 0, none⟩, .offer ⟨8192, 0, none⟩, .receive, .offer ⟨4096, 0, none⟩, .complete ⟨4096, 0, none⟩,
        .offer ⟨4096, 0, none⟩, .disconnect] _ :=
    .cons rfl (.cons rfl (.cons trivial (.cons rfl (.cons (List.mem_cons_self ..) (.cons rfl (.cons rfl .nil))))))
  exact ⟨built, _, sequence, rfl, rfl, sequence.keeps_protocol built⟩

end Ledger
end TieredHart
