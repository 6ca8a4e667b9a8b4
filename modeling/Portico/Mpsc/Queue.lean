/-
  The message queue between the API threads and an event thread (src/ws/ws_mpsc.c), with the
  wakeup eventfd and the two places of `ws_event_thread_worker` that empty it.

  Model. A step is one atomic operation of one thread on the shared memory: a load, a store, an
  exchange, a compare-exchange, taking or releasing `free_lock`, a read or write of the eventfd.
  Everything between two of them is part of the thread's program counter. Any number of
  producers run `get_node`, fill the node, `enqueue` and write the eventfd; one consumer runs
  `ws_mpsc_process_messages`, for a wakeup in batches of 256 until one is empty, after an
  `epoll_wait` timeout in one batch of 10. A node's number stands for its address; plain writes
  to a node that its thread alone owns are one step with the next. `should_expand_pool` always
  answers no, so the pool keeps its size.

  `Mem.enqueued` and `Mem.dequeued` are history: the nodes, with what they carried, in the order
  of the exchanges of `tail` and of the returns of `dequeue`.
-/
import Mathlib.Algebra.Group.Nat.Defs
import Portico.Lib.Machine

namespace Portico.Mpsc

open Portico.Lib

abbrev Node := Nat

inductive Thread where
  | producer (i : Nat)
  | consumer
  deriving DecidableEq, Repr

/-- `ws_mpsc_queue_t`, the `next` and `data` fields of the nodes, and the eventfd's counter. -/
structure Mem (μ : Type) where
  head : Option Node
  tail : Option Node
  freeHead : Option Node
  freeLock : Option Thread
  next : Node → Option Node
  data : Node → Option μ
  eventfd : Nat
  enqueued : List (Node × Option μ)
  dequeued : List (Node × Option μ)

namespace Mem

variable {μ : Type}

def setNext (m : Mem μ) (n : Node) (p : Option Node) : Mem μ :=
  { m with next := Function.update m.next n p }

@[simp] theorem setNext_next_self (m : Mem μ) (n : Node) (p : Option Node) :
    (m.setNext n p).next n = p := by
  simp [setNext]

theorem setNext_next_of_ne (m : Mem μ) {n k : Node} (p : Option Node) (h : k ≠ n) :
    (m.setNext n p).next k = m.next k := by
  simp [setNext, h]

def setData (m : Mem μ) (n : Node) (d : Option μ) : Mem μ :=
  { m with data := Function.update m.data n d }

/-- `write(wakeup_eventfd, 1)`: at its largest value the counter stays as it is (EAGAIN). -/
def writeEventfd (m : Mem μ) : Mem μ :=
  { m with eventfd := if m.eventfd < 2 ^ 64 - 2 then m.eventfd + 1 else m.eventfd }

/-- `dequeue` is about to return the node. -/
def taken (m : Mem μ) (n : Node) : Mem μ :=
  { m with dequeued := m.dequeued ++ [(n, m.data n)] }

/-- What has been enqueued and not been dequeued. -/
def pending (m : Mem μ) : List (Node × Option μ) := m.enqueued.drop m.dequeued.length

end Mem

/-- `ws_mpsc_queue_create`; 0 stands for the default size. -/
def wsMpscQueueCreate (μ : Type) (nodePoolSize : Nat) : Mem μ :=
  let size := if nodePoolSize = 0 then 1024 else nodePoolSize
  { head := none, tail := none, freeHead := some 0, freeLock := none,
    next := fun i => if i + 1 < size then some (i + 1) else none,
    data := fun _ => none, eventfd := 0, enqueued := [], dequeued := [] }

variable {μ : Type}

/-! ## return_node -/

inductive ReturnPc where
  | clear
  | lock
  | loadFree
  | storeNext (oldHead : Option Node)
  | storeFree
  | unlock
  deriving DecidableEq, Repr

/-- A step of `ws_mpsc_queue_return_node`; no program counter is left when it returns, and it
    is blocked while another thread holds the lock. -/
def returnNode (t : Thread) (node : Node) (m : Mem μ) :
    ReturnPc → Option (Mem μ × Option ReturnPc)
  | .clear => some (m.setData node none, some .lock)
  | .lock =>
    if m.freeLock = none then some ({ m with freeLock := some t }, some .loadFree) else none
  | .loadFree => some (m, some (.storeNext m.freeHead))
  | .storeNext oldHead => some (m.setNext node oldHead, some .storeFree)
  | .storeFree => some ({ m with freeHead := some node }, some .unlock)
  | .unlock => some ({ m with freeLock := none }, none)

/-! ## Producers -/

/-- Where a sender is: in `get_node` (with the message still to be stored), in the part that
    allocates the message, in `return_node` when that failed, in `enqueue`, or at the write to
    the eventfd. -/
inductive ProdPc (μ : Type) where
  | idle
  | getLock (msg : μ)
  | getLoadFree (msg : μ)
  | getExhausted
  | getLoadNext (msg : μ) (node : Node)
  | getStoreFree (msg : μ) (node : Node) (nextFree : Option Node)
  | getUnlock (msg : μ) (node : Node)
  | getInit (msg : μ) (node : Node)
  | fill (msg : μ) (node : Node)
  | giveBack (node : Node) (pc : ReturnPc)
  | enqInit (node : Node)
  | enqSwap (node : Node)
  | enqLink (node : Node) (prevTail : Option Node)
  | wake

namespace ProdPc

/-- Inside `ws_mpsc_queue_enqueue`. -/
def enqueuing : ProdPc μ → Bool
  | .enqInit _ => true
  | .enqSwap _ => true
  | .enqLink _ _ => true
  | _ => false

/-- Between the start of the enqueue and the end of the write to the eventfd. -/
def notifying : ProdPc μ → Bool
  | .wake => true
  | pc => pc.enqueuing

/-- The node that has become the tail, and the pointer it found there, while the link to it is
    still to be written. -/
def link : ProdPc μ → Option (Node × Option Node)
  | .enqLink node prevTail => some (node, prevTail)
  | _ => none

end ProdPc

/-- A step of a sender. `allocOk`: the message's allocation succeeds. -/
def prodStep (t : Thread) (allocOk : Bool) (m : Mem μ) : ProdPc μ → Option (Mem μ × ProdPc μ)
  | .idle => none
  | .getLock msg =>
    if m.freeLock = none then some ({ m with freeLock := some t }, .getLoadFree msg) else none
  | .getLoadFree msg =>
    match m.freeHead with
    | none => some (m, .getExhausted)
    | some node => some (m, .getLoadNext msg node)
  | .getExhausted => some ({ m with freeLock := none }, .idle)
  | .getLoadNext msg node => some (m, .getStoreFree msg node (m.next node))
  | .getStoreFree msg node nextFree => some ({ m with freeHead := nextFree }, .getUnlock msg node)
  | .getUnlock msg node => some ({ m with freeLock := none }, .getInit msg node)
  | .getInit msg node => some ((m.setData node none).setNext node none, .fill msg node)
  | .fill msg node =>
    if allocOk then some (m.setData node (some msg), .enqInit node)
    else some (m, .giveBack node .clear)
  | .giveBack node pc =>
    match returnNode t node m pc with
    | none => none
    | some (m, none) => some (m, .idle)
    | some (m, some pc) => some (m, .giveBack node pc)
  | .enqInit node => some (m.setNext node none, .enqSwap node)
  | .enqSwap node =>
    some ({ m with tail := some node, enqueued := m.enqueued ++ [(node, m.data node)] },
      .enqLink node m.tail)
  | .enqLink node (some prevTail) => some (m.setNext prevTail (some node), .wake)
  | .enqLink node none => some ({ m with head := some node }, .wake)
  | .wake => some (m.writeEventfd, .idle)

/-! ## The consumer -/

inductive DequeuePc where
  | loadHead
  | loadNext (head : Node)
  | loadTail (head : Node)
  | spinNext (head : Node)
  | advance (head next : Node)
  | clearHead (head : Node)
  | casTail (head : Node)
  | spinLink (head : Node)
  | republish (head next : Node)
  deriving DecidableEq, Repr

/-- The node being dequeued while `head` is cleared and not yet set again. -/
def DequeuePc.hole : DequeuePc → Option Node
  | .casTail head => some head
  | .spinLink head => some head
  | .republish head _ => some head
  | _ => none

inductive DequeueOut where
  | goOn (pc : DequeuePc)
  | returns (node : Option Node)

/-- A step of `ws_mpsc_queue_dequeue`. -/
def dequeue (m : Mem μ) : DequeuePc → Mem μ × DequeueOut
  | .loadHead =>
    match m.head with
    | none => (m, .returns none)
    | some head => (m, .goOn (.loadNext head))
  | .loadNext head =>
    match m.next head with
    | none => (m, .goOn (.loadTail head))
    | some next => (m, .goOn (.advance head next))
  | .loadTail head =>
    if m.tail = some head then (m, .goOn (.clearHead head)) else (m, .goOn (.spinNext head))
  | .spinNext head =>
    match m.next head with
    | none => (m, .goOn (.spinNext head))
    | some next => (m, .goOn (.advance head next))
  | .advance head next => ({ m with head := some next }.taken head, .returns (some head))
  | .clearHead head => ({ m with head := none }, .goOn (.casTail head))
  | .casTail head =>
    if m.tail = some head then ({ m with tail := none }.taken head, .returns (some head))
    else (m, .goOn (.spinLink head))
  | .spinLink head =>
    match m.next head with
    | none => (m, .goOn (.spinLink head))
    | some next => (m, .goOn (.republish head next))
  | .republish head next => ({ m with head := some next }.taken head, .returns (some head))

/-- A call of `ws_mpsc_process_messages`: for a wakeup or after a timeout, and its counter. -/
structure Batch where
  wakeup : Bool
  processed : Nat
  deriving DecidableEq, Repr

def Batch.maxMessages (b : Batch) : Nat := if b.wakeup then 256 else 10

inductive ConsPc where
  | idle
  | readEventfd
  | dequeue (b : Batch) (pc : DequeuePc)
  | handle (b : Batch) (node : Node)
  | giveBack (b : Batch) (node : Node) (stop : Bool) (pc : ReturnPc)
  deriving DecidableEq, Repr

namespace ConsPc

def dequeuePc : ConsPc → Option DequeuePc
  | .dequeue _ pc => some pc
  | _ => none

/-- The event thread has taken the wakeup event and not finished with it. -/
def handlingWakeup : ConsPc → Bool
  | .idle => false
  | .readEventfd => true
  | .dequeue b _ => b.wakeup
  | .handle b _ => b.wakeup
  | .giveBack b _ _ _ => b.wakeup

end ConsPc

/-- `ws_mpsc_process_messages` returns; a wakeup goes on until a batch processes nothing. -/
def afterBatch (b : Batch) : ConsPc :=
  if b.wakeup = true ∧ 0 < b.processed then .dequeue ⟨true, 0⟩ .loadHead else .idle

/-- A message has been processed; `stop`: it was a shutdown message. -/
def afterMessage (b : Batch) (stop : Bool) : ConsPc :=
  let b := { b with processed := b.processed + 1 }
  if stop = false ∧ b.processed < b.maxMessages then .dequeue b .loadHead else afterBatch b

/-- A step of the event thread. `stop`: the message is a shutdown message. -/
def consStep (stop : Bool) (m : Mem μ) : ConsPc → Option (Mem μ × ConsPc)
  | .idle => none
  | .readEventfd =>
    if 0 < m.eventfd then some ({ m with eventfd := 0 }, .readEventfd)
    else some (m, .dequeue ⟨true, 0⟩ .loadHead)
  | .dequeue b pc =>
    match dequeue m pc with
    | (m, .goOn pc) => some (m, .dequeue b pc)
    | (m, .returns none) => some (m, afterBatch b)
    | (m, .returns (some node)) => some (m, .handle b node)
  | .handle b node => some (m, .giveBack b node stop .clear)
  | .giveBack b node stop pc =>
    match returnNode .consumer node m pc with
    | none => none
    | some (m, none) => some (m, afterMessage b stop)
    | some (m, some pc) => some (m, .giveBack b node stop pc)

/-! ## The system -/

structure State (μ : Type) where
  mem : Mem μ
  prods : Nat → ProdPc μ
  cons : ConsPc

/-- A fresh queue, nobody inside. -/
def State.init (μ : Type) (nodePoolSize : Nat) : State μ :=
  { mem := wsMpscQueueCreate μ nodePoolSize, prods := fun _ => .idle, cons := .idle }

/-- The links due, by producer. -/
def State.links (s : State μ) (i : Nat) : Option (Node × Option Node) := (s.prods i).link

/-- `send`: producer `i` starts to send a message. `prod`, `cons`: the next step of a producer or
    of the consumer. `wakeup`: epoll reports the eventfd. `timeout`: epoll reports nothing. -/
inductive Label (μ : Type) where
  | send (i : Nat) (msg : μ)
  | prod (i : Nat) (allocOk : Bool)
  | wakeup
  | timeout
  | cons (stop : Bool)

def step (s : State μ) : Label μ → Option (State μ)
  | .send i msg =>
    match s.prods i with
    | .idle => some { s with prods := Function.update s.prods i (.getLock msg) }
    | _ => none
  | .prod i allocOk =>
    match prodStep (.producer i) allocOk s.mem (s.prods i) with
    | none => none
    | some (m, pc) => some { s with mem := m, prods := Function.update s.prods i pc }
  | .wakeup =>
    match s.cons with
    | .idle => some { s with cons := .readEventfd }
    | _ => none
  | .timeout =>
    match s.cons with
    | .idle => some { s with cons := .dequeue ⟨false, 0⟩ .loadHead }
    | _ => none
  | .cons stop =>
    match consStep stop s.mem s.cons with
    | none => none
    | some (m, pc) => some { s with mem := m, cons := pc }

end Portico.Mpsc
