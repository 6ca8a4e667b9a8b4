/-
  What readability events leave behind.

  With edge-triggered epoll an event is the only notice of the bytes that have arrived, so a
  handler has to read until the socket would block. `recvEnd` is how `read_into_recv` ended, and
  `event_drains_socket` says that a handler that keeps the connection has read everything exactly if
  the bytes in the receive buffer and those that the socket delivers stay below the limit. A full
  buffer stops the read, and whoever freed it later does not read again
  (`parked_connection_stalls`).

  While a final response drains, input is to be ignored. `draining_ignores_input`: once the flag is
  set on a plain-HTTP connection, no readability event changes anything. The flag is not looked at
  before the connection is classified (`unclassified_answers_twice`).
-/
import Portico.Http.Events

namespace Portico.Http

open Portico.Lib Portico.Ws Portico.Ws.OutConn WebConn List

/-! ## Reading to the end -/

/-- How `read_into_recv` ends. -/
inductive RecvEnd where
  | wouldBlock
  | full
  | eof
  | error
  | noMemory
  deriving DecidableEq, Repr

def chunkEnd (answer : ReadAnswer) (pending : Bytes) : Option RecvEnd :=
  match answer with
  | .again => some .wouldBlock
  | .eof => some .eof
  | .error => some .error
  | .bytes _ => if pending = [] then some .wouldBlock else none

def turnEnd (t : Turn) (buf : RecvBuffer) (pending : Bytes) : Option RecvEnd :=
  if buf.bytes.length = buf.capacity then
    if maxHeaderSize + maxBody ≤ buf.capacity then some .full
    else if !t.reallocOk then some .noMemory
    else chunkEnd t.answer pending
  else chunkEnd t.answer pending

/-- The last round of `read_into_recv`. -/
def recvEnd : List Turn → RecvBuffer → Bytes → RecvEnd
  | [], buf, pending => (turnEnd ⟨true, .again⟩ buf pending).getD .wouldBlock
  | t :: ts, buf, pending =>
    match turnEnd t buf pending with
    | some e => e
    | none => recvEnd ts (recvTurn t buf pending).1 (recvTurn t buf pending).2.1

/-- What `read_into_recv` returns: whether the connection is kept. -/
def RecvEnd.ok : RecvEnd → Bool
  | .wouldBlock | .full => true
  | .eof | .error | .noMemory => false

theorem recvChunk_end (answer : ReadAnswer) (buf : RecvBuffer) (pending : Bytes) :
    (recvChunk answer buf pending).2.2 = (chunkEnd answer pending).map RecvEnd.ok := by
  cases answer with
  | again | eof | error => rfl
  | bytes =>
    unfold recvChunk chunkEnd
    dsimp only
    split <;> rfl

theorem recvTurn_end (t : Turn) (buf : RecvBuffer) (pending : Bytes) :
    (recvTurn t buf pending).2.2 = (turnEnd t buf pending).map RecvEnd.ok := by
  unfold recvTurn turnEnd
  dsimp only
  split
  · split
    · rfl
    split
    · rfl
    · exact recvChunk_end _ _ _
  · exact recvChunk_end _ _ _

theorem turnEnd_none {t : Turn} {buf : RecvBuffer} {pending : Bytes}
    (h : (recvTurn t buf pending).2.2 = none) : turnEnd t buf pending = none := by
  rwa [recvTurn_end, Option.map_eq_none_iff] at h

/-- `read_into_recv` returns 0 when the socket would block or the buffer is full, and -1 when the
    client has stopped sending, on an error and without memory. -/
theorem readIntoRecv_end : ∀ (turns : List Turn) (buf : RecvBuffer) (pending : Bytes),
    (readIntoRecv turns buf pending).2.2 = (recvEnd turns buf pending).ok := by
  intro turns
  induction turns with
  | nil =>
    intro buf pending
    have hend := recvTurn_end ⟨true, .again⟩ buf pending
    unfold readIntoRecv recvEnd
    dsimp only
    rw [hend]
    cases turnEnd ⟨true, .again⟩ buf pending <;> rfl
  | cons t ts ih =>
    intro buf pending
    have hend := recvTurn_end t buf pending
    unfold readIntoRecv recvEnd
    rcases hr : recvTurn t buf pending with ⟨buf1, pending1, done⟩
    rw [hr] at hend
    cases he : turnEnd t buf pending with
    | none =>
      rw [he] at hend
      cases hend
      exact ih buf1 pending1
    | some =>
      rw [he] at hend
      cases hend
      rfl

/-! ### The limit -/

/-- The capacity that the next byte finds, if the buffer may always be doubled. -/
def doubled (capacity used : Nat) : Nat :=
  if used = capacity then if capacity = 0 then 16384 else capacity * 2 else capacity

/-- The bytes that the socket delivers before it would block, to a buffer that may always be
    doubled. -/
def delivered : List Turn → (capacity used : Nat) → Bytes → Nat
  | [], _, _, _ => 0
  | t :: ts, capacity, used, pending =>
    match t.answer with
    | .bytes n =>
      let capacity := doubled capacity used
      let got := min (min (n + 1) (capacity - used)) pending.length
      got + delivered ts capacity (used + got) (pending.drop got)
    | _ => 0

theorem delivered_nil : ∀ (turns : List Turn) (capacity used : Nat),
    delivered turns capacity used [] = 0 := by
  intro turns
  induction turns with
  | nil => exact fun _ _ => rfl
  | cons t ts ih =>
    intro capacity used
    unfold delivered
    cases t.answer with
    | bytes => simp [ih]
    | again | eof | error => rfl

/-- Above the limit the capacity makes no difference. -/
theorem delivered_capacity {limit : Nat} : ∀ (turns : List Turn) {capacity capacity' used : Nat}
    (pending : Bytes), limit ≤ capacity → limit ≤ capacity' →
    (used + delivered turns capacity used pending < limit ↔
      used + delivered turns capacity' used pending < limit) := by
  intro turns
  induction turns with
  | nil => exact fun _ _ _ => Iff.rfl
  | cons t ts ih =>
    intro capacity capacity' used pending hc hc'
    by_cases hused : limit ≤ used
    · exact iff_of_false (by omega) (by omega)
    unfold delivered
    cases t.answer with
    | again | eof | error => exact Iff.rfl
    | bytes n =>
      have hd : doubled capacity used = capacity := if_neg (by omega)
      have hd' : doubled capacity' used = capacity' := if_neg (by omega)
      simp only [hd, hd']
      by_cases hfits : used + min (n + 1) pending.length < limit
      · have hgot : ∀ {C}, limit ≤ C →
            min (min (n + 1) (C - used)) pending.length = min (n + 1) pending.length := by
          intro C hC
          omega
        rw [hgot hc, hgot hc', ← Nat.add_assoc, ← Nat.add_assoc]
        exact ih _ hc hc'
      · exact iff_of_false (by omega) (by omega)

/-- What a round does with the read: it returns, or the socket had bytes. -/
theorem chunkEnd_cases (answer : ReadAnswer) (pending : Bytes) :
    (chunkEnd answer pending = some .wouldBlock ∧
        ∀ ts capacity used, delivered (⟨true, answer⟩ :: ts) capacity used pending = 0) ∨
      chunkEnd answer pending = some .eof ∨ chunkEnd answer pending = some .error ∨
      chunkEnd answer pending = none ∧ pending ≠ [] ∧ ∃ n, answer = .bytes n := by
  cases answer with
  | again => exact .inl ⟨rfl, fun _ _ _ => rfl⟩
  | eof => exact .inr (.inl rfl)
  | error => exact .inr (.inr (.inl rfl))
  | bytes n =>
    unfold chunkEnd
    by_cases hnil : pending = []
    · subst hnil
      exact .inl ⟨rfl, fun _ _ _ => delivered_nil _ _ _⟩
    · exact .inr (.inr (.inr ⟨if_neg hnil, hnil, n, rfl⟩))

theorem recvChunk_bytes {n : Nat} {pending : Bytes} (hne : pending ≠ []) (buf : RecvBuffer) :
    recvChunk (.bytes n) buf pending =
      ({ buf with bytes :=
          buf.bytes ++ pending.take (min (n + 1) (buf.capacity - buf.bytes.length)) },
        pending.drop (min (n + 1) (buf.capacity - buf.bytes.length)), none) :=
  if_neg hne

/-- A read that does not fail ends at would-block exactly if the buffered and the delivered bytes
    stay below the limit. -/
def BlocksBelow (turns : List Turn) (buf : RecvBuffer) (pending : Bytes) : Prop :=
  recvEnd turns buf pending = .wouldBlock ∨ recvEnd turns buf pending = .full →
    (recvEnd turns buf pending = .wouldBlock ↔
      buf.bytes.length + delivered turns buf.capacity buf.bytes.length pending <
        max buf.capacity (maxHeaderSize + maxBody))

variable {t : Turn} {ts : List Turn} {buf : RecvBuffer} {pending : Bytes} {capacity : Nat}

/-- A round that reads into a buffer of that capacity: the one of a buffer without limit, or the
    limit. -/
theorem blocksBelow_read
    (ih : ∀ buf pending, buf.bytes.length ≤ buf.capacity → BlocksBelow ts buf pending)
    (hroom : buf.bytes.length < capacity)
    (hcap : capacity = doubled buf.capacity buf.bytes.length ∧
        max capacity (maxHeaderSize + maxBody) = max buf.capacity (maxHeaderSize + maxBody) ∨
      capacity = maxHeaderSize + maxBody ∧ buf.capacity < capacity ∧
        capacity < doubled buf.capacity buf.bytes.length)
    (hturn : turnEnd t buf pending = chunkEnd t.answer pending)
    (hrecv : recvTurn t buf pending = recvChunk t.answer ⟨buf.bytes, capacity⟩ pending) :
    BlocksBelow (t :: ts) buf pending := by
  intro hend
  unfold recvEnd at hend ⊢
  rw [hturn] at hend ⊢
  obtain ⟨hblock, hzero⟩ | heof | herror | ⟨hnone, hne, n, hn⟩ := chunkEnd_cases t.answer pending
  · rw [hblock,
      show delivered (t :: ts) buf.capacity buf.bytes.length pending = 0 from hzero ts _ _]
    exact iff_of_true rfl (by omega)
  · rw [heof] at hend
    obtain h | h := hend <;> cases h
  · rw [herror] at hend
    obtain h | h := hend <;> cases h
  rw [hnone] at hend ⊢
  rw [hrecv, hn, recvChunk_bytes hne] at hend ⊢
  generalize hgot : min (n + 1) (capacity - buf.bytes.length) = got at hend ⊢
  have hlen :
      (buf.bytes ++ pending.take got).length = buf.bytes.length + min got pending.length := by
    rw [length_append, length_take]
  have hnext := ih _ _ (by rw [hlen]; show _ ≤ capacity; omega) hend
  simp only [hlen] at hnext
  have hdrop : pending.drop got = pending.drop (min got pending.length) := by
    rcases Nat.le_total got pending.length with hle | hle
    · rw [Nat.min_eq_left hle]
    · rw [Nat.min_eq_right hle, drop_eq_nil_of_le hle, drop_length]
  rw [hnext, hdrop, delivered]
  simp only [hn]
  rw [← Nat.add_assoc]
  obtain ⟨hsame, hmax⟩ | ⟨hlimit, hbelow, habove⟩ := hcap
  · rw [← hsame, hgot, hmax]
  · rw [← hlimit, Nat.max_self, Nat.max_eq_right (Nat.le_of_lt hbelow)]
    by_cases hfits : buf.bytes.length + min (n + 1) pending.length ≤ capacity
    · rw [show min (min (n + 1) (doubled buf.capacity buf.bytes.length - buf.bytes.length))
        pending.length = min got pending.length by omega]
      exact delivered_capacity ts _ (Nat.le_refl _) (Nat.le_of_lt habove)
    · exact iff_of_false (by omega) (by omega)

theorem blocksBelow : ∀ (turns : List Turn) (buf : RecvBuffer) (pending : Bytes),
    buf.bytes.length ≤ buf.capacity → BlocksBelow turns buf pending := by
  intro turns
  induction turns with
  | nil =>
    intro buf pending hused _
    unfold recvEnd turnEnd delivered
    split
    · split
      · exact iff_of_false RecvEnd.noConfusion (by omega)
      · exact iff_of_true rfl (by omega)
    · exact iff_of_true rfl (by omega)
  | cons t ts ih =>
    intro buf pending hused
    by_cases hfull : buf.bytes.length = buf.capacity
    · by_cases hhard : maxHeaderSize + maxBody ≤ buf.capacity
      · have hturn : turnEnd t buf pending = some .full := by
          rw [turnEnd, if_pos hfull, if_pos hhard]
        intro _
        rw [recvEnd, hturn]
        exact iff_of_false RecvEnd.noConfusion (by omega)
      cases hre : t.reallocOk with
      | false =>
        have hturn : turnEnd t buf pending = some .noMemory := by
          rw [turnEnd, if_pos hfull, if_neg hhard, hre]
          rfl
        intro hend
        rw [recvEnd, hturn] at hend
        obtain h | h := hend <;> cases h
      | true =>
        have hgrown : (if buf.capacity = 0 then 16384 else sizeMul buf.capacity 2) =
            doubled buf.capacity buf.bytes.length := by
          rw [doubled, if_pos hfull, sizeMul, Nat.mod_eq_of_lt]
          unfold maxHeaderSize maxBody at hhard
          omega
        have hmore : buf.capacity < doubled buf.capacity buf.bytes.length := by
          rw [doubled, if_pos hfull]
          split <;> omega
        refine @blocksBelow_read t ts buf pending
          (min (doubled buf.capacity buf.bytes.length) (maxHeaderSize + maxBody)) ih (by omega)
          (by omega) ?_ ?_
        · rw [turnEnd, if_pos hfull, if_neg hhard, hre]
          rfl
        · simp only [recvTurn, if_pos hfull, if_neg hhard, hre, hgrown]
          rfl
    · have hsame : doubled buf.capacity buf.bytes.length = buf.capacity := if_neg hfull
      refine blocksBelow_read ih (by omega) (.inl ⟨hsame.symm, rfl⟩) ?_ ?_
      · rw [turnEnd, if_neg hfull]
      · simp only [recvTurn, if_neg hfull]

/-! ### The handlers -/

/-- A handler that keeps the connection, and does not wait for its output to drain, has read until
    the socket would block exactly if the bytes in the receive buffer and those that the socket
    delivers stay below the limit. -/
theorem event_drains_socket (srv : WebServer) (c c' : WebConn) (turns : List Turn)
    (script : List Env)
    (h : c.porticoHttpEvent srv turns script = (c', true) ∨
      c.porticoInitialDispatch srv turns script = (c', true))
    (hflag : c'.closeWhenDrained = false) (hused : c.recv.bytes.length ≤ c.recv.capacity) :
    recvEnd turns c.recv c.pending = .wouldBlock ↔
      c.recv.bytes.length + delivered turns c.recv.capacity c.recv.bytes.length c.pending <
        max c.recv.capacity (maxHeaderSize + maxBody) := by
  have hread : ∃ recv pending, readIntoRecv turns c.recv c.pending = (recv, pending, true) := by
    rcases hr : readIntoRecv turns c.recv c.pending with ⟨recv, pending, _ | _⟩
    · exfalso
      rcases h with h | h
      · unfold porticoHttpEvent at h
        split at h
        · rename_i hset
          cases h
          rw [hset] at hflag
          cases hflag
        · rw [hr] at h
          cases h
      · unfold WebConn.porticoInitialDispatch at h
        rw [hr] at h
        cases h
    · exact ⟨recv, pending, rfl⟩
  obtain ⟨recv, pending, hr⟩ := hread
  have hend := readIntoRecv_end turns c.recv c.pending
  rw [hr] at hend
  refine blocksBelow turns c.recv c.pending hused ?_
  cases he : recvEnd turns c.recv c.pending with
  | wouldBlock => exact .inl rfl
  | full => exact .inr rfl
  | eof | error | noMemory => rw [he] at hend; cases hend

theorem event_drains_socket_answered :
    ∃ c', (WebConn.accepted false (ascii "GET / HTTP/1.1\r\n\r\n")).porticoInitialDispatch
        (pathServer false) [⟨true, .bytes 99⟩, ⟨true, .again⟩] [.taking] = (c', true) ∧
      c'.closeWhenDrained = false ∧ (dispatches c'.trace).length = 1 ∧
      recvEnd [⟨true, .bytes 99⟩, ⟨true, .again⟩] ⟨[], 16384⟩ (ascii "GET / HTTP/1.1\r\n\r\n") =
        .wouldBlock :=
  ⟨_, rfl, rfl, by decide, (event_drains_socket (pathServer false)
    (WebConn.accepted false (ascii "GET / HTTP/1.1\r\n\r\n")) _ _ [.taking] (.inr rfl) rfl
    (by decide)).mpr (by decide)⟩

/-! ### A full buffer -/

/-- The capacities of a receive buffer that is filled again and again. -/
def grownTo (k : Nat) : Nat := min (16384 * 2 ^ k) (maxHeaderSize + maxBody)

/-- A round that finds the buffer full and the socket full of bytes. -/
theorem recvTurn_fills (bytes : Bytes) (k : Nat) (hroom : grownTo k < maxHeaderSize + maxBody)
    (hmore : grownTo k < bytes.length) :
    recvTurn ⟨true, .bytes (maxHeaderSize + maxBody)⟩ ⟨bytes.take (grownTo k), grownTo k⟩
        (bytes.drop (grownTo k)) =
      (⟨bytes.take (grownTo (k + 1)), grownTo (k + 1)⟩, bytes.drop (grownTo (k + 1)), none) := by
  have hpow : 16384 * 2 ^ (k + 1) = 16384 * 2 ^ k * 2 := by rw [Nat.pow_succ, Nat.mul_assoc]
  have hk : grownTo k = 16384 * 2 ^ k := by unfold grownTo at hroom ⊢; omega
  have hpos : 0 < 2 ^ k := Nat.two_pow_pos k
  have hgrow : grownTo (k + 1) = min (grownTo k * 2) (maxHeaderSize + maxBody) := by
    rw [hk, ← hpow]; rfl
  have hsize : sizeMul (grownTo k) 2 = grownTo k * 2 := by
    unfold sizeMul
    refine Nat.mod_eq_of_lt ?_
    unfold maxHeaderSize maxBody at hroom
    omega
  have hfull : (bytes.take (grownTo k)).length = grownTo k := by
    rw [length_take]
    omega
  have hrest : bytes.drop (grownTo k) ≠ [] := by
    rw [Ne, drop_eq_nil_iff]
    omega
  have hread : min (maxHeaderSize + maxBody + 1)
      (min (grownTo k * 2) (maxHeaderSize + maxBody) - grownTo k) =
        grownTo (k + 1) - grownTo k := by
    omega
  unfold recvTurn
  dsimp only
  rw [if_pos hfull, if_neg (by omega), if_neg (by decide), if_neg (by omega), hsize]
  unfold recvChunk
  dsimp only
  rw [if_neg hrest, hfull, hread, ← hgrow]
  have htake : bytes.take (grownTo k) ++ (bytes.drop (grownTo k)).take
      (grownTo (k + 1) - grownTo k) = bytes.take (grownTo (k + 1)) := by
    rw [← take_add]
    congr 1
    omega
  have hdrop : (bytes.drop (grownTo k)).drop (grownTo (k + 1) - grownTo k) =
      bytes.drop (grownTo (k + 1)) := by
    rw [drop_drop]
    congr 1
    omega
  rw [htake, hdrop]

theorem grownTo_lt {k : Nat} (hk : k ≤ 10) : grownTo k < maxHeaderSize + maxBody := by
  have : 2 ^ k ≤ 2 ^ 10 := Nat.pow_le_pow_right (by decide) hk
  unfold grownTo maxHeaderSize maxBody
  omega

/-- The socket has more bytes than fit into the receive buffer. -/
def floodTurn : Turn := ⟨true, .bytes (maxHeaderSize + maxBody)⟩

/-- The first read of a connection that finds more bytes than its buffer takes. -/
theorem recvTurn_first {bytes : Bytes} (hne : bytes ≠ []) :
    recvTurn floodTurn ⟨[], 16384⟩ bytes =
      (⟨bytes.take (grownTo 0), grownTo 0⟩, bytes.drop (grownTo 0), none) := by
  unfold recvTurn recvChunk floodTurn
  dsimp only
  rw [if_neg (by decide), if_neg hne]
  rfl

/-- A buffer is filled, and the read stops. -/
theorem readIntoRecv_fills {bytes : Bytes} (hlen : maxHeaderSize + maxBody < bytes.length) :
    ∀ j ≤ 11,
      readIntoRecv (replicate j floodTurn)
          ⟨bytes.take (grownTo (11 - j)), grownTo (11 - j)⟩ (bytes.drop (grownTo (11 - j))) =
        (⟨bytes.take (grownTo 11), grownTo 11⟩, bytes.drop (grownTo 11), true) ∧
      recvEnd (replicate j floodTurn)
          ⟨bytes.take (grownTo (11 - j)), grownTo (11 - j)⟩ (bytes.drop (grownTo (11 - j))) =
        .full := by
  intro j
  induction j with
  | zero =>
    intro _
    have htop : grownTo 11 = maxHeaderSize + maxBody := by decide
    have hfull : (bytes.take (maxHeaderSize + maxBody)).length = maxHeaderSize + maxBody := by
      rw [length_take]
      omega
    rw [Nat.sub_zero, htop]
    constructor
    · simp only [replicate_zero, readIntoRecv, recvTurn, if_pos hfull, Nat.le_refl, if_true,
        Option.getD_some]
    · simp only [replicate_zero, recvEnd, turnEnd, if_pos hfull, Nat.le_refl, if_true,
        Option.getD_some]
  | succ j ih =>
    intro hj
    obtain ⟨hread, hend⟩ := ih (by omega)
    have hk : 11 - j = 11 - (j + 1) + 1 := by omega
    rw [hk] at hread hend
    have hroom := grownTo_lt (k := 11 - (j + 1)) (by omega)
    have hmore : grownTo (11 - (j + 1)) < bytes.length :=
      Nat.lt_of_le_of_lt (Nat.min_le_right _ _) hlen
    have hstep : recvTurn floodTurn _ _ = _ := recvTurn_fills bytes (11 - (j + 1)) hroom hmore
    rw [replicate_succ, readIntoRecv, recvEnd, turnEnd_none (by rw [hstep]), hstep]
    exact ⟨hread, hend⟩

/-- A connection whose first request waits for a file. -/
theorem parked_connection (rest : Bytes) :
    ∃ c, run (webStep (pathServer true))
        (WebConn.accepted false (ascii "GET /f HTTP/1.1\r\n\r\n" ++ rest))
        [.readable .wants [⟨true, .bytes 18⟩, ⟨true, .again⟩] []] = some c ∧
      c.recv = ⟨[], 16384⟩ ∧ c.pending = rest ∧ c.closeWhenDrained = false ∧
      c.asyncInflight = true :=
  ⟨_, rfl, rfl, rfl, rfl, rfl⟩

/-- The client pipelines more requests behind one for a file than the receive buffer can hold.
    The event that the last of them cause ends with a full buffer, and leaves bytes unread. -/
theorem parked_connection_stalls :
    ∃ input c c' turns,
      run (webStep (pathServer true)) (WebConn.accepted false input)
        [.readable .wants [⟨true, .bytes 18⟩, ⟨true, .again⟩] []] = some c ∧
      c.porticoHttpEvent (pathServer true) turns [] = (c', true) ∧
      c'.closeWhenDrained = false ∧ recvEnd turns c.recv c.pending ≠ .wouldBlock ∧
      c'.pending ≠ [] := by
  generalize hflood : (replicate 1000000 (ascii "GET / HTTP/1.1\r\n\r\n")).flatten = flood
  have hlen : flood.length = 18000000 := by
    rw [← hflood, length_flatten, map_replicate, sum_replicate_nat]
    rfl
  have hmax : maxHeaderSize + maxBody < flood.length := by rw [hlen]; decide
  obtain ⟨hread, hend⟩ := readIntoRecv_fills hmax 11 (Nat.le_refl 11)
  obtain ⟨c, hrun, hrecv, hpend, hflag, hin⟩ := parked_connection flood
  have hne : flood ≠ [] := ne_nil_of_length_pos (by omega)
  have hfirst := recvTurn_first hne
  have hall : readIntoRecv (replicate 12 floodTurn) c.recv c.pending =
      (⟨flood.take (grownTo 11), grownTo 11⟩, flood.drop (grownTo 11), true) := by
    rw [hrecv, hpend, replicate_succ, readIntoRecv, hfirst]
    exact hread
  refine ⟨_, c, c.afterRead ⟨flood.take (grownTo 11), grownTo 11⟩ (flood.drop (grownTo 11)),
    replicate 12 floodTurn, hrun, ?_, hflag, ?_, ?_⟩
  · unfold porticoHttpEvent
    rw [hflag, if_neg Bool.false_ne_true, hall]
    show (if c.asyncInflight then _ else _) = _
    rw [hin, if_pos rfl]
  · rw [hrecv, hpend, replicate_succ, recvEnd, turnEnd_none (by rw [hfirst]), hfirst]
    rw [show recvEnd _ _ _ = RecvEnd.full from hend]
    decide
  · show flood.drop (grownTo 11) ≠ []
    rw [Ne, drop_eq_nil_iff, hlen]
    decide

/-! ## Ignoring input -/

/-- The connection is closed, or waits for its output to drain. -/
def Draining (c : WebConn) : Prop :=
  c.out.closed = true ∨ (c.closeWhenDrained = true ∧ c.out.state = .http)

theorem draining_step {srv : WebServer} (c : WebConn) (ev : WebEvent) (c' : WebConn)
    (hc : Draining c) (h : webStep srv c ev = some c') : Draining c' := by
  refine webStep_rule (J := fun _ c => c.closeWhenDrained = true ∧ c.out.state = .http)
    (fun _ hdrop => .inl hdrop.closed) (fun hopen hd hentry => ?_) (fun hround hd => ?_)
    (fun {c} ok deferring hd => ?_) c ev c' hc h
  · rcases hd with hclosed | ⟨hflag, hstate⟩
    · rw [hopen] at hclosed; cases hclosed
    · exact ⟨hentry.keeps.flag hflag, hentry.keeps.1 hstate⟩
  · exact ⟨hround.keeps.flag hd.1, hround.keeps.1 hd.2⟩
  · have hkeep := leave_keeps c deferring ok
    exact .inr ⟨hkeep.flag hd.1, hkeep.1 hd.2⟩

/-- When the flag has been set on a plain-HTTP connection, a readability event changes nothing any
    more, however the run goes on. -/
theorem draining_ignores_input (srv : WebServer) (c : WebConn)
    (hflag : c.closeWhenDrained = true) (hstate : c.out.state = .http) (events : List WebEvent)
    (c' : WebConn) (hrun : run (webStep srv) c events = some c') (tls : TlsStep)
    (turns : List Turn) (script : List Env) (c'' : WebConn)
    (h : webStep srv c' (.readable tls turns script) = some c'') : c'' = c' := by
  have hdraining : Draining c' :=
    run_invariant_all (@draining_step srv) events c c' (.inr ⟨hflag, hstate⟩) hrun
  unfold webStep at h
  split at h
  · cases h
  rename_i hopen
  rcases hdraining with hclosed | ⟨hflag', hstate'⟩
  · exact absurd hclosed hopen
  · simp only [WebConn.handleConnectionRead, hstate', porticoHttpEvent, hflag', if_true,
      Option.map_some, Option.some.injEq] at h
    exact h.symm

/-- The answer to a request without keep-alive waits for the socket, and another request comes. -/
theorem draining_ignores_input_blocked :
    ∃ c c'', run (webStep (pathServer false))
        (WebConn.accepted false (ascii "GET / HTTP/1.0\r\n\r\nGET / HTTP/1.0\r\n\r\n"))
        [.readable .wants [⟨true, .bytes 17⟩, ⟨true, .again⟩] []] = some c ∧
      c.closeWhenDrained = true ∧ c.out.state = .http ∧ c.pending ≠ [] ∧
      webStep (pathServer false) c (.readable .wants [⟨true, .bytes 99⟩] [.taking]) = some c'' ∧
      c'' = c :=
  ⟨_, _, rfl, rfl, rfl, by decide, rfl,
    draining_ignores_input (pathServer false) _ rfl rfl [] _ rfl .wants [⟨true, .bytes 99⟩]
      [.taking] _ rfl⟩

/-- Without a handler for plain HTTP a request is refused before the connection is classified. If
    the refusal has to wait for the socket, the next readability event queues it again. -/
theorem unclassified_answers_twice :
    ∃ c c', run (webStep { pathServer false with handle := none })
        (WebConn.accepted false (ascii "GET / HTTP/1.1\r\n\r\n"))
        [.readable .wants [⟨true, .bytes 99⟩] []] = some c ∧
      c.closeWhenDrained = true ∧
      webStep { pathServer false with handle := none } c (.readable .wants [] []) = some c' ∧
      c'.trace.length = c.trace.length + 1 ∧
      c'.out.out.unsent.length = 2 * c.out.out.unsent.length ∧ c.out.out.unsent ≠ [] :=
  ⟨_, _, rfl, rfl, rfl, rfl, by decide, by decide⟩

end Portico.Http
