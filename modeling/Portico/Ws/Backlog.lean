/-
  The output buffer of a connection together with its EPOLLOUT registration:
  `conn_set_epollout`, `portico_conn_send` and `portico_conn_on_writable` of
  src/http/connection.c.

  Model. `PolledConn` is the output side of `Portico.Ws.Outbound` with one more bit, whether the
  connection's epoll registration asks for EPOLLOUT. A send arms it when the socket would block;
  the handler of a writable socket disarms it when nothing is left, without looking at what
  `epoll_ctl` says. What that handler goes on to send for a file stream are further sends of the
  run. `polledSend_conn` is the connection to `Portico.Ws.Outbound`.

  Proved: `backlog_stream`, in every run whose sends have all succeeded so far, what the socket
  has taken and what is still buffered are together the bytes that were sent, the indices and
  the capacity are in order, and EPOLLOUT is armed while bytes are buffered.
-/
import Portico.Ws.Outbound

namespace Portico.Ws

open Portico.Lib OutConn

structure PolledConn where
  conn : OutConn
  armed : Bool
  deriving DecidableEq, Repr

namespace PolledConn

/-- `ok`: `epoll_ctl` succeeds. -/
def connSetEpollout (p : PolledConn) (ok wantOut : Bool) : PolledConn :=
  if ok then { p with armed := wantOut } else p

/-- The EAGAIN branch of `portico_conn_send`. -/
def polledBlocked (reallocOk epollOk : Bool) (p : PolledConn) (rest : Bytes) :
    PolledConn × Bool :=
  match connOutAppend reallocOk p.conn rest with
  | (c, false) => ({ p with conn := c }, false)
  | (c, true) => ({ p with conn := c }.connSetEpollout epollOk true, epollOk)

/-- The inline loop of `portico_conn_send`. -/
def polledLoop (reallocOk epollOk : Bool) :
    List WriteAnswer → PolledConn → Bytes → PolledConn × Bool
  | [], p, rest =>
    if rest = [] then (p, true)
    else if p.conn.shut then (p, false)
    else polledBlocked reallocOk epollOk p rest
  | a :: answers, p, rest =>
    if rest = [] then (p, true)
    else match p.conn.socketWrite rest a with
      | (c, .took n) => polledLoop reallocOk epollOk answers { p with conn := c } (rest.drop n)
      | (c, .again) => polledBlocked reallocOk epollOk { p with conn := c } rest
      | (c, .fail) => ({ p with conn := c }, false)

/-- `portico_conn_send`, with what it does to the registration. -/
def polledSend (answers : List WriteAnswer) (reallocOk epollOk : Bool) (p : PolledConn)
    (buf : Bytes) : PolledConn × Bool :=
  if p.conn.out.backlog then
    match connOutAppend reallocOk p.conn buf with
    | (c, ok) => ({ p with conn := c }, ok)
  else polledLoop reallocOk epollOk answers p buf

/-- `portico_conn_on_writable` up to where it goes on with a stream or finishes a close;
    `false` stands for a write error. -/
def polledWritable (answers : List WriteAnswer) (epollOk : Bool) (p : PolledConn) :
    PolledConn × Bool :=
  match connOutDrain answers p.conn with
  | (c, false) => ({ p with conn := c }, false)
  | (c, true) =>
    if c.out.backlog then ({ p with conn := c }, true)
    else ({ p with conn := c }.connSetEpollout epollOk false, true)

end PolledConn

open PolledConn

/-! ## The registration does not change what is sent -/

theorem polledBlocked_conn (reallocOk epollOk : Bool) (p : PolledConn) (rest : Bytes) :
    ((polledBlocked reallocOk epollOk p rest).1.conn, (polledBlocked reallocOk epollOk p rest).2) =
      sendBlocked reallocOk epollOk p.conn rest := by
  unfold polledBlocked sendBlocked
  rcases connOutAppend reallocOk p.conn rest with ⟨c, _ | _⟩
  · rfl
  · cases epollOk <;> rfl

theorem polledLoop_conn (reallocOk epollOk : Bool) :
    ∀ (answers : List WriteAnswer) (p : PolledConn) (rest : Bytes),
      ((polledLoop reallocOk epollOk answers p rest).1.conn,
        (polledLoop reallocOk epollOk answers p rest).2) =
        sendLoop reallocOk epollOk answers p.conn rest := by
  intro answers
  induction answers with
  | nil =>
    intro p rest
    unfold polledLoop sendLoop
    by_cases hr : rest = []
    · rw [if_pos hr, if_pos hr]
    rw [if_neg hr, if_neg hr]
    cases p.conn.shut with
    | true => rfl
    | false => exact polledBlocked_conn reallocOk epollOk p rest
  | cons a answers ih =>
    intro p rest
    unfold polledLoop sendLoop
    by_cases hr : rest = []
    · rw [if_pos hr, if_pos hr]
    rw [if_neg hr, if_neg hr]
    rcases p.conn.socketWrite rest a with ⟨c, n | _ | _⟩
    · exact ih { p with conn := c } (rest.drop n)
    · exact polledBlocked_conn reallocOk epollOk { p with conn := c } rest
    · rfl

/-- A send is the one of `Portico.Ws.Outbound`. -/
theorem polledSend_conn (answers : List WriteAnswer) (reallocOk epollOk : Bool) (p : PolledConn)
    (buf : Bytes) :
    ((polledSend answers reallocOk epollOk p buf).1.conn,
      (polledSend answers reallocOk epollOk p buf).2) =
      porticoConnSend answers reallocOk epollOk p.conn buf := by
  unfold polledSend porticoConnSend
  cases p.conn.out.backlog with
  | true => rfl
  | false => exact polledLoop_conn reallocOk epollOk answers p buf

theorem polledWritable_conn (answers : List WriteAnswer) (epollOk : Bool) (p : PolledConn) :
    (polledWritable answers epollOk p).1.conn = (connOutDrain answers p.conn).1 := by
  unfold polledWritable
  rcases connOutDrain answers p.conn with ⟨c, _ | _⟩
  · rfl
  · dsimp only
    split
    · rfl
    · cases epollOk <;> rfl

/-! ## The buffer's indices -/

/-- The queued bytes fit the buffer, and the buffer its limit. -/
def OutBuffer.Fits (b : OutBuffer) : Prop := b.bytes.length ≤ b.capacity ∧ b.capacity ≤ outMax

theorem le_doubleUntil (need : Nat) :
    ∀ (k nc : Nat), 0 < nc → need ≤ nc + k → need ≤ doubleUntil need k nc := by
  intro k
  induction k with
  | zero => intro nc _ h; exact h
  | succ k ih =>
    intro nc hpos h
    unfold doubleUntil
    split
    · exact ih (nc * 2) (by omega) (by omega)
    · omega

theorem connOutAppend_fits (reallocOk : Bool) {c : OutConn} (h : c.out.Fits) (buf : Bytes) :
    (connOutAppend reallocOk c buf).1.out.Fits := by
  have hout : OutBuffer.Fits (if 0 < c.out.sent then c.out.reclaim else c.out) := by
    split
    · refine ⟨?_, h.2⟩
      have hle := h.1
      show (c.out.bytes.drop c.out.sent).length ≤ c.out.capacity
      rw [List.length_drop]
      omega
    · exact h
  simp only [connOutAppend]
  generalize (if 0 < c.out.sent then c.out.reclaim else c.out) = out at hout ⊢
  by_cases hmax : outMax < out.bytes.length + buf.length
  · rw [if_pos hmax]
    exact hout
  rw [if_neg hmax]
  have hpushed : ∀ capacity, out.bytes.length + buf.length ≤ capacity → capacity ≤ outMax →
      (out.push buf capacity).Fits := by
    intro capacity hle hcap
    refine ⟨?_, hcap⟩
    show (out.bytes ++ buf).length ≤ capacity
    rw [List.length_append]
    exact hle
  by_cases hgrow : out.capacity < out.bytes.length + buf.length
  · rw [if_pos hgrow]
    cases reallocOk with
    | false => exact hout
    | true =>
      have hdouble := le_doubleUntil (out.bytes.length + buf.length)
        (out.bytes.length + buf.length) (if out.capacity = 0 then 8192 else out.capacity)
        (by split <;> omega) (by omega)
      exact hpushed _ (Nat.le_min.mpr ⟨hdouble, Nat.not_lt.mp hmax⟩) (Nat.min_le_right _ _)
  · rw [if_neg hgrow]
    exact hpushed _ (Nat.not_lt.mp hgrow) hout.2

theorem connOutDrain_fits :
    ∀ (answers : List WriteAnswer) {c : OutConn}, c.out.Fits →
      (connOutDrain answers c).1.out.Fits := by
  have hone : ∀ (c : OutConn) (a : WriteAnswer), c.out.Fits → (c.drainOnce a).1.out.Fits := by
    intro c a h
    obtain ⟨_, hout, _⟩ := socketWrite_spec c c.out.unsent a
    unfold drainOnce
    cases c.out.backlog with
    | false => exact ⟨Nat.zero_le _, h.2⟩
    | true =>
      rw [if_pos rfl]
      rcases hr : c.socketWrite c.out.unsent a with ⟨c1, n | _ | _⟩ <;>
        rw [hr] at hout <;> simp only at hout ⊢ <;> rw [hout] <;> exact h
  intro answers
  induction answers with
  | nil => intro c h; exact hone c .again h
  | cons a answers ih =>
    intro c h
    have h1 := hone c a h
    unfold connOutDrain
    rcases hr : c.drainOnce a with ⟨c1, _ | ok⟩ <;> rw [hr] at h1
    · exact ih h1
    · exact h1

/-! ## Armed while bytes are buffered -/

/-- What holds between sends and writable events. -/
structure BacklogInv (p : PolledConn) : Prop where
  fits : p.conn.out.Fits
  armed : p.conn.out.backlog = true → p.armed = true

variable {p : PolledConn}

theorem polledBlocked_inv (reallocOk epollOk : Bool) (h : BacklogInv p) (rest : Bytes)
    (hok : (polledBlocked reallocOk epollOk p rest).2 = true) :
    BacklogInv (polledBlocked reallocOk epollOk p rest).1 := by
  have hfits := connOutAppend_fits reallocOk h.fits rest
  unfold polledBlocked at hok ⊢
  rcases hr : connOutAppend reallocOk p.conn rest with ⟨c, _ | _⟩ <;> rw [hr] at hok hfits
  · cases hok
  · dsimp only at hok
    subst hok
    exact ⟨hfits, fun _ => rfl⟩

theorem polledLoop_inv (reallocOk epollOk : Bool) :
    ∀ (answers : List WriteAnswer) {p : PolledConn} (rest : Bytes), BacklogInv p →
      (polledLoop reallocOk epollOk answers p rest).2 = true →
      BacklogInv (polledLoop reallocOk epollOk answers p rest).1 := by
  intro answers
  induction answers with
  | nil =>
    intro p rest h hok
    unfold polledLoop at hok ⊢
    by_cases hr : rest = []
    · rw [if_pos hr]
      exact h
    rw [if_neg hr] at hok ⊢
    cases hs : p.conn.shut with
    | true =>
      rw [hs] at hok
      cases hok
    | false =>
      rw [hs] at hok
      exact polledBlocked_inv reallocOk epollOk h rest hok
  | cons a answers ih =>
    intro p rest h hok
    obtain ⟨_, hout, _⟩ := socketWrite_spec p.conn rest a
    unfold polledLoop at hok ⊢
    by_cases hr : rest = []
    · rw [if_pos hr]
      exact h
    rw [if_neg hr] at hok ⊢
    -- a write leaves the buffer alone
    have hwritten : ∀ c : OutConn, c.out = p.conn.out → BacklogInv { p with conn := c } := by
      intro c hc
      refine ⟨?_, fun hb => h.armed ?_⟩
      · show c.out.Fits
        rw [hc]
        exact h.fits
      · rw [← hc]
        exact hb
    rcases hres : p.conn.socketWrite rest a with ⟨c, n | _ | _⟩ <;>
      rw [hres] at hok hout <;> dsimp only at hok hout ⊢
    · exact ih (rest.drop n) (hwritten c hout) hok
    · exact polledBlocked_inv reallocOk epollOk (hwritten c hout) rest hok
    · cases hok

/-- A successful send leaves EPOLLOUT armed if it leaves bytes behind. -/
theorem polledSend_inv {answers : List WriteAnswer} {reallocOk epollOk : Bool} {buf : Bytes}
    (h : BacklogInv p) (hok : (polledSend answers reallocOk epollOk p buf).2 = true) :
    BacklogInv (polledSend answers reallocOk epollOk p buf).1 := by
  unfold polledSend at hok ⊢
  cases hb : p.conn.out.backlog with
  | true => exact ⟨connOutAppend_fits reallocOk h.fits buf, fun _ => h.armed hb⟩
  | false =>
    rw [hb] at hok
    exact polledLoop_inv reallocOk epollOk answers buf h hok

theorem polledWritable_inv (answers : List WriteAnswer) (epollOk : Bool) (h : BacklogInv p) :
    BacklogInv (polledWritable answers epollOk p).1 := by
  have hfits := connOutDrain_fits answers h.fits
  -- draining adds nothing, so what is left was there before
  have hleft : (connOutDrain answers p.conn).1.out.backlog = true → p.armed = true := by
    intro hb
    apply h.armed
    rw [OutBuffer.backlog_iff] at hb ⊢
    intro hnil
    obtain ⟨written, _, hout⟩ := (connOutDrain_adds answers p.conn).grows
    rw [hnil, List.append_nil, List.append_eq_nil_iff] at hout
    exact hb hout.2
  unfold polledWritable
  rcases hr : connOutDrain answers p.conn with ⟨c, _ | _⟩ <;> rw [hr] at hfits hleft
  · exact ⟨hfits, hleft⟩
  · dsimp only at hleft ⊢
    cases hb : c.out.backlog with
    | true => exact ⟨hfits, fun _ => hleft hb⟩
    | false =>
      rw [if_neg (by decide)]
      have hnone : ∀ q : PolledConn, q.conn = c → BacklogInv q := by
        intro q hq
        refine ⟨hq ▸ hfits, fun hbq => ?_⟩
        rw [hq, hb] at hbq
        cases hbq
      exact hnone _ (by cases epollOk <;> rfl)

/-! ## Runs -/

/-- A call of `portico_conn_send`, or a writable event. -/
inductive BacklogOp where
  | send (buf : Bytes) (answers : List WriteAnswer) (reallocOk epollOk : Bool)
  | writable (answers : List WriteAnswer) (epollOk : Bool)
  deriving DecidableEq, Repr

def backlogStep (p : PolledConn) : BacklogOp → Option PolledConn
  | .send buf answers reallocOk epollOk => some (polledSend answers reallocOk epollOk p buf).1
  | .writable answers epollOk => some (polledWritable answers epollOk p).1

/-- A send returns 0. -/
def sendOk (p : PolledConn) : BacklogOp → Prop
  | .send buf answers reallocOk epollOk => (polledSend answers reallocOk epollOk p buf).2 = true
  | .writable _ _ => True

/-- The buffers passed to `portico_conn_send`, in the order of the calls. -/
def sentBuffers : List BacklogOp → List Bytes
  | [] => []
  | .send buf _ _ _ :: ops => buf :: sentBuffers ops
  | .writable _ _ :: ops => sentBuffers ops

/-- A connection whose output buffer has not been used yet. -/
def Unused (p : PolledConn) : Prop := p.conn.out = .empty ∧ p.conn.wire = []

variable {op : BacklogOp}

theorem backlogStep_stream {p' : PolledConn} (hok : sendOk p op)
    (hstep : backlogStep p op = some p') :
    p'.conn.wire ++ p'.conn.out.unsent =
      p.conn.wire ++ p.conn.out.unsent ++ (sentBuffers [op]).flatten := by
  cases op with
  | send buf answers reallocOk epollOk =>
    have hsend := porticoConnSend_adds answers reallocOk epollOk p.conn buf
    rw [← polledSend_conn] at hsend
    obtain ⟨part, hadds, _, hwhole⟩ := hsend
    cases hstep
    rw [hadds.stream_eq, hwhole hok]
    simp [sentBuffers]
  | writable answers =>
    cases hstep
    rw [polledWritable_conn, (connOutDrain_adds answers p.conn).stream_eq]
    simp [sentBuffers]

theorem backlogStep_inv {p' : PolledConn} (h : BacklogInv p) (hok : sendOk p op)
    (hstep : backlogStep p op = some p') : BacklogInv p' := by
  cases op with
  | send =>
    cases hstep
    exact polledSend_inv h hok
  | writable answers epollOk =>
    cases hstep
    exact polledWritable_inv answers epollOk h

theorem sentBuffers_cons (op : BacklogOp) (ops : List BacklogOp) :
    sentBuffers (op :: ops) = sentBuffers [op] ++ sentBuffers ops := by
  cases op <;> rfl

theorem backlog_run_stream :
    ∀ (ops : List BacklogOp) (p p' : PolledConn), RunMeets backlogStep sendOk p ops →
      run backlogStep p ops = some p' →
      p'.conn.wire ++ p'.conn.out.unsent =
        p.conn.wire ++ p.conn.out.unsent ++ (sentBuffers ops).flatten := by
  intro ops
  induction ops with
  | nil =>
    intro p p' _ hrun
    cases hrun
    exact (List.append_nil _).symm
  | cons op ops ih =>
    intro p p' hok hrun
    obtain ⟨p1, hstep, hrest⟩ := run_cons hrun
    rw [ih p1 p' (hok.2 p1 hstep) hrest, backlogStep_stream hok.1 hstep, sentBuffers_cons op ops,
      List.flatten_append, List.append_assoc]

/-- Nothing that was sent is lost, repeated or reordered, the buffer's indices stay in order and
    within the limit, and EPOLLOUT is armed while bytes wait. -/
theorem backlog_stream (ops : List BacklogOp) (p p' : PolledConn) (hp : Unused p)
    (hok : RunMeets backlogStep sendOk p ops) (hrun : run backlogStep p ops = some p') :
    p'.conn.wire ++ p'.conn.out.bytes.drop p'.conn.out.sent = (sentBuffers ops).flatten ∧
      p'.conn.out.sent ≤ p'.conn.out.bytes.length ∧
      p'.conn.out.bytes.length ≤ p'.conn.out.capacity ∧
      p'.conn.out.capacity ≤ outMax ∧
      (p'.conn.out.sent < p'.conn.out.bytes.length → p'.armed = true) := by
  obtain ⟨hout, hwire⟩ := hp
  have hinit : BacklogInv p := by
    refine ⟨?_, fun hb => ?_⟩
    · rw [hout]
      exact ⟨Nat.zero_le _, Nat.zero_le _⟩
    · rw [hout] at hb
      cases hb
  have hinv := run_invariant (fun _ _ _ h ho hs => backlogStep_inv h ho hs) ops p p' hinit hok hrun
  refine ⟨?_, p'.conn.out.sent_le, hinv.fits.1, hinv.fits.2, fun hlt => hinv.armed ?_⟩
  · have hstream := backlog_run_stream ops p p' hok hrun
    rw [hout, hwire] at hstream
    exact hstream
  · exact decide_eq_true hlt

/-- Two sends against a socket that takes one byte and then blocks, and an event that takes two
    more. -/
theorem backlog_stream_blocked :
    let p : PolledConn := ⟨{ OutConn.opened with state := .http }, false⟩
    let ops : List BacklogOp :=
      [.send [1, 2, 3] [.takes 0, .again] true true, .send [4, 5] [] true true,
        .writable [.takes 1, .again] true]
    let p' : PolledConn :=
      ⟨{ OutConn.opened with state := .http, wire := [1, 2, 3],
                             out := ⟨[2, 3, 4, 5], 2, 8192, by decide⟩ }, true⟩
    Unused p ∧ RunMeets backlogStep sendOk p ops ∧ run backlogStep p ops = some p' ∧
      p'.conn.wire ++ p'.conn.out.bytes.drop p'.conn.out.sent = (sentBuffers ops).flatten ∧
      p'.armed = true := by
  intro p ops p'
  have hp : Unused p := ⟨rfl, rfl⟩
  have hok : RunMeets backlogStep sendOk p ops := by
    refine ⟨?_, fun s hs => ⟨?_, fun s' hs' => ⟨trivial, fun _ _ => trivial⟩⟩⟩
    · rfl
    · cases hs
      rfl
  have hrun : run backlogStep p ops = some p' := by decide
  have h := backlog_stream ops p p' hp hok hrun
  exact ⟨hp, hok, hrun, h.1, h.2.2.2.2 (by decide)⟩

end Portico.Ws
