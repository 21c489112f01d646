import LidarRelay.Foundations.Runs
import LidarRelay.Programs.LidarRecv
import LidarRelay.Programs.LidarSend
import LidarRelay.Programs.Listener
import LidarRelay.Programs.Network
import LidarRelay.Programs.TcpClient2

/-! # Which reply carries the clock of the device

A client calibrates with the first reply it reads, the device answers with its own clock in the
first reply on a connection, and no message says so. The two agree because a connection never has
more than one message in flight (`Link`): the counter of the device and that of the client differ
only while the first reply is on its way.
-/

namespace LidarRelay.Calibration
set_option autoImplicit false
set_option maxHeartbeats 250000

section Properties
variable {c : Client} {ι : Type}

/-- The exchange in which a client assigns `dtime`: the branch `count_calibr==0` is taken, and the
reply it uses was formatted on the same connection from the device's clock, read after the client
had read its own for the request and before it did for the reply. -/
structure Calibrates (d : Device) (i : ι) (r : Read c ι) : Prop where
  branch : (c.times r.decoded).countCalibr = 0
  dtime : (c.times r.after).dtime =
    offsetEstimate (c.times r.decoded).serverTime r.tvRecv.micros r.tvSend.micros
  byClock : r.reply.ByClock
  conn : r.reply.conn = i
  reading : ∃ g, r.reply.bytes = d.replyText g r.reply.tv.sec r.reply.tv.usec ++ [nul]
  after_send : r.sentAt < r.reply.madeAt
  before_receive : r.reply.madeAt < r.readAt

/-- An exchange that leaves `dtime` alone; its reply was built from `unixtime_recv`. -/
structure Skips (r : Read c ι) : Prop where
  branch : (c.times r.decoded).countCalibr ≠ 0
  dtime : (c.times r.after).dtime = (c.times r.decoded).dtime
  relayed : ¬ r.reply.ByClock

/-- A client process assigns `dtime` once, with its first reply. -/
structure OneCalibration (d : Device) (i : ι) (p : ClientProcess c ι) : Prop where
  first : ∀ r ∈ p.log.head?, Calibrates d i r
  later : ∀ r ∈ p.log.tail, Skips r
  dtime : (c.times p.state).dtime =
    (p.log.head?.map fun r => (c.times r.after).dtime).getD 0

end Properties

/-! ## One connection -/

section Link
variable {c : Client} {ι : Type}

/-- The client and the device agree on the next reply. -/
structure Unanswered (w : World c ι) (i : ι) : Prop where
  backlog : i ∈ w.backlog → (w.clients i).log = []
  served : w.device.conn = some i →
    (w.device.serving.countCalibr = 0 ↔ (w.clients i).log = [])

/-- The reply `r` is on its way to a client that has been waiting since step `t`. -/
structure Answered (d : Device) (w : World c ι) (i : ι) (t : ℕ) (r : Reply ι) : Prop where
  backlog : i ∉ w.backlog
  served : w.device.conn = some i → w.device.serving.countCalibr ≠ 0
  conn : r.conn = i
  after_send : t < r.madeAt
  made : r.madeAt < w.now
  byClock : r.ByClock ↔ (w.clients i).log = []
  reading : r.ByClock → ∃ g, r.bytes = d.replyText g r.tv.sec r.tv.usec ++ [nul]

/-- What holds between a client process and the device, phase by phase. -/
def Link (d : Device) (w : World c ι) (i : ι) : Prop :=
  match (w.clients i).phase with
  | .fresh => (w.clients i).log = [] ∧ (w.clients i).up = [] ∧ (w.clients i).down = [] ∧
      i ∉ w.backlog ∧ w.device.conn ≠ some i
  | .ready => (w.clients i).up = [] ∧ (w.clients i).down = [] ∧ Unanswered w i
  | .waiting _ t => t < w.now ∧
      ((∃ r, (w.clients i).up = [r]) ∧ (w.clients i).down = [] ∧ Unanswered w i ∨
        (w.clients i).up = [] ∧ ∃ r, (w.clients i).down = [r] ∧ Answered d w i t r)
  | .closed => True

structure Books (d : Device) (i : ι) (p : ClientProcess c ι) : Prop where
  one : OneCalibration d i p
  count : (c.times p.state).countCalibr = 0 ↔ p.log = []

structure Inv (d : Device) (w : World c ι) : Prop where
  nodup : w.backlog.Nodup
  served : ∀ i, w.device.conn = some i → i ∉ w.backlog
  link : ∀ i, Link d w i
  books : ∀ i, Books d i (w.clients i)

/-- The part of a client process that `Link` speaks of. -/
def connPart (p : ClientProcess c ι) : Phase × List (Request c) × List (Reply ι) × List (Read c ι) :=
  (p.phase, p.up, p.down, p.log)

theorem link_frame {d : Device} {w w' : World c ι} {i : ι} (h : Link d w i)
    (hpart : connPart (w'.clients i) = connPart (w.clients i)) (hnow : w.now ≤ w'.now)
    (hback : i ∈ w'.backlog → i ∈ w.backlog)
    (hconn : w'.device.conn = some i → w.device.conn = some i ∧
      w'.device.serving.countCalibr = w.device.serving.countCalibr) : Link d w' i := by
  simp only [connPart, Prod.mk.injEq] at hpart
  obtain ⟨hphase, hup, hdown, hlog⟩ := hpart
  have hun : Unanswered w i → Unanswered w' i := by
    intro hu
    refine ⟨fun hb => hlog ▸ hu.backlog (hback hb), fun hc => ?_⟩
    obtain ⟨hc', hcount⟩ := hconn hc
    rw [hcount, hlog]
    exact hu.served hc'
  unfold Link at h ⊢
  rw [hphase, hup, hdown, hlog]
  cases hp : (w.clients i).phase with
  | fresh =>
    rw [hp] at h
    obtain ⟨h1, h2, h3, h4, h5⟩ := h
    exact ⟨h1, h2, h3, fun hb => h4 (hback hb), fun hc => h5 (hconn hc).1⟩
  | ready =>
    rw [hp] at h
    exact ⟨h.1, h.2.1, hun h.2.2⟩
  | waiting tv t =>
    rw [hp] at h
    refine ⟨lt_of_lt_of_le h.1 hnow, ?_⟩
    rcases h.2 with ⟨h1, h2, h3⟩ | ⟨h1, r, h2, h3⟩
    · exact .inl ⟨h1, h2, hun h3⟩
    · refine .inr ⟨h1, r, h2, ⟨fun hb => h3.backlog (hback hb), fun hc => ?_, h3.conn, h3.after_send,
        lt_of_lt_of_le h3.made hnow, hlog ▸ h3.byClock, h3.reading⟩⟩
      obtain ⟨hc', hcount⟩ := hconn hc
      rw [hcount]
      exact h3.served hc'
  | closed => trivial

theorem books_same {d : Device} {i : ι} {p p' : ClientProcess c ι} (h : Books d i p)
    (hlog : p'.log = p.log) (hsame : Times.Same (c.times p.state) (c.times p'.state)) : Books d i p' := by
  obtain ⟨⟨h1, h2, h3⟩, hcount⟩ := h
  refine ⟨⟨?_, ?_, ?_⟩, ?_⟩
  · rwa [hlog]
  · rwa [hlog]
  · rw [hlog, hsame.dtime]
    exact h3
  · rw [hlog, hsame.count]
    exact hcount

section Answered
variable {d : Device} {w : World c ι} {i : ι} {tvSend tv : Timeval} {t : ℕ} {r : Reply ι}
  {s : c.State} (h : Books d i (w.clients i)) (hr : Answered d w i t r)
  (hdec : c.decode r.bytes (w.clients i).state = (s, .ok ()))
include h hr hdec

theorem books_first (hlog : (w.clients i).log = []) :
    Books d i (w.answered (w.clients i) tvSend tv t r [] s) := by
  have hsame := c.decode_same r.bytes (w.clients i).state
  rw [hdec] at hsame
  have hclock : r.ByClock := hr.byClock.mpr hlog
  have hzero : (c.times s).countCalibr = 0 := hsame.count.trans (h.count.mpr hlog)
  obtain ⟨hone, hdtime⟩ := c.finish_first tvSend tv s hzero
  refine ⟨⟨?_, ?_, ?_⟩, ?_⟩
  · intro x hx
    rw [World.answered, hlog] at hx
    obtain rfl := Option.some.inj hx
    exact ⟨hzero, hdtime, hclock, hr.conn, hr.reading hclock, hr.after_send, hr.made⟩
  · intro x hx
    rw [World.answered, hlog] at hx
    cases hx
  · simp [World.answered, hlog]
  · simp [World.answered, hone]

theorem books_later {x : Read c ι} {xs : List (Read c ι)} (hlog : (w.clients i).log = x :: xs) :
    Books d i (w.answered (w.clients i) tvSend tv t r [] s) := by
  obtain ⟨⟨h1, h2, h3⟩, hcount⟩ := h
  have hsame := c.decode_same r.bytes (w.clients i).state
  rw [hdec] at hsame
  have hne : (c.times s).countCalibr ≠ 0 := fun hz => by
    have hnil := hcount.mp (hsame.count.symm.trans hz)
    rw [hlog] at hnil
    cases hnil
  have hlater := c.finish_later tvSend tv s hne
  have hrelayed : ¬ r.ByClock := fun hc => by
    have hnil := hr.byClock.mp hc
    rw [hlog] at hnil
    cases hnil
  rw [hlog] at h1 h2 h3
  refine ⟨⟨?_, ?_, ?_⟩, ?_⟩
  · intro y hy
    rw [World.answered, hlog] at hy
    exact h1 y hy
  · intro y hy
    rw [World.answered, hlog, List.cons_append, List.tail_cons] at hy
    rcases List.mem_append.mp hy with hy | hy
    · exact h2 y hy
    · rw [List.mem_singleton.mp hy]
      exact ⟨hne, hlater.dtime, hrelayed⟩
  · rw [World.answered, hlog]
    exact (hlater.dtime.trans hsame.dtime).trans h3
  · simp only [World.answered, hlog, hlater.count]
    simpa using hne

theorem books_answered : Books d i (w.answered (w.clients i) tvSend tv t r [] s) := by
  cases hlog : (w.clients i).log with
  | nil => exact books_first h hr hdec hlog
  | cons x xs => exact books_later h hr hdec hlog

end Answered

/-- A step of the device that is not about a connection, or ends one. -/
theorem inv_device {d : Device} {w w' : World c ι} (h : Inv d w) (hclients : w'.clients = w.clients)
    (hback : w'.backlog = w.backlog) (hnow : w.now ≤ w'.now)
    (hconn : ∀ i, w'.device.conn = some i → w.device.conn = some i ∧
      w'.device.serving.countCalibr = w.device.serving.countCalibr) : Inv d w' := by
  refine ⟨hback ▸ h.nodup, fun i hi => hback ▸ h.served i (hconn i hi).1, fun i => ?_, fun i => ?_⟩
  · exact link_frame (h.link i) (by rw [hclients]) hnow (fun hb => hback ▸ hb) (hconn i)
  · rw [hclients]
    exact h.books i

theorem inv_start (d : Device) : Inv d ({} : World c ι) := by
  refine ⟨List.nodup_nil, fun i hi => (by cases hi), fun i => ?_, fun i => ?_⟩
  · exact ⟨rfl, rfl, rfl, List.not_mem_nil, fun hc => (by cases hc)⟩
  · refine ⟨⟨fun r hr => (by cases hr), fun r hr => (by cases hr), ?_⟩, ?_⟩
    · exact congrArg Times.dtime c.times_start
    · exact ⟨fun _ => rfl, fun _ => congrArg Times.countCalibr c.times_start⟩

end Link

/-! ## The steps -/

section Steps
variable {c : Client} {ι : Type} [DecidableEq ι] {d : Device} {w w' : World c ι}

theorem links_setClient (h : Inv d w) {i : ι} {p : ClientProcess c ι}
    (hi : Link d { w.setClient i p with now := w.now + 1 } i) (j : ι) :
    Link d { w.setClient i p with now := w.now + 1 } j := by
  by_cases hj : j = i
  · rw [hj]
    exact hi
  · exact link_frame (h.link j) (by simp only [World.setClient_ne w p hj]) (Nat.le_succ _)
      (fun hb => hb) fun hc => ⟨hc, rfl⟩

theorem books_setClient (h : Inv d w) {i : ι} {p : ClientProcess c ι} (hi : Books d i p) (j : ι) :
    Books d j ((w.setClient i p).clients j) :=
  World.forall_setClient (P := fun j q => Books d j q) h.books hi j

theorem inv_arrive {i : ι} {m : c.Input} (h : Inv d w) (hs : w.arrive i m = some w') :
    Inv d { w' with now := w.now + 1 } := by
  obtain rfl := Option.some.inj hs
  refine ⟨h.nodup, h.served, links_setClient h ?_, books_setClient h ?_⟩
  · exact link_frame (h.link i) (by simp [connPart]) (Nat.le_succ _) (fun hb => hb)
      fun hc => ⟨hc, rfl⟩
  · exact books_same (h.books i) rfl ⟨rfl, rfl⟩

theorem inv_connect {i : ι} (h : Inv d w) (hs : w.connect i = some w') :
    Inv d { w' with now := w.now + 1 } := by
  obtain ⟨hfresh, rfl⟩ := World.connect_eq_some hs
  have hlink := h.link i
  rw [Link, hfresh] at hlink
  obtain ⟨hlog, hup, hdown, hback, hconn⟩ := hlink
  refine ⟨?_, fun j hj hb => ?_, fun j => ?_, books_setClient h (books_same (h.books i) rfl ⟨rfl, rfl⟩)⟩
  · exact List.nodup_append.mpr ⟨h.nodup, List.nodup_singleton i, fun a ha b hb hab =>
      hback (List.mem_singleton.mp hb ▸ hab ▸ ha)⟩
  · rcases List.mem_append.mp hb with hb | hb
    · exact h.served j hj hb
    · exact hconn (List.mem_singleton.mp hb ▸ hj)
  · by_cases hj : j = i
    · subst hj
      simp only [Link, World.setClient_self]
      exact ⟨hup, hdown, ⟨fun _ => by simpa using hlog, fun hc => absurd hc hconn⟩⟩
    · refine link_frame (h.link j) (by simp only [World.setClient_ne _ _ hj]) (Nat.le_succ _)
        (fun hb => ?_) fun hc => ⟨hc, rfl⟩
      rcases List.mem_append.mp hb with hb | hb
      · exact hb
      · exact absurd (List.mem_singleton.mp hb) hj

theorem inv_fire {i : ι} {tv : Timeval} (h : Inv d w) (hs : w.fire i tv = some w') :
    Inv d { w' with now := w.now + 1 } := by
  obtain ⟨hready, s, out, henc, rfl⟩ := World.fire_eq_some hs
  have hlink := h.link i
  rw [Link, hready] at hlink
  obtain ⟨hup, hdown, hun⟩ := hlink
  have hsame := c.encode_same tv (c.spin (w.clients i).queue (w.clients i).state)
  rw [henc, c.times_spin] at hsame
  refine ⟨h.nodup, h.served, links_setClient h ?_, books_setClient h (books_same (h.books i) rfl hsame)⟩
  simp only [Link, World.setClient_self, World.asked]
  refine ⟨Nat.lt_succ_self _, .inl ⟨?_, hdown, ⟨fun hb => ?_, fun hc => ?_⟩⟩⟩
  · exact ⟨_, by rw [hup]; rfl⟩
  · simpa using hun.backlog hb
  · simpa using hun.served hc

theorem inv_close {i : ι} (h : Inv d w) (hs : w.close i = some w') :
    Inv d { w' with now := w.now + 1 } := by
  obtain rfl := Option.some.inj hs
  refine ⟨h.nodup, h.served, links_setClient h ?_, books_setClient h ?_⟩
  · simp only [Link, World.setClient_self]
  · exact books_same (h.books i) rfl ⟨rfl, rfl⟩

theorem inv_read {i : ι} {tv : Timeval} (h : Inv d w) (hs : w.read i tv = some w') :
    Inv d { w' with now := w.now + 1 } := by
  obtain ⟨tvSend, t, r, rest, s, hphase, hdown, hdec, rfl⟩ := World.read_eq_some hs
  have hlink := h.link i
  rw [Link, hphase] at hlink
  obtain ⟨-, ⟨-, hnil, -⟩ | ⟨hup, r', hone, hr⟩⟩ := hlink
  · rw [hdown] at hnil
    cases hnil
  rw [hdown] at hone
  obtain ⟨rfl, rfl⟩ := List.cons.inj hone
  refine ⟨h.nodup, h.served, links_setClient h ?_,
    books_setClient h (books_answered (h.books i) hr hdec)⟩
  simp only [Link, World.setClient_self, World.answered]
  refine ⟨hup, trivial, ⟨fun hb => absurd hb hr.backlog, fun hc => ?_⟩⟩
  simpa using hr.served hc

/-! ## The steps of the device -/

theorem inv_accept {at_ : ℤ} {setup : Setup} (h : Inv d w) (hs : w.accept at_ setup = some w') :
    Inv d { w' with now := w.now + 1 } := by
  obtain ⟨i, rest, dev, hback, hdev, rfl⟩ := World.accept_eq_some hs
  have hnd := h.nodup
  rw [hback, List.nodup_cons] at hnd
  have hsub : ∀ j, j ∈ rest → j ∈ w.backlog := fun j hj => hback ▸ List.mem_cons_of_mem i hj
  obtain ⟨-, rfl | rfl⟩ := DeviceProcess.accept_eq_some hdev
  · refine ⟨hnd.2, fun j hj => ?_, fun j => ?_, h.books⟩
    · rw [DeviceProcess.opened_conn, Option.some.injEq] at hj
      exact hj ▸ hnd.1
    · by_cases hj : j = i
      · subst hj
        have hmem : j ∈ w.backlog := hback ▸ List.mem_cons_self
        have hnew : Unanswered w j → Unanswered { w with
            device := w.device.opened j at_, backlog := rest, now := w.now + 1 } j := fun hu =>
          ⟨fun hb => absurd hb hnd.1, fun _ => ⟨fun _ => hu.backlog hmem, fun _ => rfl⟩⟩
        have hlink := h.link j
        unfold Link at hlink ⊢
        cases hp : (w.clients j).phase with
        | fresh =>
          rw [hp] at hlink
          exact absurd hmem hlink.2.2.2.1
        | ready =>
          rw [hp] at hlink
          exact ⟨hlink.1, hlink.2.1, hnew hlink.2.2⟩
        | waiting tv t =>
          rw [hp] at hlink
          obtain ⟨ht, ⟨h1, h2, h3⟩ | ⟨-, r, -, hr⟩⟩ := hlink
          · exact ⟨Nat.lt_succ_of_lt ht, .inl ⟨h1, h2, hnew h3⟩⟩
          · exact absurd hmem hr.backlog
        | closed => trivial
      · refine link_frame (h.link j) rfl (Nat.le_succ _) (hsub j) fun hc => ?_
        rw [DeviceProcess.opened_conn, Option.some.injEq] at hc
        exact absurd hc.symm hj
  · refine ⟨hnd.2, fun j hj => (by cases hj), fun j => ?_, h.books⟩
    exact link_frame (h.link j) rfl (Nat.le_succ _) (hsub j) fun hc => (by cases hc)

theorem inv_serve {tv : Timeval} (h : Inv d w) (hs : w.serve d tv = some w') :
    Inv d { w' with now := w.now + 1 } := by
  obtain ⟨i, r, rest, s, out, hconn, hup, hserve, rfl⟩ := World.serve_eq_some hs
  obtain ⟨-, hcount, -, hout⟩ := d.serve_eq_ok hserve
  refine ⟨h.nodup, h.served, fun j => ?_, books_setClient h (books_same (h.books i) rfl ⟨rfl, rfl⟩)⟩
  by_cases hj : j = i
  · subst hj
    have hlink := h.link j
    unfold Link at hlink
    simp only [Link, World.setClient_self]
    cases hp : (w.clients j).phase with
    | fresh =>
      rw [hp] at hlink
      rw [hlink.2.1] at hup
      cases hup
    | ready =>
      rw [hp] at hlink
      rw [hlink.1] at hup
      cases hup
    | waiting tv' t =>
      rw [hp] at hlink
      obtain ⟨ht, ⟨⟨r', hone⟩, hdown, hun⟩ | ⟨hnil, -⟩⟩ := hlink
      · rw [hup] at hone
        obtain ⟨rfl, rfl⟩ := List.cons.inj hone
        refine ⟨Nat.lt_succ_of_lt ht, .inr ⟨rfl, w.replyTo j tv out, by rw [hdown]; rfl, ?_⟩⟩
        refine ⟨h.served j hconn, fun _ => ?_, rfl, ht, Nat.lt_succ_self _, ?_, fun hclock => ?_⟩
        · rw [hcount]
          split
          · exact one_ne_zero
          · assumption
        · simpa [World.replyTo, Reply.ByClock] using hun.served hconn
        · have hzero : w.device.serving.countCalibr = 0 := hclock
          rw [hzero] at hout
          exact ⟨s.g, hout⟩
      · rw [hnil] at hup
        cases hup
    | closed => trivial
  · refine link_frame (h.link j) (by simp only [World.setClient_ne _ _ hj]) (Nat.le_succ _)
      (fun hb => hb) fun hc => ?_
    have hij : w.device.conn = some j := hc
    rw [hconn, Option.some.injEq] at hij
    exact absurd hij.symm hj

theorem inv_step {e : Event c ι} (h : Inv d w) (hs : w.step d e = some w') : Inv d w' := by
  obtain ⟨w₁, hact, rfl⟩ := World.step_eq_some hs
  cases e with
  | arrive i m => exact inv_arrive h hact
  | connect i => exact inv_connect h hact
  | fire i tv => exact inv_fire h hact
  | accept at_ setup => exact inv_accept h hact
  | serve tv => exact inv_serve h hact
  | hangup =>
    obtain rfl := World.hangup_eq_some hact
    exact inv_device h rfl rfl (Nat.le_succ _) fun i hc => (by cases hc)
  | read i tv => exact inv_read h hact
  | close i => exact inv_close h hact
  | tick =>
    obtain ⟨-, rfl⟩ := World.tick_eq_some hact
    exact inv_device h rfl rfl (Nat.le_succ _) fun i hc => ⟨hc, rfl⟩
  | hear bsm =>
    obtain rfl := Option.some.inj hact
    exact inv_device h rfl rfl (Nat.le_succ _) fun i hc =>
      ⟨(w.device.hear_conn d bsm).symm.trans hc, w.device.hear_countCalibr d bsm⟩

end Steps

/-! ## The two pairs -/

/-- In every state of every run each client process assigns `dtime` once, from the device's clock,
whatever the device and whatever the client program. -/
theorem along_oneCalibration {c : Client} {ι : Type} [DecidableEq ι] (d : Device)
    (es : List (Event c ι)) :
    Along (World.step d) (fun w => ∀ i, OneCalibration d i (w.clients i)) ({} : World c ι) es := by
  rw [along_iff_reached]
  intro fs w' _ hr i
  have hinv : Inv d w' := run_invariant (fun w e w' h hs => inv_step h hs) (inv_start d) hr
  exact (hinv.books i).one

/-- **Client and device agree on which reply carries the device's clock**, for listener with
lidar_send and for TCP_Client2 with lidar_recv. -/
theorem calibration_agrees (cos sin : ℚ → ℚ) (es : List (Event Listener.client ℕ))
    (es' : List (Event (TcpClient2.client cos sin) ℕ)) :
    Along (World.step LidarSend.device)
        (fun w => ∀ i, OneCalibration LidarSend.device i (w.clients i)) {} es ∧
      Along (World.step LidarRecv.device)
        (fun w => ∀ i, OneCalibration LidarRecv.device i (w.clients i)) {} es' :=
  ⟨along_oneCalibration _ es, along_oneCalibration _ es'⟩

/-- The second process has been waiting for its first reply while the first one calibrated. -/
def twoProcesses : List (Event Listener.client ℕ) :=
  [.connect 0, .connect 1, .fire 1 (.ofMicros 1562000009000000), .accept 0 {},
    .fire 0 (.ofMicros 1562003600600000), .serve (.ofMicros 1562000000600400),
    .read 0 (.ofMicros 1562003600601000), .fire 0 (.ofMicros 1562003600640000),
    .serve (.ofMicros 1562000000640400), .read 0 (.ofMicros 1562003600641000), .close 0, .hangup,
    .accept 0 {}, .serve (.ofMicros 1562000000700000), .read 1 (.ofMicros 1562000009800000)]

/-- Each has its own clock, and both take the reading of the device that answered their first request. -/
example : (run (World.step LidarSend.device) {} twoProcesses).map
    (fun w => ((w.clients 0).state.times.dtime, (w.clients 1).state.times.dtime)) =
      some (offsetEstimate 1562000000600400 1562003600601000 1562003600600000,
        offsetEstimate 1562000000700000 1562000009800000 1562000009000000) := by decide +kernel

end LidarRelay.Calibration
