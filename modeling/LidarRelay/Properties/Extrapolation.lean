import LidarRelay.Properties.Calibration

/-! # What the vehicle PC extrapolates from

lidar_recv keeps the numbers of the last BSM in globals that start at zero, and nothing tells
whether one has come. TCP_Client2 extrapolates from its second reply on. What it uses was received
over the air exactly when a BSM had been received before that reply was built.
-/

namespace LidarRelay.Extrapolation
open Calibration
set_option autoImplicit false
set_option maxHeartbeats 250000

section Vehicle
variable {cos sin : ℚ → ℚ}

abbrev VehicleWorld (cos sin : ℚ → ℚ) := World (TcpClient2.client cos sin) ℕ

/-- The numbers TCP_Client2 decoded from a reply are those of a BSM received before the reply was
built. -/
structure FromBsm (r : Read (TcpClient2.client cos sin) ℕ) (b : V2xMsgBsm) : Prop where
  heard : b ∈ r.reply.heard
  x : r.decoded.xRecv = printedF b.latitude
  y : r.decoded.yRecv = printedF b.longitude
  theta : r.decoded.thetaRecv = printedF b.heading
  vel : r.decoded.velRecv = printedF b.speed
  serverTime : r.decoded.times.serverTime = relayedSec b.unixTime * 1000000 + relayedUsec b.unixTime

def Estimates (r : Read (TcpClient2.client cos sin) ℕ) : Prop := r.decoded.times.countCalibr ≠ 0

def OnlyReceived (w : VehicleWorld cos sin) : Prop :=
  ∀ i, ∀ r ∈ (w.clients i).log, Estimates r → ∃ b, FromBsm r b

/-- When the event is a read that estimates, a BSM had been received before its reply was built. -/
def HeardFirst (w : VehicleWorld cos sin) (e : Event (TcpClient2.client cos sin) ℕ) : Prop :=
  ∀ i tv, e = .read i tv → (w.clients i).state.times.countCalibr ≠ 0 →
    ∀ r ∈ (w.clients i).down.head?, r.heard ≠ []

/-! ## The globals of lidar_recv -/

structure Holds (g : Globals) (b : V2xMsgBsm) : Prop where
  x : g.xRecv = b.latitude
  y : g.yRecv = b.longitude
  theta : g.thetaRecv = b.heading
  vel : g.velRecv = b.speed
  unixtime : g.unixtimeRecv = b.unixTime

def bsmText (b : V2xMsgBsm) : List Byte :=
  poseText b.latitude b.longitude b.heading b.speed (relayedSec b.unixTime) (relayedUsec b.unixTime)

/-- A reply in flight that was built from `unixtime_recv` carries the last BSM. -/
def Carries (r : Reply ℕ) : Prop :=
  ∀ b ∈ r.heard.getLast?, ¬ r.ByClock →
    r.bytes = bsmText b ++ [nul] ∧ (bsmText b).length < sendBufSize

/-- The last BSM is in the globals, and in every reply built from it. -/
structure Carried (w : VehicleWorld cos sin) : Prop where
  globals : ∀ b ∈ w.heard.getLast?, Holds w.device.serving.g b
  replies : ∀ i, ∀ r ∈ (w.clients i).down, Carries r

theorem holds_frame {g g' : Globals} {b : V2xMsgBsm} (h : Holds g b)
    (hkeep : (g'.xRecv, g'.yRecv, g'.thetaRecv, g'.velRecv, g'.unixtimeRecv) =
      (g.xRecv, g.yRecv, g.thetaRecv, g.velRecv, g.unixtimeRecv)) : Holds g' b := by
  simp only [Prod.mk.injEq] at hkeep
  obtain ⟨h1, h2, h3, h4, h5⟩ := hkeep
  exact ⟨h1.trans h.x, h2.trans h.y, h3.trans h.theta, h4.trans h.vel, h5.trans h.unixtime⟩

theorem replyText_of_holds {g : Globals} {b : V2xMsgBsm} (h : Holds g b) :
    LidarRecv.replyText g (relayedSec g.unixtimeRecv) (relayedUsec g.unixtimeRecv) = bsmText b := by
  rw [LidarRecv.replyText, h.x, h.y, h.theta, h.vel, h.unixtime, bsmText]

theorem carried_serve {w w' : VehicleWorld cos sin} {tv : Timeval} (h : Carried w)
    (hs : w.serve LidarRecv.device tv = some w') : Carried w' := by
  obtain ⟨i, r, rest, s, out, -, -, hserve, rfl⟩ := World.serve_eq_some hs
  obtain ⟨hdec, -, hlen, hout⟩ := LidarRecv.device.serve_eq_ok hserve
  have hkeep := LidarRecv.decodeRequest_keeps (w.device.serving.buf.recv r.bytes) w.device.serving.g
  rw [show LidarRecv.decodeRequest _ _ = _ from hdec] at hkeep
  have hglobals : ∀ b ∈ w.heard.getLast?, Holds s.g b :=
    fun b hb => holds_frame (h.globals b hb) hkeep
  refine ⟨hglobals, World.forall_setClient (P := fun _ p => ∀ x ∈ p.down, Carries x) h.replies
    fun x hx => ?_⟩
  rcases List.mem_append.mp hx with hx | hx
  · exact h.replies i x hx
  · obtain rfl := List.mem_singleton.mp hx
    intro b hb hclock
    have hcount : ¬ w.device.serving.countCalibr = 0 := hclock
    have htext := replyText_of_holds (hglobals b hb)
    simp only [replyTime, if_neg hcount] at hlen hout
    exact ⟨hout.trans (congrArg (· ++ [nul]) htext), htext ▸ hlen⟩

theorem carried_hear {w w' : VehicleWorld cos sin} {bsm : V2xMsgBsm} (h : Carried w)
    (hs : w.hear LidarRecv.device bsm = some w') : Carried w' := by
  obtain rfl := Option.some.inj hs
  refine ⟨fun b hb => ?_, h.replies⟩
  dsimp only at hb ⊢
  unfold DeviceProcess.hear
  by_cases hreg : w.device.registered
  · rw [if_pos hreg, List.getLast?_append_of_ne_nil _ (List.cons_ne_nil _ _)] at hb
    obtain rfl := Option.some.inj hb
    rw [if_pos hreg]
    exact ⟨rfl, rfl, rfl, rfl, rfl⟩
  · rw [if_neg hreg] at hb
    rw [if_neg hreg]
    exact h.globals b hb

theorem carried_setClient {w : VehicleWorld cos sin} (h : Carried w) (i : ℕ)
    {p : ClientProcess (TcpClient2.client cos sin) ℕ} (hsub : p.down ⊆ (w.clients i).down) :
    Carried (w.setClient i p) :=
  ⟨h.globals, World.forall_setClient (P := fun _ p => ∀ x ∈ p.down, Carries x) h.replies
    fun x hx => h.replies i x (hsub hx)⟩

theorem carried_step {w w' : VehicleWorld cos sin} {e : Event (TcpClient2.client cos sin) ℕ}
    (h : Carried w) (hs : w.step LidarRecv.device e = some w') : Carried w' := by
  obtain ⟨w₁, hact, rfl⟩ := World.step_eq_some hs
  suffices hw : Carried w₁ from ⟨hw.globals, hw.replies⟩
  cases e with
  | arrive i m => exact m.elim
  | connect i =>
    obtain ⟨-, rfl⟩ := World.connect_eq_some hact
    have hc := carried_setClient (p := { w.clients i with phase := .ready }) h i
      (List.Subset.refl _)
    exact ⟨hc.globals, hc.replies⟩
  | fire i tv =>
    obtain ⟨-, s, out, -, rfl⟩ := World.fire_eq_some hact
    exact carried_setClient h i (List.Subset.refl _)
  | accept at_ setup =>
    obtain ⟨i, rest, dev, -, hdev, rfl⟩ := World.accept_eq_some hact
    obtain ⟨-, rfl | rfl⟩ := DeviceProcess.accept_eq_some hdev
    · exact ⟨h.globals, h.replies⟩
    · exact ⟨h.globals, h.replies⟩
  | serve tv => exact carried_serve h hact
  | hangup =>
    obtain rfl := World.hangup_eq_some hact
    exact ⟨h.globals, h.replies⟩
  | read i tv =>
    obtain ⟨tvSend, t, r, rest, s, -, hdown, -, rfl⟩ := World.read_eq_some hact
    exact carried_setClient h i (hdown ▸ List.subset_cons_self r rest)
  | close i =>
    obtain rfl := Option.some.inj hact
    exact carried_setClient h i (List.Subset.refl _)
  | tick =>
    obtain ⟨-, rfl⟩ := World.tick_eq_some hact
    exact ⟨fun b hb => holds_frame (h.globals b hb) rfl, h.replies⟩
  | hear bsm => exact carried_hear h hact

/-! ## The reads of TCP_Client2 -/

theorem decodeReply_bsmText {b : V2xMsgBsm} (hlen : (bsmText b).length < sendBufSize)
    (s : TcpClient2.State) :
    ∃ buf', TcpClient2.decodeReply (bsmText b ++ [nul]) s =
      ({ s with xRecv := printedF b.latitude, yRecv := printedF b.longitude
                thetaRecv := printedF b.heading, velRecv := printedF b.speed
                times := s.times.setServer (relayedSec b.unixTime) (relayedUsec b.unixTime)
                buf := buf' }, .ok ()) :=
  TcpClient2.decodeReply_poseText hlen (atoi_formatLd (by decide) (fitsInt_clampLong _))
    (atoi_formatLd (by decide) (fitsInt_clampLong _)) s

/-- An estimating read uses received data exactly when there was a BSM before its reply. -/
theorem fromBsm_iff {w : VehicleWorld cos sin} (hinv : Inv LidarRecv.device w) (hcar : Carried w)
    {i : ℕ} {tvSend : Timeval} (tv : Timeval) {t : ℕ} {r : Reply ℕ} {rest : List (Reply ℕ)}
    {s : TcpClient2.State} (hphase : (w.clients i).phase = .waiting tvSend t)
    (hdown : (w.clients i).down = r :: rest)
    (hdec : TcpClient2.decodeReply r.bytes (w.clients i).state = (s, .ok ()))
    (hcount : (w.clients i).state.times.countCalibr ≠ 0) (s' : TcpClient2.State) :
    (∃ b, FromBsm (⟨r, tvSend, tv, t, w.now, s, s'⟩ : Read (TcpClient2.client cos sin) ℕ) b) ↔
      r.heard ≠ [] := by
  constructor
  · rintro ⟨b, hb⟩
    exact List.ne_nil_of_mem hb.heard
  · intro hne
    have hlink := hinv.link i
    rw [Link, hphase] at hlink
    obtain ⟨-, ⟨-, hnil, -⟩ | ⟨-, r', hone, hr⟩⟩ := hlink
    · rw [hdown] at hnil
      cases hnil
    rw [hdown] at hone
    obtain ⟨rfl, rfl⟩ := List.cons.inj hone
    have hclock : ¬ r.ByClock := fun hc => hcount ((hinv.books i).count.mpr (hr.byClock.mp hc))
    have hlast : r.heard.getLast hne ∈ r.heard.getLast? := List.getLast?_eq_some_getLast hne ▸ rfl
    obtain ⟨hbytes, hlen⟩ := hcar.replies i r (by rw [hdown]; exact List.mem_cons_self) _ hlast hclock
    obtain ⟨buf', hok⟩ := decodeReply_bsmText hlen (w.clients i).state
    rw [hbytes, hok] at hdec
    obtain ⟨rfl, -⟩ := Prod.mk.inj hdec
    exact ⟨r.heard.getLast hne, List.getLast_mem hne, rfl, rfl, rfl, rfl, rfl⟩

theorem onlyReceived_read_iff {w w' : VehicleWorld cos sin} {i : ℕ} {tv : Timeval}
    (hinv : Inv LidarRecv.device w) (hcar : Carried w) (honly : OnlyReceived w)
    (hs : w.read i tv = some w') :
    OnlyReceived w' ↔ ((w.clients i).state.times.countCalibr ≠ 0 →
      ∀ r ∈ (w.clients i).down.head?, r.heard ≠ []) := by
  obtain ⟨tvSend, t, r, rest, s, hphase, hdown, hdec, rfl⟩ := World.read_eq_some hs
  have hsame : s.times.countCalibr = (w.clients i).state.times.countCalibr := by
    have h := (TcpClient2.client cos sin).decode_same r.bytes (w.clients i).state
    rw [hdec] at h
    exact h.count
  have hnew := fun hcount => fromBsm_iff hinv hcar tv hphase hdown hdec hcount
    ((TcpClient2.client cos sin).finish tvSend tv s)
  have hhead : (w.clients i).down.head? = some r := by rw [hdown]; rfl
  constructor
  · intro hp hcount x hx
    obtain rfl : r = x := Option.some.inj (hhead.symm.trans hx)
    refine (hnew hcount).mp (hp i _ ?_ fun hz => hcount (hsame.symm.trans hz))
    simp [World.answered]
  · intro hg
    refine World.forall_setClient (P := fun _ (p : ClientProcess (TcpClient2.client cos sin) ℕ) =>
      ∀ x ∈ p.log, Estimates x → ∃ b, FromBsm x b) honly ?_
    intro x hx hest
    rcases List.mem_append.mp hx with hx | hx
    · exact honly i x hx hest
    · obtain rfl := List.mem_singleton.mp hx
      have hcount : (w.clients i).state.times.countCalibr ≠ 0 := fun hz => hest (hsame.trans hz)
      exact (hnew hcount).mpr (hg hcount r hhead)

/-- **TCP_Client2 extrapolates from received data exactly in the runs in which lidar_recv has
received a BSM before it builds the replies that are used.** -/
theorem onlyReceived_iff_heardFirst (es : List (Event (TcpClient2.client cos sin) ℕ)) :
    Along (World.step LidarRecv.device) OnlyReceived {} es ↔
      Meets (World.step LidarRecv.device) HeardFirst {} es := by
  refine along_iff_meets (I := fun w => Inv LidarRecv.device w ∧ Carried w)
    (fun w e w' h _ hs _ => ⟨inv_step h.1 hs, carried_step h.2 hs⟩) ?_ ⟨inv_start _, ?_⟩ ?_
  · intro w e w' h honly hs
    by_cases hread : ∃ i tv, e = .read i tv
    · obtain ⟨i, tv, rfl⟩ := hread
      obtain ⟨w₁, hact, rfl⟩ := World.step_eq_some hs
      have hiff := onlyReceived_read_iff h.1 h.2 honly hact
      refine ⟨fun hp j tv' he => ?_, fun hg => hiff.mpr (hg i tv rfl)⟩
      obtain ⟨rfl, -⟩ := Event.read.inj he
      exact hiff.mp hp
    · refine ⟨fun _ i tv he => absurd ⟨i, tv, he⟩ hread, fun _ i r hr => ?_⟩
      rw [(World.step_recorded hs).unread (fun i tv he => hread ⟨i, tv, he⟩)] at hr
      exact honly i r hr
  · exact ⟨fun b hb => (by cases hb), fun i r hr => (by cases hr)⟩
  · exact fun i r hr => (by cases hr)

end Vehicle

def silentRun : List (Event (TcpClient2.client (fun _ => 1) (fun _ => 0)) ℕ) :=
  [.connect 0, .accept 0 {}, .fire 0 default, .serve default, .read 0 default,
    .fire 0 default, .serve default, .read 0 default]

/-- The second exchange estimates a position although nothing has been received. -/
theorem extrapolates_initial_values :
    ∃ w, run (World.step LidarRecv.device) {} silentRun = some w ∧ ¬ OnlyReceived w := by
  have hlog : (run (World.step LidarRecv.device) {} silentRun).map (fun w => (w.clients 0).log.map
      fun r => (r.decoded.times.countCalibr, r.reply.heard.length)) = some [(0, 0), (1, 0)] := by
    decide +kernel
  obtain ⟨w, hw, hmap⟩ := Option.map_eq_some_iff.mp hlog
  refine ⟨w, hw, fun honly => ?_⟩
  have hmem : ((1, 0) : ℤ × ℕ) ∈ (w.clients 0).log.map
      fun r => (r.decoded.times.countCalibr, r.reply.heard.length) := by
    rw [hmap]
    decide
  obtain ⟨r, hr, hpair⟩ := List.mem_map.mp hmem
  obtain ⟨hcount, hlen⟩ := Prod.mk.inj hpair
  obtain ⟨b, hb⟩ := honly 0 r hr (by rw [Estimates, hcount]; decide)
  exact absurd (List.length_pos_of_mem hb.heard) (by omega)

end LidarRelay.Extrapolation
