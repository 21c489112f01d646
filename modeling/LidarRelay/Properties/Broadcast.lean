import LidarRelay.Properties.Calibration

/-! # What the road-side unit broadcasts

The timer of lidar_send runs from `accept` on, while the first request comes up to a second later,
may be built before any lidar message has arrived and is always built before listener has
calibrated. From a request that was built after both, every BSM carries a received message and the
calibrated stamp.
-/

namespace LidarRelay.Broadcast
open Calibration
set_option autoImplicit false
set_option maxHeartbeats 250000

abbrev RoadsideWorld := World Listener.client ℕ

/-- The numbers of the request built from a message, as they arrive, and the stamp of the message
plus the clock offset. -/
structure Carries (m : LidarGrad) (dtime : ℤ) (bsm : V2xMsgBsm) : Prop where
  latitude : bsm.latitude = printedF m.x
  longitude : bsm.longitude = printedF m.x
  heading : bsm.heading = printedF m.theta
  speed : bsm.speed = printedF m.vel * 3.6
  unixTime : bsm.unixTime = ((m.timeSec * 1000000 + m.timeUsec + dtime : ℤ) : ℚ) / 1000000

/-- A BSM about a message that `gpsCallback` of some listener process has received, stamped with the
offset of the calibration of that process. -/
def Genuine (w : RoadsideWorld) (bsm : V2xMsgBsm) : Prop :=
  ∃ i, ∃ m ∈ (w.clients i).inputs, ∃ f ∈ (w.clients i).log.head?,
    Calibrates LidarSend.device i f ∧ Carries m f.after.times.dtime bsm

def AllGenuine (w : RoadsideWorld) : Prop := ∀ bsm ∈ w.sent, Genuine w bsm

/-- A request built after a message had arrived and after the calibration, whose seconds are an
`int`. -/
def Ready (r : Request Listener.client) : Prop :=
  r.inputs ≠ [] ∧ r.sender.times.countCalibr ≠ 0 ∧ FitsInt (splitSec (Listener.stampTime r.sender))

instance (r : Request Listener.client) : Decidable (Ready r) :=
  have : Decidable (r.inputs ≠ []) := decidable_of_iff (r.inputs.isEmpty = false) (by simp)
  inferInstanceAs (Decidable (_ ∧ _ ∧ _))

/-- A timer expires only when the last decoded request was a ready one. -/
def TicksReady (w : RoadsideWorld) : Event Listener.client ℕ → Prop
  | .tick => ∃ r ∈ w.source, Ready r
  | _ => True

instance (w : RoadsideWorld) : (e : Event Listener.client ℕ) → Decidable (TicksReady w e)
  | .tick => inferInstanceAs (Decidable (∃ r ∈ w.source, Ready r))
  | .arrive .. | .connect _ | .fire .. | .accept .. | .serve _ | .hangup | .read .. | .close _
  | .hear _ => .isTrue trivial

/-! ## The way of a message -/

structure Shows (m : LidarGrad) (s : Listener.State) : Prop where
  x : s.x = m.x
  y : s.y = m.x
  theta : s.theta = m.theta
  vel : s.vel = m.vel
  sec : s.lidarTimeSec = m.timeSec
  usec : s.lidarTimeUsec = m.timeUsec

structure Built (w : RoadsideWorld) (i : ℕ) (r : Request Listener.client) : Prop where
  bytes : r.bytes = Listener.requestText r.sender ++ [nul]
  fits : (Listener.requestText r.sender).length < 100
  shows : ∀ m ∈ r.inputs.getLast?, Shows m r.sender
  inputs : r.inputs ⊆ (w.clients i).inputs
  dtime : r.sender.times.countCalibr ≠ 0 → ∃ f ∈ (w.clients i).log.head?,
    r.sender.times.dtime = f.after.times.dtime

structure Decoded (s : Listener.State) (g : Globals) : Prop where
  x : g.xRecv = printedF s.x
  y : g.yRecv = printedF s.y
  theta : g.thetaRecv = printedF s.theta
  vel : g.velRecv = printedF s.vel
  unixtime : FitsInt (splitSec (Listener.stampTime s)) →
    g.unixtimeSend = (Listener.stampTime s : ℚ) / 1000000

/-- From the last message of a process through its requests to the globals of lidar_send. -/
structure Origin (w : RoadsideWorld) : Prop where
  shows : ∀ i, ∀ m ∈ (w.clients i).inputs.getLast?, Shows m (w.clients i).state
  up : ∀ i, ∀ r ∈ (w.clients i).up, Built w i r
  source : ∀ r ∈ w.source, (∃ i, Built w i r) ∧ Decoded r.sender w.device.serving.g

structure Grows (w w' : RoadsideWorld) : Prop where
  inputs : ∀ i, (w.clients i).inputs ⊆ (w'.clients i).inputs
  head : ∀ i, ∀ f ∈ (w.clients i).log.head?, f ∈ (w'.clients i).log.head?

theorem Built.mono {w w' : RoadsideWorld} {i : ℕ} {r : Request Listener.client} (h : Built w i r)
    (hg : Grows w w') : Built w' i r := by
  refine ⟨h.bytes, h.fits, h.shows, fun m hm => hg.inputs i (h.inputs hm), fun hc => ?_⟩
  obtain ⟨f, hf, hd⟩ := h.dtime hc
  exact ⟨f, hg.head i f hf, hd⟩

theorem Genuine.mono {w w' : RoadsideWorld} {bsm : V2xMsgBsm} (h : Genuine w bsm)
    (hg : Grows w w') : Genuine w' bsm := by
  obtain ⟨i, m, hm, f, hf, hcal, hcar⟩ := h
  exact ⟨i, m, hg.inputs i hm, f, hg.head i f hf, hcal, hcar⟩

theorem Shows.frame {m : LidarGrad} {s s' : Listener.State} (h : Shows m s)
    (hkeep : (s'.x, s'.y, s'.theta, s'.vel, s'.lidarTimeSec, s'.lidarTimeUsec) =
      (s.x, s.y, s.theta, s.vel, s.lidarTimeSec, s.lidarTimeUsec)) : Shows m s' := by
  simp only [Prod.mk.injEq] at hkeep
  obtain ⟨h1, h2, h3, h4, h5, h6⟩ := hkeep
  exact ⟨h1.trans h.x, h2.trans h.y, h3.trans h.theta, h4.trans h.vel, h5.trans h.sec,
    h6.trans h.usec⟩

theorem Shows.stampTime {m : LidarGrad} {s : Listener.State} (h : Shows m s) :
    Listener.stampTime s = m.timeSec * 1000000 + m.timeUsec + s.times.dtime := by
  rw [Listener.stampTime, h.sec, h.usec]

theorem Decoded.frame {s : Listener.State} {g g' : Globals} (h : Decoded s g)
    (hkeep : (g'.xRecv, g'.yRecv, g'.thetaRecv, g'.velRecv, g'.unixtimeSend) =
      (g.xRecv, g.yRecv, g.thetaRecv, g.velRecv, g.unixtimeSend)) : Decoded s g' := by
  simp only [Prod.mk.injEq] at hkeep
  obtain ⟨h1, h2, h3, h4, h5⟩ := hkeep
  exact ⟨h1.trans h.x, h2.trans h.y, h3.trans h.theta, h4.trans h.vel,
    fun hf => h5.trans (h.unixtime hf)⟩

theorem grows_of_clients {w w' : RoadsideWorld} (h : w'.clients = w.clients) : Grows w w' :=
  ⟨fun _ => h ▸ List.Subset.refl _, fun _ _ hf => h ▸ hf⟩

theorem step_grows {w w' : RoadsideWorld} {e : Event Listener.client ℕ}
    (hs : w.step LidarSend.device e = some w') : Grows w w' := by
  have hrec := World.step_recorded hs
  refine ⟨hrec.inputs, fun i f hf => ?_⟩
  obtain ⟨l, hl⟩ := hrec.log i
  rw [hl, List.head?_append, Option.mem_def.mp hf, Option.some_or, Option.mem_def]

/-! ## The steps -/

/-- A step that neither sends nor receives a request leaves the ways of the messages alone. -/
theorem origin_frame {w w' : RoadsideWorld} (h : Origin w) (hg : Grows w w')
    (hclient : ∀ i, (w'.clients i).inputs = (w.clients i).inputs ∧
      (w'.clients i).up = (w.clients i).up ∧
      ∀ m, Shows m (w.clients i).state → Shows m (w'.clients i).state)
    (hsource : w'.source = w.source)
    (hglobals : ∀ s, Decoded s w.device.serving.g → Decoded s w'.device.serving.g) : Origin w' := by
  refine ⟨fun i m hm => ?_, fun i r hr => ?_, fun r hr => ?_⟩
  · rw [(hclient i).1] at hm
    exact (hclient i).2.2 m (h.shows i m hm)
  · rw [(hclient i).2.1] at hr
    exact (h.up i r hr).mono hg
  · obtain ⟨⟨i, hb⟩, hdec⟩ := h.source r (hsource ▸ hr)
    exact ⟨⟨i, hb.mono hg⟩, hglobals r.sender hdec⟩

/-- The message that the callback of a firing sees is the last one of the process. -/
theorem shows_spin {p : ClientProcess Listener.client ℕ}
    (h : ∀ m ∈ p.inputs.getLast?, Shows m p.state) :
    ∀ m ∈ (p.inputs ++ p.queue.toList).getLast?, Shows m (Listener.spinOnce p.queue p.state) := by
  intro m hm
  cases hq : p.queue with
  | none =>
    rw [hq, Option.toList_none, List.append_nil] at hm
    exact h m hm
  | some q =>
    rw [hq, Option.toList_some, List.getLast?_append_of_ne_nil _ (List.cons_ne_nil _ _)] at hm
    obtain rfl := Option.some.inj hm
    exact ⟨rfl, rfl, rfl, rfl, rfl, rfl⟩

/-- After its calibration a process still has the offset of its first reply. -/
theorem dtime_of_log {w : RoadsideWorld} {i : ℕ} (hinv : Inv LidarSend.device w)
    (hcount : (w.clients i).state.times.countCalibr ≠ 0) :
    ∃ f ∈ (w.clients i).log.head?, (w.clients i).state.times.dtime = f.after.times.dtime := by
  have hbooks := hinv.books i
  have hne : (w.clients i).log ≠ [] := fun hnil => hcount (hbooks.count.mpr hnil)
  have hhead := List.head?_eq_some_head hne
  have hdtime := hbooks.one.dtime
  rw [hhead] at hdtime
  exact ⟨_, hhead, hdtime⟩

theorem origin_fire {w w' : RoadsideWorld} {i : ℕ} {tv : Timeval} (h : Origin w)
    (hinv : Inv LidarSend.device w) (hg : Grows w w') (hs : w.fire i tv = some w') : Origin w' := by
  obtain ⟨-, s, out, henc, rfl⟩ := World.fire_eq_some hs
  obtain ⟨hlen, rfl, rfl⟩ := Listener.encodeRequest_eq_ok henc
  have hshows := shows_spin (h.shows i)
  have hsame : (Listener.spinOnce (w.clients i).queue (w.clients i).state).times =
      (w.clients i).state.times := Listener.client.times_spin _ _
  refine ⟨?_, ?_, fun r hr => ?_⟩
  · refine World.forall_setClient (P := fun _ (p : ClientProcess Listener.client ℕ) =>
      ∀ m ∈ p.inputs.getLast?, Shows m p.state) h.shows ?_
    exact fun m hm => (hshows m hm).frame rfl
  · refine World.forall_setClient (P := fun j p => ∀ r ∈ p.up, Built _ j r)
      (fun j r hr => (h.up j r hr).mono hg) fun r hr => ?_
    rcases List.mem_append.mp hr with hr | hr
    · exact (h.up i r hr).mono hg
    · obtain rfl := List.mem_singleton.mp hr
      refine ⟨rfl, hlen, fun m hm => (hshows m hm).frame rfl, ?_, fun hcount => ?_⟩
      · simp only [World.setClient_self, World.asked]
        exact List.Subset.refl _
      · have hcount' : (w.clients i).state.times.countCalibr ≠ 0 := by
          rw [← hsame]
          exact hcount
        obtain ⟨f, hf, hdtime⟩ := dtime_of_log hinv hcount'
        exact ⟨f, hg.head i f hf, (congrArg Times.dtime hsame).trans hdtime⟩
  · obtain ⟨⟨j, hb⟩, hdec⟩ := h.source r hr
    exact ⟨⟨j, hb.mono hg⟩, hdec⟩

theorem decoded_request {s : Listener.State} {buf buf' : Buffer maxRecvLen} {g g' : Globals}
    (hlen : (Listener.requestText s).length < 100)
    (hdec : LidarSend.decodeRequest (buf.recv (Listener.requestText s ++ [nul])) g =
      (g', .ok buf')) : Decoded s g' := by
  obtain ⟨b, hok⟩ := LidarSend.decodeRequest_recv (lt_trans hlen (by decide))
    (fitsInt_splitUsec (Listener.stampTime s)) buf g
  obtain ⟨rfl, -⟩ := Prod.mk.inj (hok.symm.trans hdec)
  refine ⟨rfl, rfl, rfl, rfl, fun hfits => ?_⟩
  have hjoin : ((splitSec (Listener.stampTime s) * 1000000 + splitUsec (Listener.stampTime s) : ℤ) : ℚ) =
      Listener.stampTime s := by rw [split_join]
  push_cast at hjoin
  simp only [LidarSend.decoded, clampLong_fits le_rfl hfits]
  rw [← hjoin]
  ring

theorem origin_serve {w w' : RoadsideWorld} {tv : Timeval} (h : Origin w) (hg : Grows w w')
    (hs : w.serve LidarSend.device tv = some w') : Origin w' := by
  obtain ⟨i, r, rest, s, out, -, hup, hserve, rfl⟩ := World.serve_eq_some hs
  obtain ⟨hdec, -⟩ := LidarSend.device.serve_eq_ok hserve
  have hbuilt : Built w i r := h.up i r (hup ▸ List.mem_cons_self)
  refine ⟨?_, ?_, fun x hx => ?_⟩
  · exact World.forall_setClient (P := fun _ (p : ClientProcess Listener.client ℕ) =>
      ∀ m ∈ p.inputs.getLast?, Shows m p.state) h.shows (h.shows i)
  · exact World.forall_setClient (P := fun j p => ∀ x ∈ p.up, Built _ j x)
      (fun j x hx => (h.up j x hx).mono hg)
      fun x hx => (h.up i x (hup ▸ List.mem_cons_of_mem r hx)).mono hg
  · obtain rfl := Option.some.inj hx
    rw [hbuilt.bytes] at hdec
    exact ⟨⟨i, hbuilt.mono hg⟩, decoded_request hbuilt.fits hdec⟩

/-- A step that changes one process and sends no request. -/
theorem origin_setClient {w w' : RoadsideWorld} {i : ℕ} {p : ClientProcess Listener.client ℕ}
    (h : Origin w) (hg : Grows w w') (hclients : w'.clients = (w.setClient i p).clients)
    (hin : p.inputs = (w.clients i).inputs) (hup : p.up = (w.clients i).up)
    (hshows : ∀ m, Shows m (w.clients i).state → Shows m p.state) (hsource : w'.source = w.source)
    (hdevice : w'.device = w.device) : Origin w' := by
  refine origin_frame h hg (fun j => ?_) hsource fun s hd => hdevice ▸ hd
  rw [hclients]
  refine ⟨World.setClient_part _ hin j, World.setClient_part _ hup j, ?_⟩
  exact World.forall_setClient (P := fun j (q : ClientProcess Listener.client ℕ) =>
    ∀ m, Shows m (w.clients j).state → Shows m q.state) (fun _ _ hm => hm) hshows j

theorem origin_device {w w' : RoadsideWorld} (h : Origin w) (hg : Grows w w')
    (hclients : w'.clients = w.clients) (hsource : w'.source = w.source)
    (hglobals : ∀ s, Decoded s w.device.serving.g → Decoded s w'.device.serving.g) : Origin w' := by
  refine origin_frame h hg (fun j => ?_) hsource hglobals
  rw [hclients]
  exact ⟨rfl, rfl, fun m hm => hm⟩

theorem shows_decodeReply {m : LidarGrad} {bytes : List Byte} {s s' : Listener.State}
    (h : Shows m s) (hdec : Listener.decodeReply bytes s = (s', .ok ())) : Shows m s' := by
  have hkeep := Listener.decodeReply_keeps (f := fun s : Listener.State =>
    (s.x, s.y, s.theta, s.vel, s.lidarTimeSec, s.lidarTimeUsec)) (fun _ _ => rfl)
    (fun _ _ _ _ => rfl) bytes s
  rw [hdec] at hkeep
  exact h.frame hkeep

theorem origin_step {w w' : RoadsideWorld} {e : Event Listener.client ℕ} (h : Origin w)
    (hinv : Inv LidarSend.device w) (hs : w.step LidarSend.device e = some w') : Origin w' := by
  have hg := step_grows hs
  obtain ⟨w₁, hact, rfl⟩ := World.step_eq_some hs
  have hg₁ : Grows w w₁ := ⟨hg.inputs, hg.head⟩
  suffices ho : Origin w₁ from
    ⟨ho.shows, fun i r hr => (ho.up i r hr).mono (grows_of_clients rfl), fun r hr =>
      ⟨(ho.source r hr).1.imp fun i hb => hb.mono (grows_of_clients rfl), (ho.source r hr).2⟩⟩
  cases e with
  | arrive i m =>
    obtain rfl := Option.some.inj hact
    exact origin_setClient h hg₁ rfl rfl rfl (fun m hm => hm) rfl rfl
  | connect i =>
    obtain ⟨-, rfl⟩ := World.connect_eq_some hact
    exact origin_setClient h hg₁ rfl rfl rfl (fun m hm => hm) rfl rfl
  | fire i tv => exact origin_fire h hinv hg₁ hact
  | accept at_ setup =>
    obtain ⟨i, rest, dev, -, hdev, rfl⟩ := World.accept_eq_some hact
    refine origin_device h hg₁ rfl rfl fun s hd => ?_
    obtain ⟨-, rfl | rfl⟩ := DeviceProcess.accept_eq_some hdev
    · exact hd
    · exact hd
  | serve tv => exact origin_serve h hg₁ hact
  | hangup =>
    obtain rfl := World.hangup_eq_some hact
    exact origin_device h hg₁ rfl rfl fun s hd => hd
  | read i tv =>
    obtain ⟨tvSend, t, r, rest, s, -, -, hdec, rfl⟩ := World.read_eq_some hact
    refine origin_setClient h hg₁ rfl rfl rfl (fun m hm => ?_) rfl rfl
    exact (shows_decodeReply hm hdec).frame rfl
  | close i =>
    obtain rfl := Option.some.inj hact
    exact origin_setClient h hg₁ rfl rfl rfl (fun m hm => hm) rfl rfl
  | tick =>
    obtain ⟨-, rfl⟩ := World.tick_eq_some hact
    exact origin_device h hg₁ rfl rfl fun s hd => hd.frame rfl
  | hear bsm =>
    obtain rfl := Option.some.inj hact
    refine origin_device h hg₁ rfl rfl fun s hd => ?_
    dsimp only [DeviceProcess.hear]
    split
    · exact hd.frame rfl
    · exact hd

/-! ## The BSMs -/

theorem genuine_tick {w : RoadsideWorld} {r : Request Listener.client} (hinv : Inv LidarSend.device w)
    (ho : Origin w) (hr : r ∈ w.source) (hready : Ready r) :
    Genuine w (LidarSend.device.bsmOf w.device.serving.g) := by
  obtain ⟨hne, hcount, hfits⟩ := hready
  obtain ⟨⟨i, hb⟩, hd⟩ := ho.source r hr
  obtain ⟨f, hf, hdtime⟩ := hb.dtime hcount
  have hs := hb.shows (r.inputs.getLast hne) (List.getLast?_eq_some_getLast hne ▸ rfl)
  refine ⟨i, _, hb.inputs (List.getLast_mem hne), f, hf, (hinv.books i).one.first f hf, ?_⟩
  refine ⟨hd.x.trans ?_, hd.y.trans ?_, hd.theta.trans ?_, ?_, (hd.unixtime hfits).trans ?_⟩
  · rw [hs.x]
  · rw [hs.y]
  · rw [hs.theta]
  · change w.device.serving.g.velRecv * 3.6 = _
    rw [hd.vel, hs.vel]
  · rw [hs.stampTime, hdtime]

/-- **In every run whose ticks all come after a ready request, every BSM is genuine.** -/
theorem allGenuine_of_ticksReady (es : List (Event Listener.client ℕ)) :
    Meets (World.step LidarSend.device) TicksReady {} es →
      Along (World.step LidarSend.device) AllGenuine {} es := by
  refine along_of_meets (I := fun w => Inv LidarSend.device w ∧ Origin w ∧ AllGenuine w)
    (fun w h => h.2.2) ?_ ⟨inv_start _, ⟨?_, ?_, ?_⟩, fun b hb => (by cases hb)⟩
  · rintro w e w' ⟨hinv, ho, hall⟩ hg hs
    refine ⟨inv_step hinv hs, origin_step ho hinv hs, fun b hb => ?_⟩
    have hgrow := step_grows hs
    rcases (World.step_recorded hs).sent with hsent | ⟨rfl, -, hsent⟩
    · exact (hall b (hsent ▸ hb)).mono hgrow
    · rw [hsent] at hb
      rcases List.mem_append.mp hb with hb | hb
      · exact (hall b hb).mono hgrow
      · obtain ⟨r, hr, hready⟩ := hg
        rw [List.mem_singleton.mp hb]
        exact (genuine_tick hinv ho hr hready).mono hgrow
  · exact fun i m hm => (by cases hm)
  · exact fun i r hr => (by cases hr)
  · exact fun r hr => (by cases hr)

/-- A timer of the first connection expires before listener has sent anything: a BSM with the
initial values goes out. -/
theorem broadcasts_initial_values :
    ∃ w, run (World.step LidarSend.device) {} [.connect 0, .accept 0 {}, .tick] = some w ∧
      w.sent.map (fun bsm => (bsm.latitude, bsm.longitude, bsm.unixTime)) = [(0, 0, 0)] ∧
      ¬ AllGenuine w := by
  refine ⟨_, rfl, rfl, fun hall => ?_⟩
  obtain ⟨i, m, hm, -⟩ := hall _ List.mem_cons_self
  by_cases hi : i = 0
  · subst hi
    cases hm
  · cases World.setClient_ne ({} : RoadsideWorld) { phase := .ready } hi ▸ hm

/-- A message, the calibration, a second request and then the first tick. The clock of the lidar PC is
an hour ahead of that of the device. -/
def calibratedRun : List (Event Listener.client ℕ) :=
  [.arrive 0 ⟨3, 3, 2, 1, 1562003600, 500000⟩, .connect 0, .accept 0 {},
    .fire 0 (.ofMicros 1562003600600000), .serve (.ofMicros 1562000000600400),
    .read 0 (.ofMicros 1562003600601000), .fire 0 (.ofMicros 1562003600640000),
    .serve (.ofMicros 1562000000640400), .tick]

theorem broadcasts_calibrated :
    (run (World.step LidarSend.device) {} calibratedRun).map
        (fun w => w.sent.map V2xMsgBsm.unixTime) = some [1562000000.4999] ∧
      Along (World.step LidarSend.device) AllGenuine {} calibratedRun :=
  ⟨by decide +kernel, allGenuine_of_ticksReady calibratedRun (by decide +kernel)⟩

end LidarRelay.Broadcast
