import LidarRelay.Foundations.DecimalText

/-! # The two message formats on the TCP connections

`"%f,%f,%f,%f,%ld,%ld"` goes from listener to lidar_send and from lidar_recv to TCP_Client2,
`"%f,%ld,%ld"` the other way on both connections. Each is sent with its NUL.
-/

namespace LidarRelay
set_option autoImplicit false
set_option maxHeartbeats 250000

def angleText (angle : ℚ) (sec usec : ℤ) : List Byte :=
  formatF angle ++ comma :: (formatLd sec ++ comma :: formatLd usec)

def poseText (x y theta vel : ℚ) (sec usec : ℤ) : List Byte :=
  formatF x ++ comma :: (formatF y ++ comma :: (formatF theta ++ comma ::
    (formatF vel ++ comma :: (formatLd sec ++ comma :: formatLd usec))))

theorem comma_ne_nul : comma ≠ nul := by decide

/-! ## One token of a message -/

theorem strtok_comma {n : ℕ} {s : Scan n} {tok tail : List Byte} (htok : Clean comma tok)
    (h : s.rest = tok ++ comma :: tail) :
    ∃ s' : Scan n, strtok comma s = .ok (some tok, s') ∧ s'.rest = tail := by
  obtain ⟨pre, rest, hs⟩ := s
  dsimp only at h
  subst h
  exact ⟨_, strtok_delim comma_ne_nul htok hs, rfl⟩

theorem strtok_last {n : ℕ} {s : Scan n} {tok tail : List Byte} (htok : Clean comma tok)
    (h : s.rest = tok ++ nul :: tail) :
    ∃ s' : Scan n, strtok comma s = .ok (some tok, s') ∧ s'.rest = nul :: tail := by
  obtain ⟨pre, rest, hs⟩ := s
  dsimp only at h
  subst h
  exact ⟨_, strtok_nul htok hs, rfl⟩

/-! ## A whole message in a receive buffer -/

/-- The array starts with the text and its NUL; anything may follow. -/
def Holds {n : ℕ} (b : Buffer n) (text : List Byte) : Prop :=
  ∃ tail, b.bytes = text ++ nul :: tail

/-- A message delivered whole by one `recv` stands at the head of the buffer, whatever the buffer
held before. -/
theorem recv_holds {n : ℕ} (b : Buffer n) {text : List Byte} (h : text.length < n) :
    Holds (b.recv (text ++ [nul])) text := by
  refine ⟨b.bytes.drop (text ++ [nul]).length, ?_⟩
  rw [Buffer.recv_bytes _ _ (by simp; omega), List.append_assoc]
  rfl

end LidarRelay
