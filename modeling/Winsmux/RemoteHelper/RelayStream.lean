import Winsmux.RemoteHelper.Relay

/-!
# Relayed streams

At every moment of the relay the socket has got a prefix of stdin and stdout a prefix of what
the socket sent; frames leave whole and in order, and a frame that is cut off or too long
ends the relay before any of it is queued.
-/
namespace Winsmux.RemoteHelper.Relay
open Json

/-- A length and that many bytes, no more than the ceiling. -/
def IsFrame (f : List UInt8) : Prop :=
  ∃ payload : List UInt8, payload.length ≤ maxFrameLen ∧ f = frameOfPayload payload

/-- The front of a frame: bytes of it are missing. -/
def Growing (frame : List UInt8) : Prop :=
  ∃ n, relayStdinFrameLen frame = .ok n ∧ frame.length < n

/-- No byte behind the end of the frame. -/
def Bounded (frame : List UInt8) : Prop :=
  ∀ n, relayStdinFrameLen frame = .ok n → frame.length ≤ n

theorem relayStdinFrameLen_short {frame : List UInt8} (h : frame.length < prefixLen) :
    relayStdinFrameLen frame = .ok prefixLen := by
  match frame with
  | [] | [_] | [_, _] | [_, _, _] => rfl
  | _ :: _ :: _ :: _ :: t =>
    simp only [List.length_cons, prefixLen] at h
    omega

theorem relayStdinFrameLen_append {frame : List UInt8} (h : prefixLen ≤ frame.length)
    (t : List UInt8) : relayStdinFrameLen (frame ++ t) = relayStdinFrameLen frame := by
  match frame with
  | [] | [_] | [_, _] | [_, _, _] => simp [prefixLen] at h
  | _ :: _ :: _ :: _ :: _ => rfl

theorem prefixLen_le {frame : List UInt8} {n : ℕ} (h : relayStdinFrameLen frame = .ok n) :
    prefixLen ≤ n := by
  match frame with
  | [] | [_] | [_, _] | [_, _, _] => exact (Except.ok.inj h).le
  | _ :: _ :: _ :: _ :: _ =>
    rw [relayStdinFrameLen] at h
    split at h
    · cases h
    · rw [← Except.ok.inj h]
      exact Nat.le_add_right _ _

theorem toBeBytes_declared (b0 b1 b2 b3 : UInt8) :
    toBeBytes (b0.toNat * 2 ^ 24 + b1.toNat * 2 ^ 16 + b2.toNat * 2 ^ 8 + b3.toNat) =
      [b0, b1, b2, b3] := by
  have h0 := b0.toNat_lt
  have h1 := b1.toNat_lt
  have h2 := b2.toNat_lt
  have h3 := b3.toNat_lt
  have hbyte (n : ℕ) (b : UInt8) (h : n % 256 = b.toNat) : n.toUInt8 = b :=
    UInt8.toNat_inj.mp ((UInt8.toNat_ofNat' (n := n)).trans h)
  rw [toBeBytes, hbyte _ b0 (by omega), hbyte _ b1 (by omega), hbyte _ b2 (by omega),
    hbyte _ b3 (by omega)]

/-- Bytes that are as many as they declare are a frame. -/
theorem isFrame_of_length {frame : List UInt8} (hlen : prefixLen ≤ frame.length)
    (h : relayStdinFrameLen frame = .ok frame.length) : IsFrame frame := by
  match frame with
  | [] | [_] | [_, _] | [_, _, _] => simp [prefixLen] at hlen
  | b0 :: b1 :: b2 :: b3 :: payload =>
    rw [relayStdinFrameLen] at h
    split at h
    · cases h
    · next hmax =>
      have hlength := Except.ok.inj h
      simp only [List.length_cons, prefixLen] at hlength
      have hdeclared : b0.toNat * 2 ^ 24 + b1.toNat * 2 ^ 16 + b2.toNat * 2 ^ 8 + b3.toNat =
          payload.length := by omega
      refine ⟨payload, by omega, ?_⟩
      rw [frameOfPayload, ← hdeclared, toBeBytes_declared]
      rfl

theorem growing_nil : Growing [] := ⟨prefixLen, rfl, by decide⟩

theorem Growing.bounded {frame : List UInt8} (h : Growing frame) : Bounded frame := by
  obtain ⟨n, hn, hlt⟩ := h
  intro k hk
  rw [hn] at hk
  exact (Except.ok.inj hk) ▸ hlt.le

/-- A read that is limited to the missing bytes does not pass the end of the frame. -/
theorem Growing.append {frame bytes : List UInt8} {n : ℕ}
    (h : relayStdinFrameLen frame = .ok n) (hle : frame.length + bytes.length ≤ n) :
    Bounded (frame ++ bytes) := by
  intro k hk
  rw [List.length_append]
  by_cases hshort : frame.length < prefixLen
  · rw [relayStdinFrameLen_short hshort] at h
    obtain rfl := Except.ok.inj h
    exact hle.trans (prefixLen_le hk)
  · rw [relayStdinFrameLen_append (not_lt.mp hshort), h] at hk
    exact (Except.ok.inj hk) ▸ hle

theorem IsFrame.ne_nil {f : List UInt8} (h : IsFrame f) : 0 < f.length := by
  obtain ⟨payload, -, rfl⟩ := h
  rw [frameOfPayload, List.length_append]
  exact Nat.lt_of_lt_of_le (by simp [toBeBytes]) (Nat.le_add_right _ _)

def SocketTx.bytes : SocketTx → List UInt8
  | .queued bytes _ => bytes
  | _ => []

def SocketTx.sent : SocketTx → List UInt8
  | .queued bytes offset => bytes.take offset
  | _ => []

def StdoutTx.bytes : StdoutTx → List UInt8
  | .queued bytes _ => bytes
  | .empty => []

def StdoutTx.sent : StdoutTx → List UInt8
  | .queued bytes offset => bytes.take offset
  | .empty => []

/-- What holds between the buffers and the streams, whatever the loop does next. -/
structure Core (s : RelayState) (w : World) : Prop where
  sent : ∃ frames : List (List UInt8), (∀ f ∈ frames, IsFrame f) ∧
    w.socketOut = frames.flatten ++ s.toSocket.sent ∧
    w.stdin = frames.flatten ++ s.toSocket.bytes ++ s.stdinFrame
  frame : ∀ bytes offset, s.toSocket = .queued bytes offset → IsFrame bytes ∧ offset < bytes.length
  shown : ∃ old : List UInt8, w.stdout = old ++ s.toStdout.sent ∧ w.socketIn = old ++ s.toStdout.bytes
  chunk : ∀ bytes offset, s.toStdout = .queued bytes offset → offset < bytes.length
  bounded : Bounded s.stdinFrame
  waiting : s.toSocket ≠ .collecting → s.stdinFrame = []
  reading : s.stdin = .open → w.stdinEnded = false
  clean : s.stdin = .eofClean → w.stdinEnded = true ∧ s.stdinFrame = []
  truncated : s.stdin = .eofTruncated →
    w.stdinEnded = true ∧ s.stdinFrame ≠ [] ∧ Growing s.stdinFrame ∧ s.toSocket = .collecting
  shut : w.writeShut = true → s.toSocket = .closed
  closed : s.toSocket = .closed → s.stdin = .eofClean
  ended : s.socketRx = .eof → w.socketEnded = true

/-- The frame at hand was looked at and is not complete. -/
def Phase.checked : Phase → Bool
  | .queue | .finished (.error _) => false
  | _ => true

/-- The answer of `poll` is being worked off. -/
def Phase.answered : Phase → Bool
  | .writeStdout | .readSocket | .writeSocket | .readStdin => true
  | _ => false

structure Inv (m : Machine) : Prop where
  core : Core m.state m.world
  checked : m.phase.checked = true → Growing m.state.stdinFrame ∧ m.state.stdin ≠ .eofTruncated
  answered : m.phase.answered = true → m.stdinEvents.isReadable = true →
    m.state.stdin = .open ∧ m.state.toSocket = .collecting
  finished : m.phase = .finished (.ok ()) → m.state.socketRx = .eof ∧ m.state.toStdout = .empty

theorem Inv.fail {m : Machine} (h : Core m.state m.world) (e : RelayError) : Inv (m.fail e) :=
  ⟨h, nofun, nofun, nofun⟩

theorem inv_start : Inv .start where
  core :=
    { sent := ⟨[], nofun, rfl, rfl⟩
      frame := nofun
      shown := ⟨[], rfl, rfl⟩
      chunk := nofun
      bounded := growing_nil.bounded
      waiting := fun _ => rfl
      reading := fun _ => rfl
      clean := nofun
      truncated := nofun
      shut := nofun
      closed := nofun
      ended := nofun }
  checked := fun _ => ⟨growing_nil, nofun⟩
  answered := nofun
  finished := nofun

/-- What looking at the collected bytes can find: nothing to do, too many bytes declared, or a
whole frame. -/
theorem queueCompleteStdinFrame_cases {s : RelayState} (hbounded : Bounded s.stdinFrame) :
    (s.queueCompleteStdinFrame = .ok s ∧ (s.toSocket = .collecting → Growing s.stdinFrame)) ∨
    (∃ e, s.queueCompleteStdinFrame = .error e ∧ relayStdinFrameLen s.stdinFrame = .error e) ∨
    (s.queueCompleteStdinFrame =
        .ok { s with stdinFrame := [], toSocket := .queued s.stdinFrame 0 } ∧
      s.toSocket = .collecting ∧ relayStdinFrameLen s.stdinFrame = .ok s.stdinFrame.length ∧
      IsFrame s.stdinFrame) := by
  unfold RelayState.queueCompleteStdinFrame
  split
  · next hskip =>
    refine .inl ⟨rfl, fun hcollecting => ?_⟩
    have hshort := hskip.resolve_left fun h => h hcollecting
    exact ⟨prefixLen, relayStdinFrameLen_short hshort, hshort⟩
  · next hlook =>
    obtain ⟨hcollecting, hlong⟩ := not_or.mp hlook
    rw [not_not] at hcollecting
    cases hlen : relayStdinFrameLen s.stdinFrame with
    | error e => exact .inr (.inl ⟨e, rfl, rfl⟩)
    | ok n =>
      dsimp only
      split
      · next heq =>
        rw [← heq] at hlen
        exact .inr (.inr ⟨rfl, hcollecting, congrArg Except.ok heq.symm,
          isFrame_of_length (not_lt.mp hlong) hlen⟩)
      · next hne =>
        exact .inl ⟨rfl, fun _ => ⟨n, hlen, lt_of_le_of_ne (hbounded n hlen) hne⟩⟩

theorem Core.growing {s : RelayState} {w : World} (h : Core s w)
    (hg : s.toSocket = .collecting → Growing s.stdinFrame) : Growing s.stdinFrame := by
  by_cases hcollecting : s.toSocket = .collecting
  · exact hg hcollecting
  · rw [h.waiting hcollecting]
    exact growing_nil

theorem inv_queueStep {m : Machine} (h : Core m.state m.world) : Inv m.queueStep := by
  unfold Machine.queueStep
  obtain ⟨hok, hgrowing⟩ | ⟨e, herror, -⟩ | ⟨hok, hcollecting, hlen, hframe⟩ :=
    queueCompleteStdinFrame_cases h.bounded
  · rw [hok]
    dsimp only
    split
    · exact Inv.fail (m := { m with state := m.state }) h _
    · next hstdin => exact ⟨h, fun _ => ⟨h.growing hgrowing, hstdin⟩, nofun, nofun⟩
  · rw [herror]
    exact Inv.fail h e
  · rw [hok]
    dsimp only
    have hstdin : m.state.stdin ≠ .eofTruncated := by
      intro htruncated
      obtain ⟨-, -, ⟨n, hn, hlt⟩, -⟩ := h.truncated htruncated
      rw [hlen] at hn
      exact absurd (Except.ok.inj hn) hlt.ne
    rw [if_neg hstdin]
    obtain ⟨frames, hframes, hsent, hstdinBytes⟩ := h.sent
    rw [hcollecting] at hsent hstdinBytes
    refine ⟨{ h with
      sent := ⟨frames, hframes, by simpa [SocketTx.sent] using hsent, by simpa [SocketTx.bytes] using hstdinBytes⟩
      frame := ?_
      bounded := growing_nil.bounded
      waiting := fun _ => rfl
      clean := fun hclean => ⟨(h.clean hclean).1, rfl⟩
      truncated := fun htruncated => absurd htruncated hstdin
      shut := ?_
      closed := nofun }, fun _ => ⟨growing_nil, hstdin⟩, nofun, nofun⟩
    · rintro bytes offset ⟨⟩
      exact ⟨hframe, hframe.ne_nil⟩
    · intro hshut
      rw [h.shut hshut] at hcollecting
      cases hcollecting

theorem inv_shutdownStep {m : Machine} (h : Inv m) (hp : m.phase = .shutdown) (a : Answers) :
    Inv (m.shutdownStep a) := by
  obtain ⟨hgrowing, hstdin⟩ := h.checked (by rw [hp]; rfl)
  unfold Machine.shutdownStep
  split
  · next hclean =>
    obtain ⟨hclean, hcollecting⟩ := hclean
    split
    · obtain ⟨frames, hframes, hsent, hbytes⟩ := h.core.sent
      rw [hcollecting] at hsent hbytes
      exact ⟨{ h.core with
        sent := ⟨frames, hframes, hsent, hbytes⟩
        frame := nofun
        waiting := fun _ => (h.core.clean hclean).2
        truncated := fun htruncated => absurd htruncated hstdin
        shut := fun _ => rfl
        closed := fun _ => hclean }, fun _ => ⟨hgrowing, hstdin⟩, nofun, nofun⟩
    · exact Inv.fail h.core _
  · exact ⟨h.core, fun _ => ⟨hgrowing, hstdin⟩, nofun, nofun⟩

theorem inv_pollStep {m : Machine} (h : Inv m) (hp : m.phase = .poll) (a : Answers) :
    Inv (m.pollStep a) := by
  have hchecked := h.checked (by rw [hp]; rfl)
  unfold Machine.pollStep
  split
  · next hend => exact ⟨h.core, fun _ => hchecked, nofun, fun _ => hend⟩
  · split
    · exact ⟨h.core, nofun, nofun, nofun⟩
    · exact Inv.fail h.core _
    · next stdin socket stdout =>
      dsimp only
      split
      · exact Inv.fail h.core _
      · refine ⟨h.core, fun _ => hchecked, fun _ hreadable => ?_, nofun⟩
        -- a descriptor that is not polled reports nothing
        cases hwants : m.state.wantsStdinRead with
        | false =>
          simp only [hwants, polled] at hreadable
          cases hreadable
        | true =>
          simpa [RelayState.wantsStdinRead] using hwants

/-- A write goes on from the offset, inside the bytes it was given. -/
theorem relayWriteOnce_spec {a : WriteAnswer} {bytes : List UInt8} {offset next : ℕ}
    (h : relayWriteOnce a bytes offset = .ok next) (hlt : offset < bytes.length) :
    offset ≤ next ∧ next ≤ bytes.length ∧
      bytes.take offset ++ (bytes.drop offset).take (next - offset) = bytes.take next := by
  have hbounds : offset ≤ next ∧ next ≤ bytes.length := by
    unfold relayWriteOnce at h
    split at h
    · dsimp only at h
      split at h
      · obtain rfl := Except.ok.inj h
        omega
      · cases h
    · obtain rfl := Except.ok.inj h
      exact ⟨le_rfl, hlt.le⟩
    · cases h
  refine ⟨hbounds.1, hbounds.2, ?_⟩
  rw [← List.take_add, Nat.add_sub_cancel' hbounds.1]

theorem inv_writeStdoutStep {m : Machine} (h : Inv m) (hp : m.phase = .writeStdout) (a : Answers) :
    Inv (m.writeStdoutStep a) := by
  have hchecked := h.checked (by rw [hp]; rfl)
  have hanswered := h.answered (by rw [hp]; rfl)
  unfold Machine.writeStdoutStep
  split
  · next bytes offset _ hstdout =>
    have hlt := h.core.chunk bytes offset hstdout
    split
    · exact Inv.fail h.core _
    · next next hwrite =>
      obtain ⟨-, hle, htake⟩ := relayWriteOnce_spec hwrite hlt
      obtain ⟨old, hshown, hread⟩ := h.core.shown
      rw [hstdout] at hshown hread
      refine ⟨{ h.core with shown := ?_, chunk := ?_ }, fun _ => hchecked, fun _ => hanswered,
        nofun⟩
      · simp only [StdoutTx.sent] at hshown
        rw [hshown, List.append_assoc, htake]
        split
        · next heq =>
          rw [heq, List.take_length]
          exact ⟨old ++ bytes, by simp [StdoutTx.sent], by simpa [StdoutTx.bytes] using hread⟩
        · exact ⟨old, rfl, hread⟩
      · intro bytes' offset' hqueued
        split at hqueued
        · cases hqueued
        · next hne =>
          cases hqueued
          exact lt_of_le_of_ne hle hne
  · exact ⟨h.core, fun _ => hchecked, fun _ => hanswered, nofun⟩

theorem inv_readSocketStep {m : Machine} (h : Inv m) (hp : m.phase = .readSocket) (a : Answers) :
    Inv (m.readSocketStep a) := by
  have hchecked := h.checked (by rw [hp]; rfl)
  have hanswered := h.answered (by rw [hp]; rfl)
  unfold Machine.readSocketStep
  split
  · next hread =>
    obtain ⟨old, hshown, hbytes⟩ := h.core.shown
    rw [hread.2] at hshown hbytes
    split
    · exact ⟨{ h.core with ended := fun _ => rfl }, fun _ => hchecked, fun _ => hanswered, nofun⟩
    · next b bytes _ =>
      refine ⟨{ h.core with
        shown := ⟨old, by simpa [StdoutTx.sent] using hshown, ?_⟩, chunk := ?_ },
        fun _ => hchecked, fun _ => hanswered, nofun⟩
      · simpa [StdoutTx.bytes] using hbytes
      · rintro bytes' offset ⟨⟩
        exact Nat.succ_pos _
    · exact ⟨h.core, fun _ => hchecked, fun _ => hanswered, nofun⟩
    · exact Inv.fail h.core _
  · exact ⟨h.core, fun _ => hchecked, fun _ => hanswered, nofun⟩

theorem inv_writeSocketStep {m : Machine} (h : Inv m) (hp : m.phase = .writeSocket) (a : Answers) :
    Inv (m.writeSocketStep a) := by
  have hchecked := h.checked (by rw [hp]; rfl)
  have hanswered := h.answered (by rw [hp]; rfl)
  unfold Machine.writeSocketStep
  split
  · split
    · next bytes offset hsocket =>
      obtain ⟨hframe, hlt⟩ := h.core.frame bytes offset hsocket
      have hqueued : m.state.toSocket ≠ .collecting := by
        intro hcollecting
        rw [hcollecting] at hsocket
        cases hsocket
      have hempty : m.state.stdinFrame = [] := h.core.waiting hqueued
      split
      · exact Inv.fail h.core _
      · next next hwrite =>
        obtain ⟨-, hle, htake⟩ := relayWriteOnce_spec hwrite hlt
        obtain ⟨frames, hframes, hsent, hbytes⟩ := h.core.sent
        rw [hsocket] at hsent hbytes
        have hnotShut : m.world.writeShut ≠ true := by
          intro hshut
          rw [h.core.shut hshut] at hsocket
          cases hsocket
        have hnotReading : m.stdinEvents.isReadable ≠ true := by
          intro hreadable
          rw [(hanswered hreadable).2] at hsocket
          cases hsocket
        refine ⟨{ h.core with
          sent := ?_, frame := ?_, waiting := fun _ => hempty, truncated := ?_, shut := ?_,
          closed := ?_ }, fun _ => hchecked, fun _ hreadable => absurd hreadable hnotReading,
          fun hfinished => ?_⟩
        · simp only [SocketTx.sent] at hsent
          rw [hsent, List.append_assoc, htake]
          split
          · next heq =>
            rw [heq, List.take_length]
            refine ⟨frames ++ [bytes], ?_, by simp [SocketTx.sent], ?_⟩
            · simpa [or_imp, forall_and] using ⟨hframes, hframe⟩
            · simpa [SocketTx.bytes] using hbytes
          · exact ⟨frames, hframes, rfl, hbytes⟩
        · intro bytes' offset' hqueued
          split at hqueued
          · cases hqueued
          · next hne =>
            cases hqueued
            exact ⟨hframe, lt_of_le_of_ne hle hne⟩
        · exact fun htruncated => absurd htruncated hchecked.2
        · exact fun hshut => absurd hshut hnotShut
        · intro hclosed
          split at hclosed <;> cases hclosed
        · cases hfinished
    · exact ⟨h.core, fun _ => hchecked, fun _ => hanswered, fun hfinished => by cases hfinished⟩
  · exact ⟨h.core, fun _ => hchecked, fun _ => hanswered, fun hfinished => by cases hfinished⟩

/-- With a frame still growing, the limit of the read is positive and no read is mistaken for the
end of the stream. -/
theorem sysRead_empty {answer : ReadAnswer} {limit : ℕ} (hlimit : 0 < limit)
    (h : sysRead answer limit = .data []) : answer = .ended := by
  obtain ⟨limit, rfl⟩ := Nat.exists_eq_succ_of_ne_zero hlimit.ne'
  cases answer with
  | bytes first rest => cases h
  | ended => rfl
  | retry | failed => cases h

theorem sysRead_length {answer : ReadAnswer} {limit : ℕ} {bytes : List UInt8}
    (h : sysRead answer limit = .data bytes) : bytes.length ≤ limit := by
  cases answer with
  | bytes first rest =>
    obtain rfl := ReadResult.data.inj h
    exact List.length_take_le _ _
  | ended =>
    obtain rfl := ReadResult.data.inj h
    exact Nat.zero_le _
  | retry | failed => cases h

theorem inv_readStdinOnce {m : Machine} (h : Inv m) (hp : m.phase = .readStdin)
    (hopen : m.state.stdin = .open) (hcollecting : m.state.toSocket = .collecting) (a : Answers) :
    Inv (m.readStdinOnce a) := by
  obtain ⟨⟨n, hn, hlt⟩, -⟩ := h.checked (by rw [hp]; rfl)
  have hlimit : 0 < min (n - m.state.stdinFrame.length) bufLen := by
    rw [bufLen]
    omega
  have hnotClosed : m.state.toSocket ≠ .closed := by
    rw [hcollecting]
    nofun
  unfold Machine.readStdinOnce
  rw [hn]
  dsimp only
  split
  · next hread =>
    rw [sysRead_empty hlimit hread]
    dsimp only
    refine ⟨{ h.core with
      reading := ?_, clean := ?_, truncated := ?_, closed := fun hclosed => absurd hclosed hnotClosed },
      nofun, nofun, nofun⟩
    · intro hstdin
      split at hstdin <;> cases hstdin
    · intro hstdin
      split at hstdin
      · next hempty => exact ⟨rfl, hempty⟩
      · cases hstdin
    · intro hstdin
      split at hstdin
      · cases hstdin
      · next hne => exact ⟨rfl, hne, ⟨n, hn, hlt⟩, hcollecting⟩
  · next b bytes hread =>
    have hlength := sysRead_length hread
    obtain ⟨frames, hframes, hsent, hbytes⟩ := h.core.sent
    have hstdin : m.state.stdin ≠ .eofClean ∧ m.state.stdin ≠ .eofTruncated := by
      rw [hopen]
      exact ⟨nofun, nofun⟩
    exact ⟨{ h.core with
      sent := ⟨frames, hframes, hsent, by rw [hbytes, List.append_assoc]⟩
      bounded := Growing.append hn (by omega)
      waiting := fun hne => absurd hcollecting hne
      clean := fun hclean => absurd hclean hstdin.1
      truncated := fun htruncated => absurd htruncated hstdin.2 }, nofun, nofun, nofun⟩
  · exact ⟨h.core, nofun, nofun, nofun⟩
  · exact Inv.fail h.core _

theorem inv_readStdinStep {m : Machine} (h : Inv m) (hp : m.phase = .readStdin) (a : Answers) :
    Inv (m.readStdinStep a) := by
  unfold Machine.readStdinStep
  split
  · next hreadable =>
    obtain ⟨hopen, hcollecting⟩ := h.answered (by rw [hp]; rfl) hreadable
    exact inv_readStdinOnce h hp hopen hcollecting a
  · exact ⟨h.core, nofun, nofun, nofun⟩

/-- Every moment of the loop keeps the invariant, whatever the system answers. -/
theorem inv_step {m : Machine} (h : Inv m) (a : Answers) : Inv (m.step a) := by
  unfold Machine.step
  split
  · split
    · exact ⟨h.core, nofun, nofun, nofun⟩
    · exact Inv.fail h.core _
  · exact inv_queueStep h.core
  · next hp => exact inv_shutdownStep h hp a
  · next hp => exact inv_pollStep h hp a
  · next hp => exact inv_writeStdoutStep h hp a
  · next hp => exact inv_readSocketStep h hp a
  · next hp => exact inv_writeSocketStep h hp a
  · next hp => exact inv_readStdinStep h hp a
  · exact h

theorem inv_of_reachable {m : Machine} (h : relay.Reachable m) : Inv m :=
  h.invariant (P := Inv) inv_start fun _ a _ hinv _ => inv_step hinv a

/-- What the relay promises at each moment. -/
structure Relayed (m : Machine) : Prop where
  sent : m.world.socketOut <+: m.world.stdin
  /-- Behind the frames that were queued there is the front of one more, which is collected. -/
  frames : ∃ frames : List (List UInt8), ∃ unsent : List UInt8, (∀ f ∈ frames, IsFrame f) ∧
    m.world.socketOut ++ unsent = frames.flatten ∧
    m.world.stdin = frames.flatten ++ m.state.stdinFrame
  shut : m.world.writeShut = true → m.world.stdinEnded = true ∧ m.world.socketOut = m.world.stdin ∧
    ∃ frames : List (List UInt8), (∀ f ∈ frames, IsFrame f) ∧ m.world.stdin = frames.flatten
  /-- Bytes that end inside a frame or declare too many are not queued, and the relay fails. -/
  refused : m.world.stdinEnded = true ∧ m.state.stdinFrame ≠ [] ∨
      (∃ e, relayStdinFrameLen m.state.stdinFrame = .error e) →
    ∀ a, ∃ e, (m.step a).phase = .finished (.error e)
  shown : m.world.stdout <+: m.world.socketIn
  finished : m.phase = .finished (.ok ()) →
    m.world.socketEnded = true ∧ m.world.stdout = m.world.socketIn
  /-- `read_stdin_once` has bytes to ask for. -/
  asked : m.phase = .readStdin → m.stdinEvents.isReadable = true →
    ∃ n, relayStdinFrameLen m.state.stdinFrame = .ok n ∧ 0 < n - m.state.stdinFrame.length

theorem Core.sent_prefix {s : RelayState} {w : World} (h : Core s w) : w.socketOut <+: w.stdin := by
  obtain ⟨frames, -, hsent, hbytes⟩ := h.sent
  have hpart : s.toSocket.sent <+: s.toSocket.bytes := by
    cases s.toSocket with
    | queued bytes offset => exact List.take_prefix _ _
    | collecting | closed => exact List.prefix_rfl
  rw [hsent, hbytes, List.append_assoc, List.prefix_append_right_inj]
  exact hpart.trans (List.prefix_append _ _)

theorem Core.frames {s : RelayState} {w : World} (h : Core s w) :
    ∃ frames : List (List UInt8), ∃ unsent : List UInt8, (∀ f ∈ frames, IsFrame f) ∧
      w.socketOut ++ unsent = frames.flatten ∧ w.stdin = frames.flatten ++ s.stdinFrame := by
  obtain ⟨frames, hframes, hsent, hbytes⟩ := h.sent
  cases hsocket : s.toSocket with
  | queued bytes offset =>
    rw [hsocket] at hsent hbytes
    refine ⟨frames ++ [bytes], bytes.drop offset, ?_, ?_, ?_⟩
    · simpa [or_imp, forall_and] using ⟨hframes, (h.frame bytes offset hsocket).1⟩
    · rw [hsent, SocketTx.sent, List.append_assoc, List.take_append_drop]
      simp
    · simpa [SocketTx.bytes] using hbytes
  | collecting | closed =>
    rw [hsocket] at hsent hbytes
    exact ⟨frames, [], hframes, by simpa [SocketTx.sent] using hsent,
      by simpa [SocketTx.bytes] using hbytes⟩

theorem Core.shown_prefix {s : RelayState} {w : World} (h : Core s w) :
    w.stdout <+: w.socketIn := by
  obtain ⟨old, hshown, hread⟩ := h.shown
  rw [hshown, hread, List.prefix_append_right_inj]
  cases s.toStdout with
  | queued bytes offset => exact List.take_prefix _ _
  | empty => exact List.prefix_rfl

/-- A frame that is cut off or too long is looked at next, and ends the relay. -/
theorem refused_of_inv {m : Machine} (h : Inv m)
    (hbad : m.world.stdinEnded = true ∧ m.state.stdinFrame ≠ [] ∨
      ∃ e, relayStdinFrameLen m.state.stdinFrame = .error e) (a : Answers) :
    ∃ e, (m.step a).phase = .finished (.error e) := by
  have hbad' : m.state.stdin = .eofTruncated ∨
      ∃ e, relayStdinFrameLen m.state.stdinFrame = .error e := by
    refine hbad.imp_left fun ⟨hended, hne⟩ => ?_
    cases hstdin : m.state.stdin with
    | «open» =>
      rw [h.core.reading hstdin] at hended
      cases hended
    | eofClean => exact absurd (h.core.clean hstdin).2 hne
    | eofTruncated => rfl
  have hunchecked : m.phase.checked ≠ true := by
    intro hchecked
    obtain ⟨⟨n, hn, -⟩, hstdin⟩ := h.checked hchecked
    obtain htruncated | ⟨e, he⟩ := hbad'
    · exact hstdin htruncated
    · rw [hn] at he
      cases he
  unfold Machine.step
  split
  all_goals first | (next hp => exact absurd (by rw [hp]; rfl) hunchecked) | skip
  · unfold Machine.queueStep
    obtain ⟨hok, hgrowing⟩ | ⟨e, herror, -⟩ | ⟨-, -, hlen, -⟩ :=
      queueCompleteStdinFrame_cases h.core.bounded
    · rw [hok]
      dsimp only
      obtain ⟨n, hn, -⟩ := h.core.growing hgrowing
      obtain htruncated | ⟨e, he⟩ := hbad'
      · rw [if_pos htruncated]
        exact ⟨_, rfl⟩
      · rw [hn] at he
        cases he
    · rw [herror]
      exact ⟨e, rfl⟩
    · obtain htruncated | ⟨e, he⟩ := hbad'
      · obtain ⟨-, -, ⟨n, hn, hlt⟩, -⟩ := h.core.truncated htruncated
        rw [hlen] at hn
        exact absurd (Except.ok.inj hn) hlt.ne
      · rw [hlen] at he
        cases he
  · next result hp =>
    cases result with
    | error e => exact ⟨e, hp⟩
    | ok u => exact absurd (by rw [hp]; rfl) hunchecked

/-- Under every schedule of readiness, partial reads, partial writes and errors, the relay keeps
its promises at every moment. -/
theorem relay_streams (m : Machine) (h : relay.Reachable m) : Relayed m := by
  have hinv := inv_of_reachable h
  refine ⟨hinv.core.sent_prefix, hinv.core.frames, ?_, refused_of_inv hinv,
    hinv.core.shown_prefix, ?_, ?_⟩
  · intro hshut
    have hclosed := hinv.core.shut hshut
    obtain ⟨hended, hempty⟩ := hinv.core.clean (hinv.core.closed hclosed)
    obtain ⟨frames, hframes, hsent, hbytes⟩ := hinv.core.sent
    rw [hclosed] at hsent hbytes
    simp only [hempty, SocketTx.sent, SocketTx.bytes, List.append_nil] at hsent hbytes
    exact ⟨hended, hsent.trans hbytes.symm, frames, hframes, hbytes⟩
  · intro hfinished
    obtain ⟨heof, hempty⟩ := hinv.finished hfinished
    obtain ⟨old, hshown, hread⟩ := hinv.core.shown
    rw [hempty] at hshown hread
    exact ⟨hinv.core.ended heof, hshown.trans hread.symm⟩
  · intro hp _
    obtain ⟨⟨n, hn, hlt⟩, -⟩ := hinv.checked (by rw [hp]; rfl)
    exact ⟨n, hn, Nat.sub_pos_of_lt hlt⟩

/-- One turn of the loop, with what `poll` reports and the calls answer. -/
def turn (stdin socket : Events) (read : ReadAnswer) (write : WriteAnswer) : List Answers :=
  List.replicate 7 ⟨true, true, .ready stdin socket .none, read, write⟩

/-- An empty frame is read, sent in two writes, and both streams end. -/
def emptyFrameSchedule : List Answers :=
  let readable : Events := { Events.none with input := true }
  let writable : Events := { Events.none with output := true }
  ⟨true, true, .interrupted, .retry, .retry⟩ ::
    (turn readable .none (.bytes 0 [0, 0, 0]) .retry ++ turn .none writable .retry (.takes 3) ++
      turn .none writable .retry (.takes 1) ++ turn readable .none .ended .retry ++
      turn .none readable .ended .retry ++ turn .none .none .retry .retry)

theorem relay_streams_emptyFrame :
    Relayed (relay.run .start emptyFrameSchedule) ∧
      (relay.run .start emptyFrameSchedule).world.socketOut = [0, 0, 0, 0] ∧
      (relay.run .start emptyFrameSchedule).world.writeShut = true := by
  have hvalid : relay.Valid .start emptyFrameSchedule := by
    simp [emptyFrameSchedule, turn, Transition.System.Valid, relay]
  exact ⟨relay_streams _ (Transition.System.Reachable.init.run emptyFrameSchedule hvalid),
    by decide, by decide⟩

end Winsmux.RemoteHelper.Relay
