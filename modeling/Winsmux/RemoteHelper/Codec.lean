import Winsmux.RemoteHelper.Protocol

/-!
# The codec on the messages the two ends exchange

Lengths of the payloads, message by message, the round trip through
`decodePayload`, and the framing of a sequence of payloads.
-/
namespace Winsmux.RemoteHelper
open Json

theorem code_width (c : RejectCode) : escapedLength c.name ≤ 17 := by cases c <;> decide

theorem key_widths :
    escapedLength (utf8 "type") = 4 ∧ escapedLength (utf8 "protocol_version") = 16 ∧
    escapedLength (utf8 "client_version") = 14 ∧ escapedLength (utf8 "nonce") = 5 ∧
    escapedLength (utf8 "capabilities") = 12 ∧ escapedLength (utf8 "peer_frame_limit") = 16 ∧
    escapedLength (utf8 "code") = 4 ∧ escapedLength (utf8 "detail") = 6 ∧
    escapedLength (utf8 "executable") = 10 ∧ escapedLength (utf8 "resolution") = 10 ∧
    escapedLength (utf8 "argv") = 4 ∧ escapedLength (utf8 "cols") = 4 ∧
    escapedLength (utf8 "rows") = 4 ∧ escapedLength (utf8 "session_id") = 10 ∧
    escapedLength (utf8 "child_pid") = 9 ∧ escapedLength (utf8 "resolved_executable") = 19 ∧
    escapedLength (utf8 "data_b64") = 8 ∧ escapedLength (utf8 "absolute_path") = 13 ∧
    escapedLength (utf8 "user_candidates") = 15 := by decide

theorem tag_widths :
    escapedLength (utf8 "hello") = 5 ∧ escapedLength (utf8 "welcome") = 7 ∧
    escapedLength (utf8 "reject") = 6 ∧ escapedLength (utf8 "pty-start") = 9 ∧
    escapedLength (utf8 "pty-started") = 11 ∧ escapedLength (utf8 "pty-start-ack") = 13 ∧
    escapedLength (utf8 "pty-exited") = 10 ∧ escapedLength (utf8 "pty-attach") = 10 ∧
    escapedLength (utf8 "pty-attached") = 12 ∧ escapedLength (utf8 "pty-detach") = 10 ∧
    escapedLength (utf8 "pty-detached") = 12 ∧ escapedLength (utf8 "pty-stop") = 8 ∧
    escapedLength (utf8 "pty-stopped") = 11 ∧ escapedLength (utf8 "pty-input") = 9 ∧
    escapedLength (utf8 "pty-output") = 10 ∧ escapedLength (utf8 "pty-resize") = 10 := by decide

theorem u16_width (n : UInt16) : (decimal n.toNat).length ≤ 5 :=
  decimal_length_le (by decide) (n.toNat_lt.trans (by decide))

theorem u32_width (n : UInt32) : (decimal n.toNat).length ≤ 10 :=
  decimal_length_le (by decide) (n.toNat_lt.trans (by decide))

/-- Every payload opens with the brace and the tag of its message. -/
theorem encodePayload_length (m : Message) :
    (encodePayload m).length = 11 + escapedLength m.kind.tag +
      (m.fields.map fun d => escapedLength d.1 + d.2.toVec.length + 4).sum := by
  rw [encodePayload, Message.toValue, toVec_obj_length]
  simp only [List.map_cons, List.sum_cons, toVec_str, quote_length, key_widths]
  omega

theorem textArray_length_le {ss : List Text} {m : ℕ} (h : ∀ s ∈ ss, s.length ≤ m) :
    (textArray ss).toVec.length ≤ (6 * m + 3) * ss.length - 1 + 2 := by
  have := itemsToVec_str_length_le ss m h
  simp only [textArray, Value.toVec, List.length_cons, List.length_append, List.length_nil]
  omega

/-- Checks in sequence pass when each of them does. -/
theorem checks_ok {first second : Except Text Unit} :
    (do first; second) = .ok () ↔ first = .ok () ∧ second = .ok () := by
  cases first <;> simp [bind, Except.bind]

theorem dimensionsAreLegal_ok {cols rows : UInt16} (h : dimensionsAreLegal cols rows = .ok ()) :
    (decimal cols.toNat).length ≤ 3 ∧ (decimal rows.toNat).length ≤ 3 := by
  unfold dimensionsAreLegal at h
  split_ifs at h with hd
  simp only [not_or, UInt16.not_lt, UInt16.le_iff_toNat_le] at hd
  have hc : cols.toNat ≤ 512 := hd.2.1
  have hr : rows.toNat ≤ 512 := hd.2.2.2
  exact ⟨decimal_length_le (by decide) (by omega), decimal_length_le (by decide) (by omega)⟩

theorem unixAbsolutePathIsLegal_length {path : Text} (h : unixAbsolutePathIsLegal path = true) :
    path.length ≤ maxExecutableBytes := by
  simp only [unixAbsolutePathIsLegal, Bool.and_eq_true, decide_eq_true_eq] at h
  exact h.1.1.1.2

theorem dataIsLegal_length {data : Text} (h : dataIsLegal data = .ok ()) :
    data.length ≤ 344 := by
  unfold dataIsLegal at h
  cases hd : decodeBase64 data with
  | none => rw [hd] at h; cases h
  | some bytes =>
    rw [hd] at h
    dsimp only at h
    split_ifs at h with hb
    have hlen : bytes.length ≤ 256 := by
      simp only [not_or, not_lt] at hb
      exact hb.2
    rw [← encodeBase64_of_decodeBase64 hd, encodeBase64_length]
    omega

/-- The two providers a resolution may name, and the paths and the count it may carry. -/
theorem resolutionIsLegal_ok {executable : Text} {argv : List Text} {r : AgentResolution}
    (h : resolutionIsLegal executable argv r = .ok ()) :
    executable.length ≤ 6 ∧ (∀ path ∈ r.absolutePath, path.length ≤ maxExecutableBytes) ∧
      (∀ path ∈ r.userCandidates, path.length ≤ maxExecutableBytes) ∧
      argv.length + r.userCandidates.length ≤ if r.absolutePath.isSome then 7 else 8 := by
  unfold resolutionIsLegal at h
  split_ifs at h with hname hpath hsome
  all_goals
    have hexe : executable.length ≤ 6 := by
      rcases not_and_or.mp hname with hc | hc <;> rw [not_not.mp hc] <;> decide
    simp only [Bool.or_eq_true, not_or, Option.any_eq_true, List.any_eq_true, not_exists, not_and,
      Bool.not_eq_true', Bool.not_eq_false] at hpath
    have hcount := (ite_eq_right_iff.mp h).mt (by simp)
    refine ⟨hexe, fun path hp => unixAbsolutePathIsLegal_length (hpath.1 path hp),
      fun path hp => unixAbsolutePathIsLegal_length (hpath.2 path hp), ?_⟩
    simpa [hsome, maxArgvCount] using hcount

theorem validateMessage_ptyStart {executable : Text} {resolution : Option AgentResolution}
    {argv : List Text} {cols rows : UInt16}
    (h : validateMessage (.ptyStart executable resolution argv cols rows) = .ok ()) :
    executable.length ≤ maxExecutableBytes ∧ argv.length ≤ maxArgvCount ∧
      (∀ a ∈ argv, a.length ≤ maxArgvElemBytes) ∧
      (∀ r ∈ resolution, resolutionIsLegal executable argv r = .ok ()) ∧
      dimensionsAreLegal cols rows = .ok () := by
  simp only [validateMessage] at h
  split_ifs at h with he ha
  simp only [not_or, not_lt, List.any_eq_true, not_exists, not_and, decide_eq_true_eq] at he ha
  refine ⟨he.2.1, ha.1, fun a hm => (ha.2 a hm).1, ?_⟩
  cases resolution with
  | none => exact ⟨by simp, h⟩
  | some r =>
    obtain ⟨hr, hdim⟩ := checks_ok.mp h
    exact ⟨by simpa using hr, hdim⟩

theorem encodePayload_reject_length (code : RejectCode) (detail : Text) :
    (encodePayload (.reject code detail)).length =
      39 + escapedLength code.name + escapedLength detail := by
  rw [encodePayload_length]
  simp only [Message.kind, Kind.tag, Message.fields, toVec_str, quote_length, List.map_cons,
    List.map_nil, List.sum_cons, List.sum_nil, tag_widths, key_widths]
  omega

/-- The four messages that carry a session id and nothing else. -/
theorem encodePayload_session_length (m : Message) (sessionId : Text)
    (h : m.fields = [(utf8 "session_id", .str sessionId)]) :
    (encodePayload m).length = 27 + escapedLength m.kind.tag + escapedLength sessionId := by
  rw [encodePayload_length, h]
  simp only [toVec_str, quote_length, List.map_cons, List.map_nil, List.sum_cons, List.sum_nil,
    key_widths]
  omega

theorem encodePayload_ptyAttached_length_le (sessionId : Text) (childPid : UInt32) :
    (encodePayload (.ptyAttached sessionId childPid)).length ≤ 62 + escapedLength sessionId := by
  have := u32_width childPid
  rw [encodePayload_length]
  simp only [Message.kind, Kind.tag, Message.fields, toVec_str, toVec_num, quote_length, List.map_cons,
    List.map_nil, List.sum_cons, List.sum_nil, tag_widths, key_widths]
  omega

theorem encodePayload_ptyStarted_length (sessionId : Text) (childPid : UInt32)
    (resolved : Option Text) :
    (encodePayload (.ptyStarted sessionId childPid resolved)).length =
      51 + escapedLength sessionId + (decimal childPid.toNat).length +
        (resolved.map fun path => escapedLength path + 25).getD 0 := by
  rw [encodePayload_length]
  cases resolved <;>
  simp only [Message.kind, Kind.tag, Message.fields, optionalField, toVec_str, toVec_num, quote_length,
    List.map_cons, List.map_nil, List.sum_cons, List.sum_nil, tag_widths, key_widths,
    Option.map_some, Option.map_none, Option.getD_some, Option.getD_none] <;> omega

theorem encodePayload_data_length (m : Message) (data : Text)
    (h : m.fields = [(utf8 "data_b64", .str data)]) :
    (encodePayload m).length = 25 + escapedLength m.kind.tag + escapedLength data := by
  rw [encodePayload_length, h]
  simp only [toVec_str, quote_length, List.map_cons, List.map_nil, List.sum_cons, List.sum_nil,
    key_widths]
  omega

theorem AgentResolution.toValue_length_le {r : AgentResolution}
    (hpath : ∀ path ∈ r.absolutePath, path.length ≤ maxExecutableBytes)
    (hcandidates : ∀ path ∈ r.userCandidates, path.length ≤ maxExecutableBytes) :
    r.toValue.toVec.length ≤
      (if r.absolutePath.isSome then 1577 else 22) + 1539 * r.userCandidates.length := by
  obtain ⟨path, candidates⟩ := r
  have hc := textArray_length_le hcandidates
  simp only [maxExecutableBytes] at hc hpath
  cases path with
  | none =>
    simp only [AgentResolution.toValue, optionalField, List.nil_append, toVec_obj_length,
      List.map_cons, List.map_nil, List.sum_cons, List.sum_nil, key_widths, Option.isSome_none]
    simp only [Bool.false_eq_true, if_false]
    omega
  | some path =>
    have hp := hpath path rfl
    have := escapedLength_le path
    simp only [AgentResolution.toValue, optionalField, List.cons_append, List.nil_append,
      toVec_obj_length, List.map_cons, List.map_nil, List.sum_cons, List.sum_nil, key_widths,
      Option.isSome_some, if_true, toVec_str, quote_length]
    omega

/-- The longest message of the protocol: every byte of the executable and of eight
arguments escaped to six, with no slack left under the ceiling. -/
theorem encodePayload_ptyStart_length_le {executable : Text} {resolution : Option AgentResolution}
    {argv : List Text} {cols rows : UInt16}
    (h : validateMessage (.ptyStart executable resolution argv cols rows) = .ok ()) :
    (encodePayload (.ptyStart executable resolution argv cols rows)).length ≤ maxFrameLen := by
  obtain ⟨hexe, hcount, hargs, hres, hdim⟩ := validateMessage_ptyStart h
  obtain ⟨hcols, hrows⟩ := dimensionsAreLegal_ok hdim
  have hargv := textArray_length_le hargs
  have he := escapedLength_le executable
  rw [encodePayload_length]
  simp only [maxExecutableBytes, maxArgvCount, maxArgvElemBytes, maxFrameLen] at *
  cases resolution with
  | none =>
    simp only [Message.kind, Kind.tag, Message.fields, toVec_str, toVec_num, quote_length, List.nil_append,
      List.map_cons, List.map_nil, List.sum_cons, List.sum_nil, tag_widths, key_widths]
    omega
  | some r =>
    obtain ⟨hname, hpath, hcandidates, hsum⟩ := resolutionIsLegal_ok (hres r rfl)
    have hr := AgentResolution.toValue_length_le hpath hcandidates
    simp only [Message.kind, Kind.tag, Message.fields, toVec_str, toVec_num, quote_length, List.cons_append,
      List.nil_append, List.map_cons, List.map_nil, List.sum_cons, List.sum_nil, tag_widths,
      key_widths]
    split_ifs at hsum hr <;> omega

theorem sessionId_width {sessionId : Text} (h : sessionIdIsLegal sessionId = .ok ()) :
    escapedLength sessionId = maxSessionIdHex := by
  unfold sessionIdIsLegal at h
  split_ifs at h with hs
  simp only [not_or, not_not, List.all_eq_true, Bool.or_eq_true, decide_eq_true_eq] at hs
  rw [escapedLength_eq sessionId, hs.1]
  intro c hc
  have hrange := hs.2 c hc
  simp only [isAsciiDigit, decide_eq_true_eq, UInt8.le_iff_toNat_le] at hrange
  have hlow : 0x30 ≤ c.toNat := by
    rcases hrange with h | h
    · exact h.1
    · exact le_trans (by decide) h.1
  have hne : c ≠ 0x5c := by
    rintro rfl
    revert hrange
    decide
  refine escapedWidth_eq_one (le_trans (by decide) hlow) ?_ hne
  rintro rfl
  exact absurd hlow (by decide)

/-- No message that passes validation is longer than the ceiling; the handshake
messages are bounded by `negotiate` instead. -/
theorem encodePayload_length_le_of_valid {m : Message} (h : validateMessage m = .ok ())
    (hhello : m.kind ≠ .hello) (hwelcome : m.kind ≠ .welcome) :
    (encodePayload m).length ≤ maxFrameLen := by
  have htag : escapedLength m.kind.tag ≤ 13 := by cases m.kind <;> decide
  have hsession : ∀ sessionId, m.fields = [(utf8 "session_id", .str sessionId)] →
      sessionIdIsLegal sessionId = .ok () → (encodePayload m).length ≤ maxFrameLen := by
    intro sessionId hf hs
    rw [encodePayload_session_length m sessionId hf, sessionId_width hs]
    simp only [maxFrameLen, maxSessionIdHex]
    omega
  have hdata : ∀ data, m.fields = [(utf8 "data_b64", .str data)] →
      dataIsLegal data = .ok () → (encodePayload m).length ≤ maxFrameLen := by
    intro data hf hd
    have := dataIsLegal_length hd
    have := escapedLength_le data
    rw [encodePayload_data_length m data hf]
    simp only [maxFrameLen]
    omega
  cases m with
  | hello => exact absurd rfl hhello
  | welcome => exact absurd rfl hwelcome
  | reject code detail =>
    have := code_width code
    have := escapedLength_le detail
    simp only [validateMessage] at h
    split_ifs at h with hd
    rw [encodePayload_reject_length]
    simp only [maxRejectDetailBytes, maxFrameLen] at *
    omega
  | ptyStart => exact encodePayload_ptyStart_length_le h
  | ptyStarted sessionId childPid resolved =>
    obtain ⟨hs, h⟩ := checks_ok.mp h
    obtain ⟨-, h⟩ := checks_ok.mp h
    have := u32_width childPid
    have hr : (resolved.map fun path => escapedLength path + 25).getD 0 ≤ 1561 := by
      cases resolved with
      | none => simp
      | some path =>
        have hp : unixAbsolutePathIsLegal path = true := by
          by_contra hc
          simp [hc] at h
        have := unixAbsolutePathIsLegal_length hp
        have := escapedLength_le path
        simp only [maxExecutableBytes, Option.map_some, Option.getD_some] at *
        omega
    rw [encodePayload_ptyStarted_length, sessionId_width hs]
    simp only [maxFrameLen, maxSessionIdHex]
    omega
  | ptyAttached sessionId childPid =>
    obtain ⟨hs, -⟩ := checks_ok.mp h
    have hl := encodePayload_ptyAttached_length_le sessionId childPid
    rw [sessionId_width hs] at hl
    exact hl.trans (by decide)
  | ptyStartAck sessionId => exact hsession sessionId rfl h
  | ptyExited sessionId => exact hsession sessionId rfl h
  | ptyAttach sessionId => exact hsession sessionId rfl h
  | ptyStop sessionId => exact hsession sessionId rfl h
  | ptyInput data => exact hdata data rfl h
  | ptyOutput data => exact hdata data rfl h
  | ptyDetach => decide
  | ptyDetached => decide
  | ptyStopped => decide
  | ptyResize cols rows =>
    have := u16_width cols
    have := u16_width rows
    rw [encodePayload_length]
    simp only [Message.kind, Kind.tag, Message.fields, toVec_num, List.map_cons, List.map_nil,
      List.sum_cons, List.sum_nil, tag_widths, key_widths, maxFrameLen]
    omega

@[simp] theorem rejectWith_kind (code : RejectCode) (detail : Text) :
    (rejectWith code detail).kind = .reject := rfl

/-- A Hello is answered with Welcome only after each of its checks. -/
theorem negotiate_hello {version : UInt16} {client nonce : Text} {capabilities : List Text}
    {limit : UInt32} (h : (negotiate (.hello version client nonce capabilities limit)).kind = .welcome) :
    negotiate (.hello version client nonce capabilities limit) = welcomeFor nonce capabilities ∧
      client.length ≤ maxClientVersionBytes ∧ nonce.length = nonceHexLen ∧
      capabilities.length ≤ maxCapabilities ∧ (∀ item ∈ capabilities, item.length ≤ maxCapabilityLen) ∧
      (encodePayload (welcomeFor nonce capabilities)).length ≤ limit.toNat := by
  simp only [negotiate] at h ⊢
  split_ifs at h ⊢ with hv hc hn hcaps hl <;> try exact absurd h (by simp)
  simp only [Bool.not_eq_true', Bool.not_eq_false, clientVersionIsLegal, nonceIsLegal,
    Bool.and_eq_true, decide_eq_true_eq] at hc hn
  simp only [not_or, not_lt, List.any_eq_true, not_exists, not_and, decide_eq_true_eq] at hcaps
  exact ⟨rfl, hc.1.2, hn.1, hcaps.1, fun item hi => (hcaps.2 item hi).2.1, not_lt.mp hl⟩

/-- Only a Hello is answered with Welcome. -/
theorem negotiate_welcome {m : Message} (h : (negotiate m).kind = .welcome) :
    ∃ version client nonce capabilities limit,
      m = .hello version client nonce capabilities limit := by
  cases m with
  | hello version client nonce capabilities limit => exact ⟨_, _, _, _, _, rfl⟩
  | _ => exact absurd h (by simp [negotiate])

theorem encodePayload_hello_length_le {version : UInt16} {client nonce : Text}
    {capabilities : List Text} {limit : UInt32}
    (h : (negotiate (.hello version client nonce capabilities limit)).kind = .welcome) :
    (encodePayload (.hello version client nonce capabilities limit)).length ≤ maxFrameLen := by
  obtain ⟨-, hclient, hnonce, hcount, hitems, -⟩ := negotiate_hello h
  have := u16_width version
  have := u32_width limit
  have := escapedLength_le client
  have := escapedLength_le nonce
  have := textArray_length_le hitems
  rw [encodePayload_length]
  simp only [Message.kind, Kind.tag, Message.fields, toVec_str, toVec_num, quote_length,
    List.map_cons, List.map_nil, List.sum_cons, List.sum_nil, tag_widths, key_widths]
  simp only [maxClientVersionBytes, nonceHexLen, maxCapabilities, maxCapabilityLen,
    maxFrameLen] at *
  omega

theorem welcomeFor_length (nonce : Text) (capabilities : List Text) :
    (encodePayload (welcomeFor nonce capabilities)).length =
      91 + escapedLength nonce + (textArray (selectedCapabilities capabilities)).toVec.length := by
  have hversion : (decimal protocolVersion.toNat).length = 1 := by decide
  have hlimit : (decimal (UInt32.ofNat maxFrameLen).toNat).length = 5 := by decide
  rw [encodePayload_length]
  simp only [welcomeFor, Message.kind, Kind.tag, Message.fields, toVec_str, toVec_num,
    quote_length, List.map_cons, List.map_nil, List.sum_cons, List.sum_nil, tag_widths, key_widths,
    hversion, hlimit]
  omega

theorem selectedCapabilities_length (capabilities : List Text) :
    (selectedCapabilities capabilities).length ≤ 4 ∧
      ∀ item ∈ selectedCapabilities capabilities, item.length ≤ 20 := by
  refine ⟨List.length_filter_le _ _, fun item hi => ?_⟩
  have hmem := List.mem_of_mem_filter hi
  have hall : ∀ item ∈ supportedCapabilities, item.length ≤ 20 := by decide
  exact hall item hmem

theorem encodePayload_welcomeFor_length_le {nonce : Text} {capabilities : List Text}
    (h : nonce.length = nonceHexLen) :
    (encodePayload (welcomeFor nonce capabilities)).length ≤ maxFrameLen := by
  obtain ⟨hcount, hitems⟩ := selectedCapabilities_length capabilities
  have := escapedLength_le nonce
  have := textArray_length_le hitems
  rw [welcomeFor_length]
  simp only [nonceHexLen, maxFrameLen] at *
  omega

/-- A written message is read back as itself when it passes validation. -/
theorem decodeValue_toValue {m : Message} (h : validateMessage m = .ok ()) :
    decodeValue (some m.toValue) = .ok m := by
  have htype : (m.toValue.get (utf8 "type")).bind Value.asStr = some m.kind.tag := by
    simp [Message.toValue, Value.get]
  simp only [decodeValue, htype, ofTag_tag, fromValue_toValue, h]

/-- The messages the two ends exchange: terminal messages and rejects that pass
validation, a Hello that is answered with Welcome, and that Welcome. -/
inductive Exchanged : Message → Prop
  | valid {m : Message} : validateMessage m = .ok () → m.kind ≠ .hello → m.kind ≠ .welcome →
      Exchanged m
  | hello {m : Message} : (negotiate m).kind = .welcome → Exchanged m
  | welcome {m : Message} : (negotiate m).kind = .welcome → Exchanged (negotiate m)

namespace Exchanged

theorem validates {m : Message} (h : Exchanged m) : validateMessage m = .ok () := by
  cases h with
  | valid h => exact h
  | hello h =>
    obtain ⟨_, _, _, _, _, rfl⟩ := negotiate_welcome h
    rfl
  | welcome h =>
    obtain ⟨_, _, _, _, _, rfl⟩ := negotiate_welcome h
    rw [(negotiate_hello h).1]
    rfl

theorem length_pos (m : Message) : 1 ≤ (encodePayload m).length := by
  rw [encodePayload_length]
  omega

theorem length_le {m : Message} (h : Exchanged m) : (encodePayload m).length ≤ maxFrameLen := by
  cases h with
  | valid h hhello hwelcome => exact encodePayload_length_le_of_valid h hhello hwelcome
  | hello h =>
    obtain ⟨_, _, _, _, _, rfl⟩ := negotiate_welcome h
    exact encodePayload_hello_length_le h
  | welcome h =>
    obtain ⟨_, _, _, _, _, rfl⟩ := negotiate_welcome h
    obtain ⟨heq, -, hnonce, -⟩ := negotiate_hello h
    rw [heq]
    exact encodePayload_welcomeFor_length_le hnonce

theorem encodeFrame_eq {m : Message} (h : Exchanged m) :
    encodeFrame m = some (frameOfPayload (encodePayload m)) := by
  simp only [encodeFrame]
  exact if_neg (not_lt.mpr h.length_le)

end Exchanged

/-- The declared length read back from the prefix of a frame. -/
theorem readFrame_frameOfPayload {payload : List UInt8} (hpos : 1 ≤ payload.length)
    (hle : payload.length ≤ maxFrameLen) (rest : List UInt8) :
    readFrame (frameOfPayload payload ++ rest) = (.payload payload, rest) := by
  have hbyte : ∀ n : ℕ, n.toUInt8.toNat = n % 256 := fun n => UInt8.toNat_ofNat'
  have hdeclared : (payload.length / 2 ^ 24).toUInt8.toNat * 2 ^ 24 +
      (payload.length / 2 ^ 16).toUInt8.toNat * 2 ^ 16 +
      (payload.length / 2 ^ 8).toUInt8.toNat * 2 ^ 8 + payload.length.toUInt8.toNat =
      payload.length := by
    simp only [maxFrameLen, hbyte] at *
    omega
  simp only [frameOfPayload, toBeBytes, List.cons_append, List.nil_append, readFrame, hdeclared]
  rw [if_neg (not_lt.mpr hle), if_neg (by omega), if_neg (by simp)]
  simp

/-- `n` calls of `read_frame`. -/
def readFrames : ℕ → List UInt8 → List FrameRead × List UInt8
  | 0, input => ([], input)
  | n + 1, input =>
    let first := readFrame input
    let others := readFrames n first.2
    (first.1 :: others.1, others.2)

/-- Payloads of legal length are read back at their boundaries, whatever is in them. -/
theorem readFrames_payloads (payloads : List (List UInt8))
    (h : ∀ p ∈ payloads, 1 ≤ p.length ∧ p.length ≤ maxFrameLen) (rest : List UInt8) :
    readFrames payloads.length (payloads.flatMap frameOfPayload ++ rest) =
      (payloads.map .payload, rest) := by
  induction payloads with
  | nil => rfl
  | cons p ps ih =>
    have hp := h p (by simp)
    have hps := ih fun q hq => h q (by simp [hq])
    simp only [List.flatMap_cons, List.length_cons, List.append_assoc, readFrames,
      readFrame_frameOfPayload hp.1 hp.2, hps, List.map_cons]

/-- The parser gives back the value whose text it is given. -/
def ReadsBack (fromSlice : List UInt8 → Option Value) (v : Value) : Prop :=
  fromSlice v.toVec = some v

/-- Encoding, decoding and framing agree on everything the two ends exchange: the
payload fits a frame, it decodes to the message it was written from once the JSON
parser gives back the value that was written, a sequence of frames is read back
payload by payload, and so is a sequence of frames that decoding may reject. -/
theorem exchanged_codec (fromSlice : List UInt8 → Option Value) :
    (∀ m, Exchanged m → 1 ≤ (encodePayload m).length ∧ (encodePayload m).length ≤ maxFrameLen ∧
      (ReadsBack fromSlice m.toValue →
        decodePayload fromSlice (encodePayload m) = .ok m)) ∧
    (∀ ms : List Message, (∀ m ∈ ms, Exchanged m) → ∃ frames, ms.mapM encodeFrame = some frames ∧
      readFrames ms.length frames.flatten = (ms.map fun m => .payload (encodePayload m), [])) ∧
    (∀ (payload : List UInt8) (reject : Message) (rest : List UInt8), 1 ≤ payload.length →
      payload.length ≤ maxFrameLen → decodePayload fromSlice payload = .error reject →
      readFrame (frameOfPayload payload ++ rest) = (.payload payload, rest)) ∧
    (∀ payloads : List (List UInt8), (∀ p ∈ payloads, 1 ≤ p.length ∧ p.length ≤ maxFrameLen) →
      ∀ rest, readFrames payloads.length (payloads.flatMap frameOfPayload ++ rest) =
        (payloads.map .payload, rest)) := by
  refine ⟨fun m hm => ⟨Exchanged.length_pos m, hm.length_le, fun hcodec => ?_⟩, fun ms hms => ?_,
    fun payload _ rest hpos hle _ => readFrame_frameOfPayload hpos hle rest,
    fun payloads h rest => readFrames_payloads payloads h rest⟩
  · have hvalue : fromSlice (encodePayload m) = some m.toValue := hcodec
    rw [decodePayload, hvalue]
    exact decodeValue_toValue hm.validates
  · have hframes : ms.mapM encodeFrame = some (ms.map fun m => frameOfPayload (encodePayload m)) := by
      induction ms with
      | nil => rfl
      | cons m ms ih =>
        have hm := (hms m (by simp)).encodeFrame_eq
        have hrest := ih fun q hq => hms q (by simp [hq])
        simp [List.mapM_cons, hm, hrest]
    refine ⟨_, hframes, ?_⟩
    have hread := readFrames_payloads (ms.map encodePayload)
      (by
        intro p hp
        obtain ⟨m, hm, rfl⟩ := List.mem_map.mp hp
        exact ⟨Exchanged.length_pos m, (hms m hm).length_le⟩) []
    simpa [List.flatMap_map, List.flatMap_def, Function.comp_def] using hread

/-- A parser that knows the text of one message. -/
def parserFor (m : Message) (bytes : List UInt8) : Option Value :=
  if bytes = encodePayload m then some m.toValue else none

def sampleAck : Message := .ptyStartAck (List.replicate 32 0x30)

theorem exchanged_codec_sample :
    decodePayload (parserFor sampleAck) (encodePayload sampleAck) = .ok sampleAck ∧
    (∃ frames, [sampleAck, .ptyDetach].mapM encodeFrame = some frames ∧
      readFrames 2 frames.flatten =
        ([.payload (encodePayload sampleAck), .payload (encodePayload .ptyDetach)], [])) ∧
    readFrame (frameOfPayload [0x7b] ++ frameOfPayload (encodePayload .ptyDetach)) =
      (.payload [0x7b], frameOfPayload (encodePayload .ptyDetach)) ∧
    readFrames 1 ([[0x7b]].flatMap frameOfPayload ++ []) = ([.payload [0x7b]], []) :=
  have hack : Exchanged sampleAck := .valid rfl (by decide) (by decide)
  have hdetach : Exchanged .ptyDetach := .valid rfl (by decide) (by decide)
  have hcodec := exchanged_codec (parserFor sampleAck)
  ⟨(hcodec.1 _ hack).2.2 (by simp [ReadsBack, parserFor, encodePayload]),
    hcodec.2.1 [sampleAck, .ptyDetach] (by simp [hack, hdetach]),
    hcodec.2.2.1 [0x7b] _ _ (by decide) (by decide) (by rfl),
    hcodec.2.2.2 [[0x7b]] (by simp [maxFrameLen]) []⟩

end Winsmux.RemoteHelper
