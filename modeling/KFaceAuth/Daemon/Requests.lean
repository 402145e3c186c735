import KFaceAuth.Daemon.Protocol
import Mathlib.Tactic.Linarith

/-!
# The requests to the daemon and their senders

The PAM module sends authentication requests, the settings application asks
for the status of a profile and for its freshness. The daemon decodes all three
with one function (`decodeDaemonRequest`).

* `decodeDaemonRequest_iff`: it accepts the payloads of well-formed requests and
  nothing else;
* `remainingTimeoutMs_bounds`: the timeout that the PAM module computes from its
  deadline is within the bounds of the daemon.
-/

namespace KFaceAuth

/-! ## The senders -/

/-- The request of `pam_sm_authenticate`, behind its length. The text of the
    user is that of a C string. -/
def pamRequest (authTarget : UInt8) (targetUid : UInt32) (remainingMs : ℕ)
    (username : List UInt8) : Option (List UInt8) :=
  if 255 < username.length then none
  else some (be32 (14 + username.length) ++ be16 2 ++ [0x10] ++ [authTarget] ++
    be32 targetUid.toNat ++ be32 remainingMs ++ be16 username.length ++ username)

/-- `SystemAuthProtocol::statusRequest`. -/
def statusRequest (targetUid : UInt32) : List UInt8 :=
  be32 8 ++ be16 2 ++ [0x11] ++ [0] ++ be32 targetUid.toNat

/-- `SystemAuthProtocol::freshnessRequest`. -/
def freshnessRequest (targetUid : UInt32) (ciphertextSha256 : List UInt8) : List UInt8 :=
  if ciphertextSha256.length ≠ 32 then []
  else be32 40 ++ be16 3 ++ [0x12] ++ [0] ++ be32 targetUid.toNat ++ ciphertextSha256

/-- `struct timespec`. -/
structure Timespec where
  sec : ℤ
  nsec : ℤ
  nsec_nonneg : 0 ≤ nsec
  nsec_lt : nsec < 1000000000

/-- The time in nanoseconds. -/
def Timespec.total (t : Timespec) : ℤ := t.sec * 1000000000 + t.nsec

/-- `MAX_TIMEOUT_MS`. -/
def maxTimeoutMs : ℤ := 2000

/-- The deadline that `pam_sm_authenticate` sets. -/
def pamDeadline (start : Timespec) : Timespec :=
  let sec := start.sec + maxTimeoutMs / 1000
  let nsec := start.nsec + maxTimeoutMs % 1000 * 1000000
  if h : nsec ≥ 1000000000 then
    { sec := sec + 1, nsec := nsec - 1000000000
      nsec_nonneg := by omega
      nsec_lt := by have := start.nsec_lt; simp only [nsec, maxTimeoutMs]; omega }
  else
    { sec := sec, nsec := nsec
      nsec_nonneg := by have := start.nsec_nonneg; simp only [nsec, maxTimeoutMs]; omega
      nsec_lt := by omega }

/-- `remaining_timeout_ms`, at a reading of the clock. -/
def remainingTimeoutMs (deadline now : Timespec) : Option ℤ :=
  let borrow := deadline.nsec - now.nsec < 0
  let seconds := if borrow then deadline.sec - now.sec - 1 else deadline.sec - now.sec
  let nanoseconds :=
    if borrow then deadline.nsec - now.nsec + 1000000000 else deadline.nsec - now.nsec
  if seconds < 0 ∨ (seconds = 0 ∧ nanoseconds ≤ 0) then none
  else
    let milliseconds := seconds * 1000 + (nanoseconds + 999999) / 1000000
    some (max 1 (min milliseconds (2 ^ 31 - 1)))

/-! ## The payloads that are accepted -/

namespace DaemonRequest

/-- The payload of a request. -/
def payload : DaemonRequest → List UInt8
  | pamAuth uid target timeoutMs username =>
    be16 2 ++ ([opPamAuth] ++ ([target] ++ (be32 uid.toNat ++ (be32 timeoutMs ++
      (be16 (utf8 username).length ++ utf8 username)))))
  | status uid => be16 2 ++ ([opStatus] ++ ([0] ++ be32 uid.toNat))
  | freshness uid digest => be16 3 ++ ([opFreshness] ++ ([0] ++ (be32 uid.toNat ++ digest)))

/-- The requests that the senders make. -/
def WellFormed : DaemonRequest → Prop
  | pamAuth _ target timeoutMs username =>
    (target = authTargetSddm ∨ target = authTargetPlasmaLock) ∧ (1 ≤ timeoutMs ∧ timeoutMs ≤ 2000) ∧
      (1 ≤ (utf8 username).length ∧ (utf8 username).length ≤ 255) ∧
      Char.ofNat 0 ∉ username.toList
  | status _ => True
  | freshness _ digest => digest.length = 32

end DaemonRequest

/-- The first fields of a payload, which all requests have. -/
theorem eq_head_append {payload rest : List UInt8} {version : ℕ} {op arg : UInt8} {uid : UInt32}
    (hlen : 8 ≤ payload.length) (hversion : ofBe (payload.take 2) = version)
    (hop : payload.getD 2 0 = op) (harg : payload.getD 3 0 = arg)
    (huid : UInt32.ofNat (ofBe ((payload.drop 4).take 4)) = uid) (hrest : payload.drop 8 = rest) :
    payload = be16 version ++ ([op] ++ ([arg] ++ (be32 uid.toNat ++ rest))) := by
  have hbits : uid.toNat = ofBe ((payload.drop 4).take 4) := by
    have hlt := ofBe_lt ((payload.drop 4).take 4)
    rw [length_field (by omega)] at hlt
    rw [← huid]
    exact Nat.mod_eq_of_lt hlt
  have h₁ : (payload.drop 0).take 2 = be16 version :=
    toBe_eq_of_ofBe (length_field (by omega)) hversion
  have h₂ : (payload.drop 4).take 4 = be32 uid.toNat := by
    rw [be32_eq]
    exact toBe_eq_of_ofBe (length_field (by omega)) hbits.symm
  rw [← h₁, ← h₂, ← hop, ← harg, ← field_one (by omega), ← field_one (by omega), ← hrest]
  exact drop_eq_field_append (i := 0) <| drop_eq_field_append (i := 2) <|
    drop_eq_field_append (i := 3) <| drop_eq_field_append (i := 4) rfl

/-- The first fields of a payload, read back. -/
theorem head_fields {payload rest : List UInt8} {version : ℕ} {op arg : UInt8} {uid : UInt32}
    (h : payload = be16 version ++ ([op] ++ ([arg] ++ (be32 uid.toNat ++ rest))))
    (hversion : version < 2 ^ 16) :
    payload.length = 8 + rest.length ∧ ofBe (payload.take 2) = version ∧
      payload.getD 2 0 = op ∧ payload.getD 3 0 = arg ∧
      UInt32.ofNat (ofBe ((payload.drop 4).take 4)) = uid ∧ payload.drop 8 = rest := by
  have h₁ : (payload.drop 0).take 2 = be16 version := field_of_eq_append (a := []) h rfl rfl
  have h₂ : (payload.drop 4).take 4 = be32 uid.toNat :=
    field_of_eq_append (a := be16 version ++ [op] ++ [arg]) (by rw [h]; rfl) rfl rfl
  refine ⟨?_, ?_, ?_, ?_, ?_, ?_⟩
  · rw [h]
    simp only [List.length_append, length_be16, length_be32, List.length_singleton]
    omega
  · rw [← ofBe_be16 hversion, ← h₁]
    rfl
  · exact getD_of_eq_append (a := be16 version) h rfl
  · exact getD_of_eq_append (a := be16 version ++ [op]) (by rw [h]; rfl) rfl
  · rw [h₂, ofBe_be32 uid.toNat_lt, UInt32.ofNat_toNat]
  · rw [h]
    rfl

/-- The fields of an authentication request that follow the account. -/
theorem decodePamRequest_iff {payload : List UInt8} {request : DaemonRequest} :
    decodePamRequest payload = .ok request ↔
      ∃ timeoutMs username, payload.drop 8 = be32 timeoutMs ++ (be16 (utf8 username).length ++
          utf8 username) ∧
        14 ≤ payload.length ∧
        request = .pamAuth (.ofNat (ofBe ((payload.drop 4).take 4))) (payload.getD 3 0) timeoutMs
          username ∧ request.WellFormed := by
  unfold decodePamRequest
  simp only [check_eq_ok, not_or, not_and_or, Nat.not_lt, not_not]
  constructor
  · rintro ⟨hlen, htarget, ⟨hmin, hmax, hone, hlong, hexact⟩, h⟩
    split at h
    · cases h
    next username hname =>
    obtain ⟨hnul, h⟩ := check_eq_ok.mp h
    cases h
    have hbytes : payload.drop 14 = utf8 username := fromUTF8_iff.mp hname
    have hcount : ofBe ((payload.drop 12).take 2) = (utf8 username).length := by
      rw [← hbytes, List.length_drop]
      omega
    refine ⟨_, username, ?_, hlen, rfl, htarget, ⟨hmin, hmax⟩, ?_, ?_⟩
    · rw [← hcount, be32_eq, be16_eq, ← toBe_eq_of_ofBe (length_field (by omega)) rfl,
        ← toBe_eq_of_ofBe (length_field (by omega)) rfl, ← hbytes]
      exact drop_eq_field_append (drop_eq_field_append (i := 12) rfl)
    · rw [← hcount]
      exact ⟨hone, hlong⟩
    · simpa using hnul
  · rintro ⟨timeoutMs, username, hrest, hlen, rfl, htarget, ⟨hmin, hmax⟩, ⟨hone, hlong⟩, hnul⟩
    have hdrop : ∀ i, payload.drop (8 + i) = (payload.drop 8).drop i := fun i => by
      rw [List.drop_drop]
    have htimeout : ofBe ((payload.drop 8).take 4) = timeoutMs := by
      rw [hrest]
      exact ofBe_be32 (by omega)
    have hcount : ofBe ((payload.drop 12).take 2) = (utf8 username).length := by
      rw [show 12 = 8 + 4 from rfl, hdrop, hrest]
      exact ofBe_be16 (by omega)
    have hbytes : payload.drop 14 = utf8 username := by
      rw [show 14 = 8 + 6 from rfl, hdrop, hrest]
      rfl
    have hexact : payload.length = 14 + (utf8 username).length := by
      rw [← hbytes, List.length_drop]
      omega
    rw [htimeout, hcount, hbytes, fromUTF8_iff.mpr rfl]
    refine ⟨hlen, htarget, ⟨hmin, hmax, hone, hlong, hexact⟩, ?_⟩
    exact check_eq_ok.mpr ⟨by simpa using hnul, rfl⟩

/-- `decode_daemon_request` undoes the payload of every well-formed request,
    and accepts nothing else. -/
theorem decodeDaemonRequest_iff {payload : List UInt8} {request : DaemonRequest} :
    decodeDaemonRequest payload = .ok request ↔
      request.WellFormed ∧ payload = request.payload := by
  unfold decodeDaemonRequest
  simp only [check_eq_ok, not_or, Nat.not_lt]
  constructor
  · rintro ⟨⟨hlen, hmax⟩, h⟩
    split at h
    · next hfresh =>
      obtain ⟨hversion, hexact, hop, harg⟩ := hfresh
      cases h
      refine ⟨?_, eq_head_append hlen hversion hop harg rfl rfl⟩
      show (payload.drop 8).length = 32
      rw [List.length_drop, hexact]
    obtain ⟨hversion, h⟩ := check_eq_ok.mp h
    rw [not_not] at hversion
    split at h
    · next hop =>
      obtain ⟨timeoutMs, username, hrest, hlong, rfl, hwf⟩ := decodePamRequest_iff.mp h
      exact ⟨hwf, eq_head_append hlen hversion hop rfl rfl hrest⟩
    split at h
    · next hstatus =>
      obtain ⟨hop, hexact, harg⟩ := hstatus
      cases h
      have hrest : payload.drop 8 = [] := List.drop_eq_nil_of_le (by omega)
      have heq := eq_head_append hlen hversion hop harg rfl hrest
      rw [List.append_nil] at heq
      exact ⟨trivial, heq⟩
    · cases h
  · rintro ⟨hwf, h⟩
    cases request with
    | pamAuth uid target timeoutMs username =>
      obtain ⟨hlen, hversion, hop, harg, huid, hrest⟩ := head_fields h (by decide)
      obtain ⟨htarget, htimeout, ⟨hone, hlong⟩, hnul⟩ := hwf
      simp only [List.length_append, length_be32, length_be16] at hlen
      have hpam : decodePamRequest payload = .ok (.pamAuth uid target timeoutMs username) := by
        refine decodePamRequest_iff.mpr ⟨timeoutMs, username, hrest, by omega, ?_, htarget,
          htimeout, ⟨hone, hlong⟩, hnul⟩
        rw [huid, harg]
      refine ⟨⟨by omega, ?_⟩, ?_⟩
      · unfold maxDaemonRequestBytes
        omega
      · rw [if_neg (fun hfresh => absurd (hversion.symm.trans hfresh.1) (by decide)),
          if_neg (fun hne => hne hversion), if_pos hop, hpam]
    | status uid =>
      rw [DaemonRequest.payload, ← List.append_nil (be32 uid.toNat)] at h
      obtain ⟨hlen, hversion, hop, harg, huid, -⟩ := head_fields h (by decide)
      have hpam : payload.getD 2 0 ≠ opPamAuth := by
        rw [hop]
        decide
      refine ⟨by rw [hlen]; decide, ?_⟩
      rw [if_neg (fun hfresh => absurd (hversion.symm.trans hfresh.1) (by decide)),
        if_neg (fun hne => hne hversion), if_neg hpam, if_pos ⟨hop, hlen, harg⟩, huid]
    | freshness uid digest =>
      obtain ⟨hlen, hversion, hop, harg, huid, hrest⟩ := head_fields h (by decide)
      have hdigest : digest.length = 32 := hwf
      rw [hdigest] at hlen
      refine ⟨by rw [hlen]; decide, ?_⟩
      rw [if_pos ⟨hversion, hlen, hop, harg⟩, huid, hrest]

/-! ## The senders make well-formed requests -/

/-- The frame of `pam_sm_authenticate` holds the payload of its request. -/
theorem pamRequest_eq {target : UInt8} {uid : UInt32} {timeoutMs : ℕ} {username : String}
    (h : (utf8 username).length ≤ 255) :
    pamRequest target uid timeoutMs (utf8 username) =
      some (framed (DaemonRequest.pamAuth uid target timeoutMs username).payload) := by
  have hlen : (DaemonRequest.pamAuth uid target timeoutMs username).payload.length =
      14 + (utf8 username).length := by
    simp only [DaemonRequest.payload, List.length_append, length_be16, length_be32,
      List.length_singleton]
    omega
  rw [pamRequest, if_neg (by omega), framed, hlen]
  simp only [DaemonRequest.payload, List.append_assoc]
  rfl

theorem statusRequest_eq (uid : UInt32) :
    statusRequest uid = framed (DaemonRequest.status uid).payload := by
  simp only [statusRequest, DaemonRequest.payload, List.append_assoc]
  rfl

theorem freshnessRequest_eq {uid : UInt32} {digest : List UInt8} (h : digest.length = 32) :
    freshnessRequest uid digest = framed (DaemonRequest.freshness uid digest).payload := by
  have hlen : (DaemonRequest.freshness uid digest).payload.length = 40 := by
    simp only [DaemonRequest.payload, List.length_append, length_be16, length_be32,
      List.length_singleton, h]
  rw [freshnessRequest, if_neg (not_not.mpr h), framed, hlen]
  simp only [DaemonRequest.payload, List.append_assoc]
  rfl

/-- The deadline is two seconds after the reading it is set from. -/
theorem total_pamDeadline (start : Timespec) :
    (pamDeadline start).total = start.total + 2000000000 := by
  -- Whole seconds never carry over.
  have hcarry : ¬ start.nsec + maxTimeoutMs % 1000 * 1000000 ≥ 1000000000 := by
    have := start.nsec_lt
    unfold maxTimeoutMs
    omega
  have hdeadline : (pamDeadline start).sec = start.sec + 2 ∧
      (pamDeadline start).nsec = start.nsec := by
    unfold pamDeadline
    rw [dif_neg hcarry]
    exact ⟨rfl, Int.add_zero _⟩
  unfold Timespec.total
  rw [hdeadline.1, hdeadline.2]
  omega

/-- The timeout is what is left until the deadline, rounded up to milliseconds. -/
theorem remainingTimeoutMs_eq {deadline now : Timespec} {ms : ℤ}
    (h : remainingTimeoutMs deadline now = some ms) :
    now.total < deadline.total ∧
      ms = max 1 (min ((deadline.total - now.total + 999999) / 1000000) (2 ^ 31 - 1)) := by
  have := deadline.nsec_nonneg
  have := deadline.nsec_lt
  have := now.nsec_nonneg
  have := now.nsec_lt
  unfold remainingTimeoutMs at h
  unfold Timespec.total
  simp only at h
  split at h
  · split at h
    · cases h
    · cases h
      omega
  · split at h
    · cases h
    · cases h
      omega

/-- At every reading of the clock after the start, the timeout is within the
    bounds of the daemon. -/
theorem remainingTimeoutMs_bounds {start now : Timespec} {ms : ℤ} (hnow : start.total ≤ now.total)
    (h : remainingTimeoutMs (pamDeadline start) now = some ms) : 1 ≤ ms ∧ ms ≤ 2000 := by
  obtain ⟨hleft, rfl⟩ := remainingTimeoutMs_eq h
  rw [total_pamDeadline] at hleft ⊢
  omega

/-- The daemon reads every request back that its clients send, and reads
    nothing else; the timeout of an authentication is never out of its bounds. -/
theorem decodeDaemonRequest_roundTrip :
    (∀ (uid : UInt32) (target : UInt8) (timeoutMs : ℕ) (username : String),
      (target = authTargetSddm ∨ target = authTargetPlasmaLock) →
      1 ≤ timeoutMs → timeoutMs ≤ 2000 →
      1 ≤ (utf8 username).length → (utf8 username).length ≤ 255 →
      Char.ofNat 0 ∉ username.toList →
      ∃ payload, pamRequest target uid timeoutMs (utf8 username) = some (framed payload) ∧
        decodeDaemonRequest payload = .ok (.pamAuth uid target timeoutMs username)) ∧
    (∀ uid : UInt32, ∃ payload, statusRequest uid = framed payload ∧
      decodeDaemonRequest payload = .ok (.status uid)) ∧
    (∀ (uid : UInt32) (digest : List UInt8), digest.length = 32 →
      ∃ payload, freshnessRequest uid digest = framed payload ∧
        decodeDaemonRequest payload = .ok (.freshness uid digest)) ∧
    (∀ (payload : List UInt8) (request : DaemonRequest),
      decodeDaemonRequest payload = .ok request →
      match request with
      | .pamAuth uid target timeoutMs username =>
        (target = authTargetSddm ∨ target = authTargetPlasmaLock) ∧
          (1 ≤ timeoutMs ∧ timeoutMs ≤ 2000) ∧
          (1 ≤ (utf8 username).length ∧ (utf8 username).length ≤ 255) ∧
          Char.ofNat 0 ∉ username.toList ∧
          pamRequest target uid timeoutMs (utf8 username) = some (framed payload)
      | .status uid => statusRequest uid = framed payload
      | .freshness uid digest =>
        digest.length = 32 ∧ freshnessRequest uid digest = framed payload) ∧
    ∀ (start now : Timespec) (ms : ℤ), start.total ≤ now.total →
      remainingTimeoutMs (pamDeadline start) now = some ms → 1 ≤ ms ∧ ms ≤ 2000 := by
  refine ⟨?_, ?_, ?_, ?_, fun start now ms => remainingTimeoutMs_bounds⟩
  · intro uid target timeoutMs username htarget hmin hmax hone hlong hnul
    exact ⟨_, pamRequest_eq hlong, decodeDaemonRequest_iff.mpr
      ⟨⟨htarget, ⟨hmin, hmax⟩, ⟨hone, hlong⟩, hnul⟩, rfl⟩⟩
  · intro uid
    exact ⟨_, statusRequest_eq uid, decodeDaemonRequest_iff.mpr ⟨trivial, rfl⟩⟩
  · intro uid digest hdigest
    exact ⟨_, freshnessRequest_eq hdigest, decodeDaemonRequest_iff.mpr ⟨hdigest, rfl⟩⟩
  · intro payload request h
    obtain ⟨hwf, rfl⟩ := decodeDaemonRequest_iff.mp h
    cases request with
    | pamAuth uid target timeoutMs username =>
      obtain ⟨htarget, htimeout, hlength, hnul⟩ := hwf
      exact ⟨htarget, htimeout, hlength, hnul, pamRequest_eq hlength.2⟩
    | status uid => exact statusRequest_eq uid
    | freshness uid digest => exact ⟨hwf, freshnessRequest_eq hwf⟩

/-- A request of the lock screen, and the timeout of one sent half a second
    after the start. -/
theorem decodeDaemonRequest_roundTrip_example :
    (∃ payload, pamRequest authTargetPlasmaLock 1000 1500 (utf8 "ada") = some (framed payload) ∧
      decodeDaemonRequest payload = .ok (.pamAuth 1000 authTargetPlasmaLock 1500 "ada")) ∧
    remainingTimeoutMs (pamDeadline ⟨7, 900000000, by decide, by decide⟩)
      ⟨8, 400000001, by decide, by decide⟩ = some 1500 ∧
    (1 : ℤ) ≤ 1500 ∧ (1500 : ℤ) ≤ 2000 := by
  obtain ⟨hpam, -, -, -, htimeout⟩ := decodeDaemonRequest_roundTrip
  refine ⟨hpam 1000 authTargetPlasmaLock 1500 "ada" (.inr rfl) (by decide) (by decide) (by decide)
    (by decide) (by decide), by decide, ?_⟩
  exact htimeout ⟨7, 900000000, by decide, by decide⟩ ⟨8, 400000001, by decide, by decide⟩ 1500
    (by decide) (by decide)

end KFaceAuth
