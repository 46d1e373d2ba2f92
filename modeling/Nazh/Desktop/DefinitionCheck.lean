import Nazh.Connections.Validation
import Nazh.Desktop.ConnectionResolver

/-!
# Which validated assets a deployment takes

An asset is checked when it is parsed, and its runtime definition again when it is deployed. The
second check knows the secrets, and asks for more: a URL has to be one, and a Bark connection needs
its device key. What both ask of a field, the first has established for the second, unless a secret
takes the place of the field.
-/

namespace Nazh

open Lib

/-! ## What is asked -/

section

variable (secrets : String → Option String)

/-- A secret of the name of a text field is not blank. -/
def keepsText (key : String) : Bool := (secrets key).all fun value => Text.trim value != ""

/-- No secret has the name of a number. -/
def keepsNumber (key : String) : Bool := (secrets key).isNone

/-- The protocol's part of what a deployment asks. -/
def ConnectionProtocol.isDeployable (parseUrl : UrlParser) : ConnectionProtocol → Bool
  | modbusTcp .. => keepsText secrets "host" && keepsNumber secrets "port"
  | serial .. => keepsText secrets "port_path" && keepsNumber secrets "baud_rate"
  | mqtt .. => keepsText secrets "host" && keepsText secrets "topic"
  | http url .. => keepsText secrets "url" &&
      (parseUrl (Text.trim ((secrets "url").getD url))).isOk
  | bark serverUrl .. => (secrets "device_key").any (fun value => Text.trim value != "") &&
      (Text.trim ((secrets "server_url").getD serverUrl) == "" ||
        (parseUrl (Text.trim ((secrets "server_url").getD serverUrl))).isOk)
  | canSlcan .. =>
      (secrets "interface").all (fun value => ["slcan", "mock", "virtual"].contains (Text.trim value))
        && keepsText secrets "channel" && keepsNumber secrets "baud_rate"
        && keepsNumber secrets "bitrate"
  | ethercat .. =>
      (secrets "backend").all (fun value =>
          ["ethercrab", "mock"].contains (Text.toAsciiLowercase (Text.trim value)))
        && keepsText secrets "interface" && keepsNumber secrets "cycle_time_ms"
        && keepsNumber secrets "op_timeout_ms"

end

/-! ## Fields under secrets -/

variable {secrets : String → Option String} {metadata base : Fields} {key : String}

/-- The metadata has the secrets in front of the fields of the asset. -/
def Overlaid (secrets : String → Option String) (base metadata : Fields) : Prop :=
  ∀ key, metadata.lookup key = ((secrets key).map Value.string).or (base.lookup key)

theorem Overlaid.text (h : Overlaid secrets base metadata) {s : String}
    (hbase : base.lookup key = some (.string s)) :
    metadataText (.object metadata) key = Text.trim ((secrets key).getD s) := by
  have hget : Value.get (.object metadata) key = metadata.lookup key := rfl
  rw [metadataText, hget, h key, hbase]
  cases secrets key with
  | none => rfl
  | some value => rfl

/-- A text that the asset does not have. -/
theorem Overlaid.text_of_none (h : Overlaid secrets base metadata)
    (hbase : base.lookup key = none) :
    metadataText (.object metadata) key = ((secrets key).map Text.trim).getD "" := by
  have hget : Value.get (.object metadata) key = metadata.lookup key := rfl
  rw [metadataText, hget, h key, hbase]
  cases secrets key with
  | none => rfl
  | some value => rfl

theorem jsonU64_eq (n : UInt64) : jsonU64 n = jsonNat n.toNat := by
  rw [jsonU64, jsonNat, Number.ofNat, UInt64.ofNat_toNat]

theorem Overlaid.number (h : Overlaid secrets base metadata) {n : ℕ} (hn : n < 2 ^ 64)
    (hbase : base.lookup key = some (jsonNat n)) :
    metadataNumber (.object metadata) key = if (secrets key).isNone then n else 0 := by
  have hget : Value.get (.object metadata) key = metadata.lookup key := rfl
  rw [metadataNumber, hget, h key, hbase]
  cases secrets key with
  | none => exact (UInt64.toNat_ofNat' ..).trans (Nat.mod_eq_of_lt hn)
  | some value => rfl

/-- A text that was checked is still there, unless a blank secret took its place. -/
theorem Overlaid.text_ne_iff (h : Overlaid secrets base metadata) {s : String}
    (hbase : base.lookup key = some (.string s)) (hs : Text.trim s ≠ "") :
    metadataText (.object metadata) key ≠ "" ↔ keepsText secrets key = true := by
  rw [h.text hbase, keepsText]
  cases secrets key with
  | none => simpa using hs
  | some value => simp

/-- A number that was checked is still there, unless a secret took its place. -/
theorem Overlaid.number_ne_iff (h : Overlaid secrets base metadata) {n : ℕ} (hn : n < 2 ^ 64)
    (hbase : base.lookup key = some (jsonNat n)) (hpos : n ≠ 0) :
    metadataNumber (.object metadata) key ≠ 0 ↔ keepsNumber secrets key = true := by
  rw [h.number hn hbase, keepsNumber]
  cases secrets key with
  | none => simpa using hpos
  | some value => simp

theorem reject_eq_ok {bad : Bool} {reason : String} :
    reject bad reason = .ok () ↔ bad = false := by
  cases bad with
  | false => simp [reject]
  | true => simp [reject]

/-! ## The protocols -/

theorem validateModbus_iff {host : String} {port : UInt16} (h : Overlaid secrets base metadata)
    (hhost : base.lookup "host" = some (.string host)) (hport : base.lookup "port" =
      some (jsonNat port.toNat)) (hhost' : Text.trim host ≠ "") (hport' : port ≠ 0) :
    validateModbus (.object metadata) = .ok () ↔
      (keepsText secrets "host" && keepsNumber secrets "port") = true := by
  have hlt : port.toNat < 65536 := port.toNat_lt
  have hpos : port.toNat ≠ 0 := fun hzero => hport' (UInt16.toNat.inj hzero)
  have hle : metadataNumber (.object metadata) "port" ≤ 65535 := by
    rw [h.number (by omega) hport]
    split
    · omega
    · omega
  rw [validateModbus, check_bind_eq_ok, reject_eq_ok, reject_eq_ok, Bool.and_eq_true,
    ← h.text_ne_iff hhost hhost', ← h.number_ne_iff (by omega) hport hpos]
  simp [hle]

theorem validateSerial_iff {portPath : String} {baudRate : UInt32}
    (h : Overlaid secrets base metadata)
    (hpath : base.lookup "port_path" = some (.string portPath))
    (hbaud : base.lookup "baud_rate" = some (jsonNat baudRate.toNat))
    (hpath' : Text.trim portPath ≠ "") (hbaud' : baudRate ≠ 0) :
    validateSerial (.object metadata) = .ok () ↔
      (keepsText secrets "port_path" && keepsNumber secrets "baud_rate") = true := by
  have hlt : baudRate.toNat < 2 ^ 32 := baudRate.toNat_lt
  have hpos : baudRate.toNat ≠ 0 := fun hzero => hbaud' (UInt32.toNat.inj hzero)
  rw [validateSerial, check_bind_eq_ok, reject_eq_ok, reject_eq_ok, Bool.and_eq_true,
    ← h.text_ne_iff hpath hpath', ← h.number_ne_iff (by omega) hbaud hpos]
  simp

theorem validateMqtt_iff {host topic : String} (h : Overlaid secrets base metadata)
    (hhost : base.lookup "host" = some (.string host))
    (htopic : base.lookup "topic" = some (.string topic))
    (hhost' : Text.trim host ≠ "") (htopic' : Text.trim topic ≠ "") :
    validateMqtt (.object metadata) = .ok () ↔
      (keepsText secrets "host" && keepsText secrets "topic") = true := by
  rw [validateMqtt, check_bind_eq_ok, reject_eq_ok, reject_eq_ok, Bool.and_eq_true,
    ← h.text_ne_iff hhost hhost', ← h.text_ne_iff htopic htopic']
  simp

/-- A URL that parses, or whose error is told. -/
theorem parsed_eq_ok {r : Except String Unit} {tell : String → String} :
    (match r with
      | .ok () => (.ok () : Except String Unit)
      | .error e => .error (tell e)) = .ok () ↔ r.isOk = true := by
  cases r with
  | ok u => simp [Except.isOk, Except.toBool]
  | error e => simp [Except.isOk, Except.toBool]

theorem validateHttp_iff {parseUrl : UrlParser} {url : String} (h : Overlaid secrets base metadata)
    (hurl : base.lookup "url" = some (.string url)) (hurl' : Text.trim url ≠ "") :
    validateHttp parseUrl (.object metadata) = .ok () ↔
      (keepsText secrets "url" && (parseUrl (Text.trim ((secrets "url").getD url))).isOk) =
        true := by
  rw [validateHttp, check_bind_eq_ok, reject_eq_ok]
  refine (and_congr_right fun _ => parsed_eq_ok).trans ?_
  rw [Bool.and_eq_true, ← h.text_ne_iff hurl hurl', h.text hurl]
  simp

theorem validateBark_iff {parseUrl : UrlParser} {serverUrl : String}
    (h : Overlaid secrets base metadata)
    (hurl : base.lookup "server_url" = some (.string serverUrl))
    (hkey : base.lookup "device_key" = none) :
    validateBark parseUrl (.object metadata) = .ok () ↔
      ((secrets "device_key").any (fun value => Text.trim value != "") &&
        (Text.trim ((secrets "server_url").getD serverUrl) == "" ||
          (parseUrl (Text.trim ((secrets "server_url").getD serverUrl))).isOk)) = true := by
  have hdevice : (metadataText (.object metadata) "device_key" == "") = false ↔
      (secrets "device_key").any (fun value => Text.trim value != "") = true := by
    rw [h.text_of_none hkey]
    cases secrets "device_key" with
    | none => simp
    | some value => simp
  rw [validateBark, check_bind_eq_ok, reject_eq_ok, hdevice, Bool.and_eq_true]
  refine and_congr_right fun _ => ?_
  dsimp only
  rw [h.text hurl]
  by_cases hblank : Text.trim ((secrets "server_url").getD serverUrl) = ""
  · simp [hblank]
  · have hblank' := beq_eq_false_iff_ne.mpr hblank
    rw [hblank', Bool.false_or]
    exact parsed_eq_ok

theorem validateCan_iff {channel : String} {baudRate bitrate : UInt32}
    (h : Overlaid secrets base metadata)
    (hinterface : base.lookup "interface" = some (.string "slcan"))
    (hchannel : base.lookup "channel" = some (.string channel))
    (hbaud : base.lookup "baud_rate" = some (jsonNat baudRate.toNat))
    (hbitrate : base.lookup "bitrate" = some (jsonNat bitrate.toNat))
    (hchannel' : Text.trim channel ≠ "") (hbaud' : baudRate ≠ 0)
    (hbitrate' : bitrate ∈ canBitrates) :
    validateCan (.object metadata) = .ok () ↔
      ((secrets "interface").all (fun value =>
          ["slcan", "mock", "virtual"].contains (Text.trim value))
        && keepsText secrets "channel" && keepsNumber secrets "baud_rate"
        && keepsNumber secrets "bitrate") = true := by
  have hltBaud : baudRate.toNat < 2 ^ 32 := baudRate.toNat_lt
  have hltBitrate : bitrate.toNat < 2 ^ 32 := bitrate.toNat_lt
  have hposBaud : baudRate.toNat ≠ 0 := fun hzero => hbaud' (UInt32.toNat.inj hzero)
  have hsupported : bitrate.toNat ∈ canBitrates.map UInt32.toNat :=
    List.mem_map_of_mem hbitrate'
  have hposBitrate : bitrate.toNat ≠ 0 := by
    intro hzero
    rw [hzero] at hsupported
    exact absurd hsupported (by decide)
  have hkind : ["slcan", "mock", "virtual"].contains
      (metadataText (.object metadata) "interface") = true ↔
      (secrets "interface").all (fun value =>
        ["slcan", "mock", "virtual"].contains (Text.trim value)) = true := by
    rw [h.text hinterface]
    cases secrets "interface" with
    | none =>
        refine iff_of_true ?_ rfl
        decide
    | some value => rw [Option.getD_some, Option.all_some]
  have hnonempty : ["slcan", "mock", "virtual"].contains
      (metadataText (.object metadata) "interface") = true →
      (metadataText (.object metadata) "interface" == "") = false := by
    intro hcontains
    rw [beq_eq_false_iff_ne]
    intro hempty
    rw [hempty] at hcontains
    exact absurd hcontains (by decide)
  have hrate : metadataNumber (.object metadata) "bitrate" ≠ 0 ↔
      (metadataNumber (.object metadata) "bitrate" == 0) = false ∧
      ([10000, 20000, 50000, 100000, 125000, 250000, 500000, 800000, 1000000].contains
        (metadataNumber (.object metadata) "bitrate")) = true := by
    rw [beq_eq_false_iff_ne]
    refine ⟨fun hne => ⟨hne, ?_⟩, And.left⟩
    rw [h.number (by omega) hbitrate] at hne ⊢
    split
    · rw [List.contains_iff_mem]
      exact hsupported
    · rename_i hsome
      rw [if_neg hsome] at hne
      exact absurd rfl hne
  rw [validateCan]
  simp only [check_bind_eq_ok, reject_eq_ok, Bool.not_eq_false', Bool.and_eq_true, ← hrate,
    ← h.number_ne_iff (by omega) hbitrate hposBitrate, ← h.text_ne_iff hchannel hchannel',
    ← h.number_ne_iff (by omega) hbaud hposBaud, ← hkind]
  constructor
  · rintro ⟨-, hinterface, hchannel, hbaud, hbitrate⟩
    exact ⟨⟨⟨hinterface, beq_eq_false_iff_ne.mp hchannel⟩, beq_eq_false_iff_ne.mp hbaud⟩, hbitrate⟩
  · rintro ⟨⟨⟨hinterface, hchannel⟩, hbaud⟩, hbitrate⟩
    exact ⟨hnonempty hinterface, hinterface, beq_eq_false_iff_ne.mpr hchannel,
      beq_eq_false_iff_ne.mpr hbaud, hbitrate⟩

/-- A number that must not be zero if it is there: no secret makes it zero. -/
theorem Overlaid.isZero_eq_false (h : Overlaid secrets base metadata) {n : Option UInt64}
    (hbase : base.lookup key = n.map jsonU64) (hn : n ≠ some 0) :
    ((Value.get (.object metadata) key).any fun v => v.asU64 == some 0) = false := by
  have hget : Value.get (.object metadata) key = metadata.lookup key := rfl
  rw [hget, h key, hbase]
  cases secrets key with
  | some value => rfl
  | none =>
      cases n with
      | none => rfl
      | some n =>
          have hne : n ≠ 0 := fun hzero => hn (congrArg some hzero)
          simpa [jsonU64, Value.asU64] using hne

theorem validateEthercat_iff (backend : EthercatBackend) {interface : String}
    {cycleTimeMs opTimeoutMs : UInt64} {cycleTimeUs dcSync0PeriodUs dcStartDelayUs : Option UInt64}
    (h : Overlaid secrets base metadata)
    (hbackend : base.lookup "backend" = some (.string backend.name))
    (hinterface : base.lookup "interface" = some (.string interface))
    (hcycle : base.lookup "cycle_time_ms" = some (jsonU64 cycleTimeMs))
    (hcycleUs : base.lookup "cycle_time_us" = cycleTimeUs.map jsonU64)
    (hsync : base.lookup "dc_sync0_period_us" = dcSync0PeriodUs.map jsonU64)
    (hdelay : base.lookup "dc_start_delay_us" = dcStartDelayUs.map jsonU64)
    (hop : base.lookup "op_timeout_ms" = some (jsonU64 opTimeoutMs))
    (hinterface' : Text.trim interface ≠ "") (hcycle' : cycleTimeMs ≠ 0)
    (hcycleUs' : cycleTimeUs ≠ some 0) (hsync' : dcSync0PeriodUs ≠ some 0)
    (hdelay' : dcStartDelayUs ≠ some 0) (hop' : opTimeoutMs ≠ 0) :
    validateEthercat (.object metadata) = .ok () ↔
      ((secrets "backend").all (fun value =>
          ["ethercrab", "mock"].contains (Text.toAsciiLowercase (Text.trim value)))
        && keepsText secrets "interface" && keepsNumber secrets "cycle_time_ms"
        && keepsNumber secrets "op_timeout_ms") = true := by
  rw [jsonU64_eq] at hcycle hop
  have hposCycle : cycleTimeMs.toNat ≠ 0 := fun hzero => hcycle' (UInt64.toNat.inj hzero)
  have hposOp : opTimeoutMs.toNat ≠ 0 := fun hzero => hop' (UInt64.toNat.inj hzero)
  have hkind : ["ethercrab", "mock"].contains
      (Text.toAsciiLowercase (metadataText (.object metadata) "backend")) = true ↔
      (secrets "backend").all (fun value =>
        ["ethercrab", "mock"].contains (Text.toAsciiLowercase (Text.trim value))) = true := by
    rw [h.text hbackend]
    cases secrets "backend" with
    | none =>
        refine iff_of_true ?_ rfl
        cases backend <;> decide
    | some value => rw [Option.getD_some, Option.all_some]
  have hnonempty : ["ethercrab", "mock"].contains
      (Text.toAsciiLowercase (metadataText (.object metadata) "backend")) = true →
      (Text.toAsciiLowercase (metadataText (.object metadata) "backend") == "") = false := by
    intro hcontains
    rw [beq_eq_false_iff_ne]
    intro hempty
    rw [hempty] at hcontains
    exact absurd hcontains (by decide)
  rw [validateEthercat]
  simp only [check_bind_eq_ok, reject_eq_ok, Bool.not_eq_false', Bool.and_eq_true,
    h.isZero_eq_false hcycleUs hcycleUs', h.isZero_eq_false hsync hsync',
    h.isZero_eq_false hdelay hdelay', true_and,
    ← h.text_ne_iff hinterface hinterface',
    ← h.number_ne_iff cycleTimeMs.toNat_lt hcycle hposCycle,
    ← h.number_ne_iff opTimeoutMs.toNat_lt hop hposOp, ← hkind]
  constructor
  · rintro ⟨-, hbackend, hinterface, hcycle, hop⟩
    exact ⟨⟨⟨hbackend, beq_eq_false_iff_ne.mp hinterface⟩, beq_eq_false_iff_ne.mp hcycle⟩,
      beq_eq_false_iff_ne.mp hop⟩
  · rintro ⟨⟨⟨hbackend, hinterface⟩, hcycle⟩, hop⟩
    exact ⟨hnonempty hbackend, hbackend, beq_eq_false_iff_ne.mpr hinterface,
      beq_eq_false_iff_ne.mpr hcycle, beq_eq_false_iff_ne.mpr hop⟩

/-! ## The two checks -/

/-- The kind of a protocol is one that the check knows, spelled as it is. -/
theorem validateConnectionDefinition_kind (parseUrl : UrlParser) (protocol : ConnectionProtocol)
    (metadata : Value) :
    validateConnectionDefinition parseUrl (resolveConnectionKind protocol) metadata =
      match protocol with
      | .modbusTcp .. => validateModbus metadata
      | .serial .. => validateSerial metadata
      | .mqtt .. => validateMqtt metadata
      | .http .. => validateHttp parseUrl metadata
      | .bark .. => validateBark parseUrl metadata
      | .canSlcan .. => validateCan metadata
      | .ethercat .. => validateEthercat metadata := by
  have hspelled : ∀ kind ∈ ["modbus", "serial", "mqtt", "http", "bark", "can-slcan", "ethercat"],
      normalizeConnectionKind kind = kind := by
    decide
  have hkind : normalizeConnectionKind (resolveConnectionKind protocol) =
      resolveConnectionKind protocol :=
    hspelled _ (by cases protocol <;> simp [resolveConnectionKind])
  rw [validateConnectionDefinition, hkind]
  cases protocol <;> simp [resolveConnectionKind]

/-- What the metadata of a protocol is made of. -/
theorem exists_metadata {connectionId : String} {protocol : ConnectionProtocol}
    {store : Option SecretStore} {kind : String}
    (h : protocolToRuntimeMetadata connectionId protocol store = .ok (kind, base)) :
    kind = resolveConnectionKind protocol := by
  obtain ⟨metadata, -, hresult⟩ := bind_eq_ok.mp h
  exact (Prod.mk.inj (Except.ok.inj hresult)).1.symm

/-- A validated asset whose secrets resolve passes the check of a deployment if and only if its
secrets leave the fields usable, its URL parses and, for Bark, the device key is there. -/
theorem definition_accepted_iff {spec : ConnectionSpec} {store : Option SecretStore}
    (parseUrl : UrlParser) {kind : String} {metadata : Fields} (hvalid : spec.validate = .ok ())
    (hbuilt : spec.runtimeDefinition store = .ok (kind, metadata)) :
    validateConnectionDefinition parseUrl kind (.object metadata) = .ok () ↔
      spec.protocol.isDeployable (spec.secretValue store) parseUrl = true := by
  obtain ⟨-, hprotocol, -, -⟩ := ConnectionSpec.validate_eq_ok.mp hvalid
  obtain ⟨base, hbase, h⟩ := lookup_runtimeDefinition hbuilt
  change Overlaid (spec.secretValue store) _ metadata at h
  rw [exists_metadata hbase, validateConnectionDefinition_kind]
  generalize spec.secretValue store = secrets at h ⊢
  generalize spec.protocol = protocol at hprotocol hbase ⊢
  obtain ⟨m, hm, hresult⟩ := bind_eq_ok.mp hbase
  obtain ⟨-, rfl⟩ := Prod.mk.inj (Except.ok.inj hresult)
  cases protocol with
  | modbusTcp host port unitId =>
      obtain ⟨hhost, hport⟩ := check_bind_eq_ok.mp hprotocol
      obtain rfl := Except.ok.inj hm
      refine validateModbus_iff h ?_ ?_ (validateNonEmpty_eq_ok.mp hhost)
        (validatePort_eq_ok.mp hport)
      · simp [insertGovernanceMetadata, Fields.lookup_insert_of_ne, Fields.lookup_insertSome_of_ne]
      · simp [insertGovernanceMetadata, Fields.lookup_insert_of_ne, Fields.lookup_insertSome_of_ne]
  | serial portPath baudRate dataBits parity stopBits flowControl encoding delimiter readTimeoutMs
      idleGapMs maxFrameBytes trim =>
      obtain ⟨hpath, hrest⟩ := check_bind_eq_ok.mp hprotocol
      obtain ⟨hbaud, -⟩ := check_bind_eq_ok.mp hrest
      obtain rfl := Except.ok.inj hm
      refine validateSerial_iff h ?_ ?_ (validateNonEmpty_eq_ok.mp hpath)
        (validatePositiveU32_eq_ok.mp hbaud)
      · simp [insertGovernanceMetadata, Fields.lookup_insert_of_ne, Fields.lookup_insertSome_of_ne]
      · simp [insertGovernanceMetadata, Fields.lookup_insert_of_ne, Fields.lookup_insertSome_of_ne]
  | mqtt host port topic clientId =>
      obtain ⟨hhost, hrest⟩ := check_bind_eq_ok.mp hprotocol
      obtain ⟨-, htopic⟩ := check_bind_eq_ok.mp hrest
      obtain rfl := Except.ok.inj hm
      refine validateMqtt_iff h ?_ ?_ (validateNonEmpty_eq_ok.mp hhost)
        (validateNonEmpty_eq_ok.mp htopic)
      · simp [insertGovernanceMetadata, Fields.lookup_insert_of_ne, Fields.lookup_insertSome_of_ne]
      · simp [insertGovernanceMetadata, Fields.lookup_insert_of_ne, Fields.lookup_insertSome_of_ne]
  | http url method headers =>
      obtain ⟨hurl, -⟩ := check_bind_eq_ok.mp hprotocol
      obtain ⟨headers', -, hm'⟩ := bind_eq_ok.mp hm
      obtain rfl := Except.ok.inj hm'
      refine validateHttp_iff h ?_ (validateNonEmpty_eq_ok.mp hurl)
      split
      · simp [insertGovernanceMetadata, Fields.lookup_insert_of_ne]
      · simp [insertGovernanceMetadata, Fields.lookup_insert_of_ne]
  | bark serverUrl requestTimeoutMs =>
      obtain rfl := Except.ok.inj hm
      refine validateBark_iff h ?_ ?_
      · simp [insertGovernanceMetadata, Fields.lookup_insert_of_ne, Fields.lookup_insertSome_of_ne]
      · simp [insertGovernanceMetadata, Fields.lookup_insert_of_ne, Fields.lookup_insertSome_of_ne]
  | canSlcan channel baudRate bitrate =>
      obtain ⟨hchannel, hrest⟩ := check_bind_eq_ok.mp hprotocol
      obtain ⟨hbaud, hbitrate⟩ := check_bind_eq_ok.mp hrest
      obtain rfl := Except.ok.inj hm
      refine validateCan_iff h ?_ ?_ ?_ ?_ (validateNonEmpty_eq_ok.mp hchannel)
        (validatePositiveU32_eq_ok.mp hbaud) (validateCanBitrate_eq_ok.mp hbitrate)
      · simp [insertGovernanceMetadata, Fields.lookup_insert_of_ne]
      · simp [insertGovernanceMetadata, Fields.lookup_insert_of_ne]
      · simp [insertGovernanceMetadata, Fields.lookup_insert_of_ne]
      · simp [insertGovernanceMetadata, Fields.lookup_insert_of_ne]
  | ethercat backend interface cycleTimeMs cycleTimeUs dcSync0PeriodUs dcSync0ShiftUs
      dcStartDelayUs opTimeoutMs =>
      obtain ⟨hinterface, hrest⟩ := check_bind_eq_ok.mp hprotocol
      obtain ⟨hcycle, hrest⟩ := check_bind_eq_ok.mp hrest
      obtain ⟨hcycleUs, hrest⟩ := check_bind_eq_ok.mp hrest
      obtain ⟨hsync, hrest⟩ := check_bind_eq_ok.mp hrest
      obtain ⟨hdelay, hrest⟩ := check_bind_eq_ok.mp hrest
      obtain ⟨hop, -⟩ := check_bind_eq_ok.mp hrest
      obtain rfl := Except.ok.inj hm
      refine validateEthercat_iff backend h ?_ ?_ ?_ ?_ ?_ ?_ ?_ (validateNonEmpty_eq_ok.mp hinterface)
        (validatePositiveU64_eq_ok.mp hcycle) (validateOptional_eq_ok.mp hcycleUs)
        (validateOptional_eq_ok.mp hsync) (validateOptional_eq_ok.mp hdelay)
        (validatePositiveU64_eq_ok.mp hop)
      all_goals
        simp [insertGovernanceMetadata, Fields.lookup_insert_of_ne, Fields.lookup_insertSome_of_ne]

/-! ## Some assets -/

/-- Why a validated asset that resolves is refused by a deployment, if it is. -/
def ConnectionSpec.refusal (spec : ConnectionSpec) (parseUrl : UrlParser)
    (store : Option SecretStore) : Option String :=
  match spec.validate, spec.runtimeDefinition store with
  | .ok (), .ok (kind, metadata) =>
      match validateConnectionDefinition parseUrl kind (.object metadata) with
      | .error reason => some reason
      | .ok () => none
  | _, _ => none

def defaultGovernance : ConnectionGovernanceSpec :=
  ⟨3000, 5000, 3000, 12000, 8, 10000, 4000, 3, 15000, 800, 8000⟩

/-- An asset with one secret or none. -/
def assetOf (protocol : ConnectionProtocol) (secret : Option (String × String)) : ConnectionSpec where
  id := "main"
  protocol := protocol
  governance := defaultGovernance
  secrets := ⟨secret.toList, by cases secret <;> simp⟩

/-- A parser that knows the URLs with a scheme. -/
def schemeParser : UrlParser := fun url =>
  if "http://".toList <+: url.toList ∨ "https://".toList <+: url.toList then .ok ()
  else .error "relative URL without a base"

/-- A machine with one secret. -/
def oneSecret : SecretStore := fun _ _ => .ok (some "k3y")

/-- The device key of a Bark asset is there. -/
theorem bark_with_key_accepted :
    validateConnectionDefinition schemeParser "bark" (.object
      [("device_key", .string "k3y"), ("governance", defaultGovernance.toJson),
        ("server_url", .string "https://api.day.app")]) = .ok () ↔
      (ConnectionProtocol.bark "https://api.day.app" none).isDeployable
        ((assetOf (.bark "https://api.day.app" none)
          (some ("device_key", "secret://device_key"))).secretValue (some oneSecret))
        schemeParser = true :=
  @definition_accepted_iff (assetOf (.bark "https://api.day.app" none)
    (some ("device_key", "secret://device_key"))) (some oneSecret) schemeParser _ _
    (by decide) (by rfl)

/-- A Bark asset without a device key, an HTTP asset whose URL is none, and a Modbus asset with a
secret of the name of its port. -/
theorem validated_assets_refused :
    (assetOf (.bark "https://api.day.app" none) none).refusal schemeParser none =
        some "Bark 连接需要配置 device_key 或完整推送 URL" ∧
      (assetOf (.http "example" .post []) none).refusal schemeParser none =
        some "HTTP URL 无效: relative URL without a base" ∧
      (assetOf (.modbusTcp "10.0.0.5" 502 none) (some ("port", "secret://port"))).refusal
        schemeParser (some oneSecret) = some "Modbus 连接需要配置 1-65535 之间的 port" := by
  decide

end Nazh
