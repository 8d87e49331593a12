import RemoteTerm.Foundation.Text

/-!
# The command gate of the virtual node

`handle_command` of `app/virtual_node/server.py`: the tables of command codes, the three refusals
in front, the handlers as far as the frames that they hand to `_forward`, and what is left over,
which goes to the radio as it is. The numbers of the `meshcore` library's `CommandType` are a
parameter: members differ, and two commands are not among them, as the source notes.
-/

namespace RemoteTerm.VirtualNode

open Foundation List

inductive CommandType where
  | addUpdateContact | appStart | binaryReq | deviceQuery | exportContact | exportPrivateKey
  | factoryReset | getAdvertPath | getAllowedRepeatFreq | getAutoaddConfig | getBattAndStorage
  | getChannel | getContacts | getContactByKey | getCustomVars | getDefaultFloodScope
  | getDeviceTime | getStats | getTuningParams | hasConnection | importContact
  | importPrivateKey | logout | pathDiscovery | reboot | removeContact | resetPath
  | sendAnonReq | sendChannelTxtMsg | sendControlData | sendLogin | sendRawData
  | sendSelfAdvert | sendStatusReq | sendTelemetryReq | sendTracePath | sendTxtMsg
  | setAdvertLatlon | setAdvertName | setAutoaddConfig | setChannel | setCustomVar
  | setDefaultFloodScope | setDevicePin | setDeviceTime | setFloodScope | setOtherParams
  | setPathHashMode | setRadioParams | setRadioTxPower | setTuningParams | shareContact
  | signData | signFinish | signStart | syncNextMessage
  deriving DecidableEq, Repr

/-- `CMD_SEND_CHANNEL_DATA`, which the library leaves out. -/
def cmdSendChannelData : UInt8 := 62

/-- `CMD_RUN_CLI_COMMAND` of `app/services/radio_cli.py`, which the library leaves out. -/
def cmdRunCliCommand : UInt8 := 66

structure CommandCodes where
  value : CommandType → UInt8
  injective : Function.Injective value
  value_ne_channelData : ∀ c, value c ≠ cmdSendChannelData
  value_ne_runCli : ∀ c, value c ≠ cmdRunCliCommand

/-! ## Tables -/

namespace CommandCodes

variable (codes : CommandCodes)

def transmitCommands : List UInt8 :=
  [.sendTxtMsg, .sendChannelTxtMsg, .sendSelfAdvert, .shareContact, .sendRawData, .sendLogin,
    .sendStatusReq, .logout, .sendTracePath, .sendTelemetryReq, .binaryReq, .pathDiscovery,
    .sendControlData, .sendAnonReq].map codes.value ++ [cmdSendChannelData]

def sendShapingCommands : List UInt8 := [.setFloodScope, .setPathHashMode].map codes.value

def adminCommands : List UInt8 :=
  [.setAdvertName, .setRadioParams, .setRadioTxPower, .setAdvertLatlon, .setTuningParams,
    .signStart, .signData, .signFinish, .setDevicePin, .setOtherParams, .setCustomVar,
    .setAutoaddConfig, .setDefaultFloodScope].map codes.value

def identityChangingCommands : List UInt8 :=
  [.setAdvertName, .setRadioParams, .setRadioTxPower, .setAdvertLatlon, .setOtherParams].map
    codes.value

def localWriteCommands : List UInt8 :=
  [.addUpdateContact, .resetPath, .removeContact, .setChannel, .importContact].map codes.value

def refusedCommands : List UInt8 := [.reboot, .importPrivateKey, .factoryReset].map codes.value

def cachedQueryCommands : List UInt8 :=
  [.getCustomVars, .getAdvertPath, .getTuningParams, .getStats, .getAutoaddConfig,
    .getAllowedRepeatFreq, .getDefaultFloodScope, .getBattAndStorage].map codes.value

def contactAddressedCommands : List UInt8 :=
  [.shareContact, .sendLogin, .sendStatusReq, .hasConnection, .logout, .binaryReq,
    .pathDiscovery, .sendAnonReq, .exportContact].map codes.value

end CommandCodes

/-! ## Refusals -/

/-- `ERR_CODE_*` of the firmware. -/
inductive ErrorCode where
  | unsupportedCmd | notFound | tableFull | badState | fileIoError | illegalArg
  deriving DecidableEq, Repr

structure VirtualNodeError where
  code : ErrorCode
  detail : String
  deriving DecidableEq, Repr

/-- What the gate and the handlers read of the server and of the radio. -/
structure Server where
  codes : CommandCodes
  readOnly : Bool
  adminCommandsAllowed : Bool
  localPrivateKeyExport : Bool
  /-- The battery frame, while the statistics sample is fresh. -/
  batteryFromStats : Option Bytes
  deviceInfoFrame : Option Bytes
  cachedResponse : Bytes → Option Bytes
  /-- The full key of the contact that a prefix names. -/
  contactForPrefix : Bytes → Option Bytes
  /-- The radio slot of the channel at a virtual index, if it can be loaded. -/
  radioSlotForIndex : UInt8 → Option UInt8

/-- The checks in front of all handlers. -/
def Server.gate (s : Server) (code : UInt8) : Except VirtualNodeError Unit :=
  if code ∈ s.codes.refusedCommands then .error ⟨.unsupportedCmd, "refused by virtual node"⟩
  else if s.readOnly ∧ (code ∈ s.codes.transmitCommands ∨ code ∈ s.codes.adminCommands ∨
      code ∈ s.codes.localWriteCommands) then
    .error ⟨.unsupportedCmd, "virtual node is read-only"⟩
  else if code ∈ s.codes.adminCommands ∧ !s.adminCommandsAllowed then
    .error ⟨.unsupportedCmd, "radio configuration from apps is off (Settings > Virtual Node)"⟩
  else .ok ()

/-! ## Handlers -/

inductive Handler where
  | sendShaping | startAppSession | deviceInfo | contacts | contactByKey | currentTime
  | setDeviceTime | syncNextMessage | channelInfo | setChannel | addUpdateContact | resetPath
  | removeContact | sendTextMessage | sendChannelMessage | sendChannelData | battery
  | exportDisabled | cachedQuery | forward
  deriving DecidableEq, Repr

/-- The commands with a handler of their own, in the order in which they are tried. -/
def ownHandlers : List (CommandType × Handler) :=
  [(.appStart, .startAppSession), (.deviceQuery, .deviceInfo), (.getContacts, .contacts),
    (.getContactByKey, .contactByKey), (.getDeviceTime, .currentTime),
    (.setDeviceTime, .setDeviceTime), (.syncNextMessage, .syncNextMessage),
    (.getChannel, .channelInfo), (.setChannel, .setChannel),
    (.addUpdateContact, .addUpdateContact), (.resetPath, .resetPath),
    (.removeContact, .removeContact), (.sendTxtMsg, .sendTextMessage),
    (.sendChannelTxtMsg, .sendChannelMessage)]

/-- Who answers a command that has passed the gate. -/
def Server.route (s : Server) (code : UInt8) (payload : Bytes) : Handler :=
  if code ∈ s.codes.sendShapingCommands then .sendShaping
  else
    match ownHandlers.find? fun entry => code = s.codes.value entry.1 with
    | some entry => entry.2
    | none =>
      if code = cmdSendChannelData then .sendChannelData
      else if code = s.codes.value .getBattAndStorage ∧ s.batteryFromStats.isSome then .battery
      else if code = s.codes.value .exportPrivateKey ∧ !s.localPrivateKeyExport then
        .exportDisabled
      else if code ∈ s.codes.cachedQueryCommands ∧ (s.cachedResponse (code :: payload)).isSome then
        .cachedQuery
      else .forward

/-- The arguments of `_forward`. -/
structure Forward where
  command : Bytes
  stageContactKey : Option Bytes
  refreshIdentity : Bool
  cacheable : Bool
  deriving DecidableEq, Repr

/-- The 32-byte key that follows the code. -/
def parsePublicKeyArg (payload : Bytes) : Option Bytes :=
  if payload.length < 32 then none else some (payload.take 32)

/-- The text type and the prefix of `CMD_SEND_TXT_MSG`. -/
def parseSendTxtMsg (payload : Bytes) : Option (UInt8 × Bytes) :=
  if payload.length < 12 then none else some (payload.getD 0 0, (payload.drop 6).take 6)

structure OutgoingChannelData where
  channelIndex : UInt8
  dataType : Nat
  blob : Bytes

def parseSendChannelData (payload : Bytes) : Option OutgoingChannelData :=
  if payload.length < 2 then none
  else
    let pathLen := payload.getD 1 0
    let typeAt := 2 + if pathLen = 0xFF then 0 else pathLen.toNat
    if payload.length < typeAt + 2 then none
    else
      some ⟨payload.getD 0 0, (payload.getD typeAt 0).toNat +
        256 * (payload.getD (typeAt + 1) 0).toNat,
        payload.drop (typeAt + 2)⟩

/-- The largest blob, `BLOB_BYTES`. -/
def blobBytes : Nat := 163

def outPathUnknown : UInt8 := 0xFF

/-- The frame of one blob, unless it is too long. -/
def buildSendCommand (channelIndex : UInt8) (dataType : Nat) (blob : Bytes) : Option Bytes :=
  if dataType > 0xFFFF ∨ blob.length > blobBytes then none
  else
    some ([cmdSendChannelData, channelIndex, outPathUnknown, (dataType % 256).toUInt8,
      (dataType / 256 % 256).toUInt8] ++ blob)

/-- The frames that a handler hands to the radio as raw commands. -/
def Server.forwards (s : Server) (code : UInt8) (payload : Bytes) : Handler → List Forward
  | .deviceInfo =>
    if s.deviceInfoFrame.isSome then []
    else [⟨[s.codes.value .deviceQuery, 0x03], none, false, false⟩]
  | .sendTextMessage =>
    match parseSendTxtMsg payload with
    | none => []
    | some (txtType, pubkeyPrefix) =>
      -- only what is not chat is forwarded; chat goes through the message service
      if txtType = 0 then []
      else [⟨s.codes.value .sendTxtMsg :: payload, s.contactForPrefix pubkeyPrefix, false, false⟩]
  | .sendChannelData =>
    match parseSendChannelData payload with
    | none => []
    | some outgoing =>
      match s.radioSlotForIndex outgoing.channelIndex with
      | none => []
      | some radioSlot =>
        ((buildSendCommand radioSlot outgoing.dataType outgoing.blob).map fun command =>
          ⟨command, none, false, false⟩).toList
  | .forward =>
    [⟨code :: payload,
      if code ∈ s.codes.contactAddressedCommands then parsePublicKeyArg payload else none,
      code ∈ s.codes.identityChangingCommands,
      code ∈ s.codes.cachedQueryCommands⟩]
  | _ => []

/-- `handle_command`: who answers, and what goes to the radio. -/
def Server.handleCommand (s : Server) (code : UInt8) (payload : Bytes) :
    Except VirtualNodeError (Handler × List Forward) := do
  s.gate code
  let handler := s.route code payload
  return (handler, s.forwards code payload handler)

/-! ## What commands do to the radio -/

/-- Puts something on the air. -/
def CommandType.transmits : CommandType → Bool
  | .sendTxtMsg | .sendChannelTxtMsg | .sendSelfAdvert | .shareContact | .sendRawData
  | .sendLogin | .sendStatusReq | .logout | .sendTracePath | .sendTelemetryReq | .binaryReq
  | .pathDiscovery | .sendControlData | .sendAnonReq => true
  | _ => false

/-- Changes a setting of the radio, its channels, its clock or its identity, takes its
signature, or takes it out of service. Contacts are not configuration. -/
def CommandType.configures : CommandType → Bool
  | .setAdvertName | .setRadioParams | .setRadioTxPower | .setAdvertLatlon | .setTuningParams
  | .setDevicePin | .setOtherParams | .setCustomVar | .setAutoaddConfig | .setDefaultFloodScope
  | .setFloodScope | .setPathHashMode | .setDeviceTime | .setChannel | .signStart | .signData
  | .signFinish | .reboot | .factoryReset | .importPrivateKey => true
  | _ => false

namespace CommandCodes

variable (codes : CommandCodes)

/-- A line of the command-line interface can do anything that the radio can do. -/
def Transmits (code : UInt8) : Prop :=
  code = cmdSendChannelData ∨ code = cmdRunCliCommand ∨ ∃ c :
    CommandType, c.transmits = true ∧ codes.value c = code

def Configures (code : UInt8) : Prop :=
  code = cmdRunCliCommand ∨ ∃ c : CommandType, c.configures = true ∧ codes.value c = code

variable {codes} {code : UInt8}

theorem Transmits.mem (h : codes.Transmits code) (hCli : code ≠ cmdRunCliCommand) :
    code ∈ codes.transmitCommands := by
  rcases h with rfl | hEq | ⟨c, hc, rfl⟩
  · exact mem_append_right _ (mem_singleton_self _)
  · exact absurd hEq hCli
  refine mem_append_left _ (mem_map_of_mem ?_)
  cases c with
  | _ => first
    | decide
    | cases hc

/-- What configures the radio is refused, guarded by the switch, or never passed on. -/
theorem Configures.mem (h : codes.Configures code) (hCli : code ≠ cmdRunCliCommand) :
    code ∈ codes.refusedCommands ∨ code ∈ codes.adminCommands ∨
      code ∈ codes.sendShapingCommands ∨ code = codes.value .setDeviceTime ∨
      code = codes.value .setChannel := by
  rcases h with hEq | ⟨c, hc, rfl⟩
  · exact absurd hEq hCli
  have hMem : c ∈ [CommandType.reboot, .importPrivateKey, .factoryReset] ∨
      c ∈ [CommandType.setAdvertName, .setRadioParams, .setRadioTxPower, .setAdvertLatlon,
        .setTuningParams, .signStart, .signData, .signFinish, .setDevicePin, .setOtherParams,
        .setCustomVar, .setAutoaddConfig, .setDefaultFloodScope] ∨
      c ∈ [CommandType.setFloodScope, .setPathHashMode] ∨ c = .setDeviceTime ∨
      c = .setChannel := by
    cases c with
    | _ => first
      | decide
      | cases hc
  rcases hMem with hMem | hMem | hMem | rfl | rfl
  · exact .inl (mem_map_of_mem hMem)
  · exact .inr (.inl (mem_map_of_mem hMem))
  · exact .inr (.inr (.inl (mem_map_of_mem hMem)))
  · exact .inr (.inr (.inr (.inl rfl)))
  · exact .inr (.inr (.inr (.inr rfl)))

end CommandCodes

/-! ## What reaches the radio -/

namespace Server

variable {s : Server} {code : UInt8} {payload : Bytes}

theorem gate_eq_ok (h : s.gate code = .ok ()) : code ∉ s.codes.refusedCommands ∧
      (s.readOnly = true → code ∉ s.codes.transmitCommands ∧ code ∉ s.codes.adminCommands) ∧
      (s.adminCommandsAllowed = false → code ∉ s.codes.adminCommands) := by
  unfold gate at h
  split at h
  · cases h
  rename_i hRefused
  split at h
  · cases h
  rename_i hReadOnly
  split at h
  · cases h
  rename_i hAdmin
  refine ⟨hRefused, ?_, ?_⟩
  · intro hOn
    exact ⟨fun hMem => hReadOnly ⟨hOn, .inl hMem⟩, fun hMem => hReadOnly ⟨hOn, .inr (.inl hMem)⟩⟩
  · intro hOff hMem
    exact hAdmin ⟨hMem, by rw [hOff]; rfl⟩

/-- The code that a handler with frames for the radio is reached under. -/
def Reaches (s : Server) (code : UInt8) : Handler → Prop
  | .deviceInfo => code = s.codes.value .deviceQuery
  | .sendTextMessage => code = s.codes.value .sendTxtMsg
  | .sendChannelData => code = cmdSendChannelData
  | .forward => code ∉ s.codes.sendShapingCommands ∧ code ≠ s.codes.value .setDeviceTime ∧
      code ≠ s.codes.value .setChannel
  | _ => True

theorem route_reaches (s : Server) (code : UInt8) (payload : Bytes) :
    s.Reaches code (s.route code payload) := by
  unfold route
  split
  · trivial
  rename_i hShaping
  cases hFind : ownHandlers.find? fun entry => code = s.codes.value entry.1 with
  | some entry =>
    have hCode : code = s.codes.value entry.1 := by
      have hFound := find?_some hFind
      exact of_decide_eq_true hFound
    have hMem := mem_of_find?_eq_some hFind
    have hOwn : ∀ entry ∈ ownHandlers, (entry.2 = .deviceInfo → entry.1 = .deviceQuery) ∧
        (entry.2 = .sendTextMessage → entry.1 = .sendTxtMsg) ∧ entry.2 ≠ .sendChannelData ∧
        entry.2 ≠ .forward := by decide
    obtain ⟨hInfo, hText, hData, hForward⟩ := hOwn entry hMem
    obtain ⟨c, handler⟩ := entry
    cases handler with
    | deviceInfo => exact hCode.trans (congrArg _ (hInfo rfl))
    | sendTextMessage => exact hCode.trans (congrArg _ (hText rfl))
    | sendChannelData => exact absurd rfl hData
    | forward => exact absurd rfl hForward
    | _ => trivial
  | none =>
    have hOther : ∀ entry ∈ ownHandlers, code ≠ s.codes.value entry.1 := by
      intro entry hEntry hCode
      have hNot := find?_eq_none.mp hFind entry hEntry
      exact hNot (decide_eq_true hCode)
    dsimp only
    split
    · assumption
    split
    · trivial
    split
    · trivial
    split
    · trivial
    · exact ⟨hShaping, hOther (.setDeviceTime, .setDeviceTime) (by decide),
        hOther (.setChannel, .setChannel) (by decide)⟩

/-- Whatever is handed to the radio carries the code that the app sent, and no code that
is answered on the spot gets there. -/
theorem forwards_code {f : Forward} (h : f ∈ s.forwards code payload (s.route code payload)) :
    f.command.head? = some code ∧ code ∉ s.codes.sendShapingCommands ∧
      code ≠ s.codes.value .setDeviceTime ∧ code ≠ s.codes.value .setChannel := by
  have hReaches := s.route_reaches code payload
  have hDistinct : ∀ c : CommandType, c ∉ [CommandType.setFloodScope, .setPathHashMode] →
      c ≠ .setDeviceTime → c ≠ .setChannel → s.codes.value c ∉ s.codes.sendShapingCommands ∧
        s.codes.value c ≠ s.codes.value .setDeviceTime ∧
        s.codes.value c ≠ s.codes.value .setChannel := by
    intro c hShaping hTime hChannel
    refine ⟨?_, s.codes.injective.ne hTime, s.codes.injective.ne hChannel⟩
    intro hMem
    exact hShaping ((mem_map_of_injective s.codes.injective).mp hMem)
  generalize s.route code payload = route at h hReaches
  cases route with
  | deviceInfo =>
    simp only [forwards] at h
    split at h
    · cases h
    · rw [mem_singleton.mp h, show code = s.codes.value .deviceQuery from hReaches]
      exact ⟨rfl, hDistinct _ (by decide) (by decide) (by decide)⟩
  | sendTextMessage =>
    simp only [forwards] at h
    split at h
    · cases h
    split at h
    · cases h
    · rw [mem_singleton.mp h, show code = s.codes.value .sendTxtMsg from hReaches]
      exact ⟨rfl, hDistinct _ (by decide) (by decide) (by decide)⟩
  | sendChannelData =>
    have hCode : code = cmdSendChannelData := hReaches
    have hFree := s.codes.value_ne_channelData
    simp only [forwards] at h
    split at h
    · cases h
    split at h
    · cases h
    rw [Option.mem_toList] at h
    obtain ⟨command, hCommand, rfl⟩ := Option.map_eq_some_iff.mp h
    unfold buildSendCommand at hCommand
    split at hCommand
    · cases hCommand
    cases hCommand
    rw [hCode]
    refine ⟨rfl, ?_, (hFree _).symm, (hFree _).symm⟩
    intro hMem
    obtain ⟨c, -, hc⟩ := mem_map.mp hMem
    exact hFree c hc
  | forward =>
    rw [mem_singleton.mp h]
    exact ⟨rfl, hReaches⟩
  | _ => cases h

/-- **The gate is not bypassed.** Apart from the command line, nothing that transmits or
configures reaches the radio of a read-only node, and nothing that configures reaches it
while the admin switch is off. -/
theorem gate_not_bypassed {handler : Handler} {forwarded : List Forward}
    (h : s.handleCommand code payload = .ok (handler, forwarded)) (hCli : code ≠ cmdRunCliCommand) :
    ∀ f ∈ forwarded, ∃ sent, f.command.head? = some sent ∧
      (s.readOnly = true → ¬ s.codes.Transmits sent ∧ ¬ s.codes.Configures sent) ∧
      (s.adminCommandsAllowed = false → ¬ s.codes.Configures sent) := by
  intro f hf
  unfold handleCommand at h
  cases hGate : s.gate code with
  | error err =>
    rw [hGate] at h
    cases h
  | ok _ =>
    rw [hGate] at h
    cases h
    obtain ⟨hRefused, hReadOnly, hAdmin⟩ := gate_eq_ok hGate
    obtain ⟨hHead, hShaping, hTime, hChannel⟩ := forwards_code hf
    have hConfigures : code ∉ s.codes.adminCommands → ¬ s.codes.Configures code := by
      intro hNot hConf
      rcases hConf.mem hCli with h | h | h | h | h
      · exact hRefused h
      · exact hNot h
      · exact hShaping h
      · exact hTime h
      · exact hChannel h
    refine ⟨code, hHead, ?_, fun hOff => hConfigures (hAdmin hOff)⟩
    intro hOn
    exact ⟨fun hTransmits => (hReadOnly hOn).1 (hTransmits.mem hCli), hConfigures (hReadOnly hOn).2⟩

end Server

/-! ## One node -/

/-- Numbers for the commands, in the order of their declaration. -/
def plainCodes : CommandCodes where
  value := fun c => (c.ctorIdx + 1).toUInt8
  injective := by
    have hInverse : Function.LeftInverse (fun b : UInt8 => CommandType.ofNat (b.toNat - 1))
        fun c => (c.ctorIdx + 1).toUInt8 := by
      intro c
      cases c <;> rfl
    exact hInverse.injective
  value_ne_channelData := by
    intro c
    cases c <;> decide
  value_ne_runCli := by
    intro c
    cases c <;> decide

/-- A node without anything cached. -/
def plainServer (readOnly adminCommandsAllowed : Bool) : Server where
  codes := plainCodes
  readOnly := readOnly
  adminCommandsAllowed := adminCommandsAllowed
  localPrivateKeyExport := false
  batteryFromStats := none
  deviceInfoFrame := none
  cachedResponse := fun _ => none
  contactForPrefix := fun _ => none
  radioSlotForIndex := fun _ => none

/-- A query goes through a read-only node. -/
theorem gate_not_bypassed_query :
    (plainServer true false).handleCommand (plainCodes.value .getStats) [] =
        .ok (.forward, [⟨[plainCodes.value .getStats], none, false, true⟩]) ∧
      ∃ sent, sent = plainCodes.value .getStats ∧ ¬ plainCodes.Transmits sent ∧
        ¬ plainCodes.Configures sent := by
  refine (and_iff_left_of_imp fun hForward => ?_).mpr (by decide)
  obtain ⟨sent, hHead, hReadOnly, -⟩ :=
    Server.gate_not_bypassed hForward (by decide) _ mem_cons_self
  exact ⟨sent, (Option.some.inj hHead).symm, hReadOnly rfl⟩

/-- With the admin switch off, a node that is not read-only still sends an advert out. -/
theorem advert_sent_without_admin :
    ¬ ∀ (s : Server) (code : UInt8) (payload : Bytes) (handler : Handler)
      (forwarded : List Forward), s.readOnly = true ∨ s.adminCommandsAllowed = false →
      s.handleCommand code payload = .ok (handler, forwarded) →
      ∀ f ∈ forwarded, ∀ sent, f.command.head? = some sent → ¬ s.codes.Transmits sent ∧
        ¬ s.codes.Configures sent := by
  intro hAll
  have hForward : (plainServer false false).handleCommand (plainCodes.value .sendSelfAdvert) [1] =
      .ok (.forward, [⟨[plainCodes.value .sendSelfAdvert, 1], none, false, false⟩]) := by decide
  have hNot := hAll (plainServer false false) _ _ _ _ (.inr rfl) hForward _ mem_cons_self
    _ rfl
  exact hNot.1 (.inr (.inr ⟨.sendSelfAdvert, rfl, rfl⟩))

end RemoteTerm.VirtualNode
