import RemoteTerm.Foundation.Pieces

/-!
# Sending an SMS

A number that is typed with an SMS is normalized twice on its way to the provider: to ten
digits if it can be read as a North American number, else, for Twilio, to `+` and its digits;
ten digits get `+1` in front again. A foreign number of exactly ten digits is taken for a North
American one (`ten_digits_abroad`).
-/

namespace RemoteTerm.Bots

open Foundation List Text

/-! ## Numbers -/

/-- What `\d` matches: a decimal digit of any script. -/
def isDecimal (c : Char) : Bool := (decimal c).isSome

/-- `re.sub(r"\D", "", value)` -/
def digitsOf (value : Text) : Text := value.filter isDecimal

def normalizeNanpa (value : Text) : Option Text :=
  let digits := digitsOf value
  let digits := if digits.length = 11 ∧ digits.head? = some '1' then digits.tail else digits
  if digits.length = 10 then some digits else none

def normalizePhone (value : Text) : Option Text :=
  let raw := strip value
  match normalizeNanpa raw with
  | some nanpa => some nanpa
  | none =>
    if startsWith raw ['+'] then
      let digits := digitsOf raw
      if 8 ≤ digits.length ∧ digits.length ≤ 15 ∧ digits.head? ≠ some '0'
        then some ('+' :: digits) else none
    else none

/-! ## Texts -/

/-- `" ".join(text.split())` -/
def compact (text : Text) : Text := [' '].intercalate ((text.splitOnP isSpace).filter (· ≠ []))

/-- `value or default` -/
def orDefault (value default : Text) : Text := if value = [] then default else value

/-- Line breaks of either kind become `\n`. -/
def unixLines : Text → Text
  | '\r' :: '\n' :: text => '\n' :: unixLines text
  | '\r' :: text => '\n' :: unixLines text
  | c :: text => c :: unixLines text
  | [] => []

/-- `re.sub(r"[ \t]+", " ", line)` -/
def squeezeBlanks : Text → Text
  | c :: d :: text =>
    if (c = ' ' ∨ c = '\t') ∧ (d = ' ' ∨ d = '\t') then squeezeBlanks (d :: text)
    else (if c = '\t' then ' ' else c) :: squeezeBlanks (d :: text)
  | [c] => [if c = '\t' then ' ' else c]
  | [] => []

/-- The settings of the bot; an empty text stands for one that is not set. -/
structure SmsSettings where
  provider : Text
  apiUsername : Text
  apiPassword : Text
  did : Text
  dialingMode : Text
  twilioAccountSid : Text
  twilioAuthToken : Text
  twilioFromNumber : Text
  fallbackChannel : Text
  smsHeader : Text
  /-- `none` when it is no number. -/
  maxSmsChars : Option Int

def SmsSettings.maxChars (settings : SmsSettings) : Nat :=
  let value := match settings.maxSmsChars with
    | some n => if n = 0 then 160 else n
    | none => 160
  (max 40 (min value 420)).toNat

/-- The text of an SMS, cut to the limit of the settings. -/
def formatOutgoing (settings : SmsSettings) (sender message : Text) : Text :=
  let lines := (unixLines (strip message)).splitOn '\n'
  let clean := strip (['\n'].intercalate (lines.map fun line =>
    strip (squeezeBlanks line)))
  let header := Text.strip (orDefault settings.smsHeader "MESHCORE BOT CECREVIER.CA".toList)
  let user := Text.upper (orDefault (compact sender) "MESHCORE".toList)
  (header ++ "\nUSER: ".toList ++ user ++ "\nMESSAGE: ".toList ++ clean).take settings.maxChars

/-! ## Requests -/

/-- What is asked of a provider. -/
inductive SmsRequest where
  | twilio (sender destination body : Text)
  | voipms (did destination message : Text)
  deriving DecidableEq

section Requests

variable (settings : SmsSettings)

/-- The number with the country code. -/
def withCountry (phone : Text) : Text :=
  if startsWith phone ['+'] then phone else '+' :: '1' :: phone

/-- `_twilio_request`, up to the request. -/
def twilioRequest (destination message : Text) : Except Text SmsRequest :=
  let accountSid := strip settings.twilioAccountSid
  let authToken := strip settings.twilioAuthToken
  match normalizePhone settings.twilioFromNumber with
  | none => .error "Twilio API configuration incomplete".toList
  | some fromPhone =>
    if accountSid = [] ∨ authToken = [] then .error "Twilio API configuration incomplete".toList
    else
      match normalizePhone destination with
      | none => .error "invalid destination".toList
      | some dst => .ok (.twilio (withCountry fromPhone) (withCountry dst) message)

/-- `_dial_number` of a number that is normalized. -/
def dialNumber (phone mode : Text) : Text :=
  if mode = "e164".toList then '+' :: '1' :: phone else phone

/-- `_voipms_request`, up to the request. -/
def voipmsRequest (destination message : Text) : Except Text SmsRequest :=
  let username := strip settings.apiUsername
  let password := strip settings.apiPassword
  match normalizeNanpa settings.did with
  | none => .error "SMS API configuration incomplete".toList
  | some did =>
    if username = [] ∨ password = [] then .error "SMS API configuration incomplete".toList
    else
      match normalizeNanpa destination with
      | none => .error "invalid destination".toList
      | some dst =>
        let mode := Text.lower (orDefault settings.dialingMode "nanpa".toList)
        .ok (.voipms (dialNumber did mode) (dialNumber dst mode) message)

/-- `_provider_request`, up to the request. -/
def providerRequest (destination message : Text) : Except Text SmsRequest :=
  let provider := Text.lower (Text.strip (orDefault settings.provider "voipms".toList))
  if provider = "twilio".toList then twilioRequest settings destination message
  else if provider = "voipms".toList then voipmsRequest settings destination message
  else .error ("unsupported SMS provider: ".toList ++ provider)

/-- What comes of a command to send an SMS. -/
inductive SmsAttempt where
  | invalidNumber
  | emptyMessage
  /-- The number as it is kept, the message, and the request or why there is none. -/
  | request (phone clean : Text) (request : Except Text SmsRequest)
  deriving DecidableEq

/-- `_send_sms` up to the answer of the provider. Here blanks around the provider's name are not
stripped. -/
def sendSms (sender destination message : Text) : SmsAttempt :=
  let provider := Text.lower (orDefault settings.provider "voipms".toList)
  let phone := if provider = "twilio".toList then normalizePhone destination
    else normalizeNanpa destination
  match phone with
  | none => .invalidNumber
  | some phone =>
    let clean := compact message
    if clean = [] then .emptyMessage
    else .request phone clean (providerRequest settings phone
      (formatOutgoing settings sender clean))

end Requests

/-! ## Normalizing twice -/

section Fidelity

variable {value phone : Text}

theorem isDecimal_of_isSpace {c : Char} (h : isSpace c = true) : isDecimal c = false := by
  rw [isDecimal, decimal_of_isSpace h, Option.isSome_none]

theorem filter_dropWhile {p q : Char → Bool} (h : ∀ c, p c = true → q c = false) (t : Text) :
    (t.dropWhile p).filter q = t.filter q := by
  induction t with
  | nil => rfl
  | cons c t ih =>
    by_cases hc : p c = true
    · rw [dropWhile_cons_of_pos hc, ih, filter_cons_of_neg
        (by rw [h c hc]; exact Bool.false_ne_true)]
    · rw [dropWhile_cons_of_neg hc]

theorem digitsOf_strip (t : Text) : digitsOf (strip t) = digitsOf t := by
  unfold digitsOf strip lstrip List.rdropWhile
  rw [filter_reverse, filter_dropWhile @isDecimal_of_isSpace, ← filter_reverse, reverse_reverse,
    filter_dropWhile @isDecimal_of_isSpace]

theorem normalizeNanpa_congr {value' : Text} (h : digitsOf value = digitsOf value') :
    normalizeNanpa value = normalizeNanpa value' := by
  unfold normalizeNanpa
  rw [h]

variable {t : Text}

theorem digitsOf_of_all (h : ∀ c ∈ t, isDecimal c = true) : digitsOf t = t := filter_eq_self.mpr h

theorem normalizeNanpa_of_ten (h : (digitsOf value).length = 10) :
    normalizeNanpa value = some (digitsOf value) := by
  have hNotEleven : ¬((digitsOf value).length = 11 ∧ (digitsOf value).head? = some '1') := by
    rw [h]
    exact fun hEleven => absurd hEleven.1 (by decide)
  unfold normalizeNanpa
  dsimp only
  rw [if_neg hNotEleven, if_pos h]

theorem head_strip {c : Char} (hc : isSpace c = false) :
    startsWith (strip (c :: t)) [c] = true := by
  have hLeft : lstrip (c :: t) = c :: t :=
    dropWhile_cons_of_neg (by rw [hc]; exact Bool.false_ne_true)
  have hTrimmed : Text.Trimmed (c :: t) := by
    rintro d ⟨⟩
    exact hc
  have hFront : strip (c :: t) <+: c :: t := by
    unfold strip
    rw [hLeft]
    exact rstrip_isPrefix _
  have hSome : strip (c :: t) ≠ [] := by
    unfold strip
    rw [hLeft]
    exact rstrip_ne_nil hTrimmed (cons_ne_nil _ _)
  cases hStrip : strip (c :: t) with
  | nil => exact absurd hStrip hSome
  | cons d rest =>
    rw [hStrip] at hFront
    obtain ⟨tail, hTail⟩ := hFront
    cases hTail
    simp [startsWith]

section

variable (h : normalizeNanpa value = some phone)

include h

theorem normalizeNanpa_some :
    phone.length = 10 ∧ (digitsOf value = phone ∨ digitsOf value = '1' :: phone) := by
  unfold normalizeNanpa at h
  dsimp only at h
  by_cases hEleven : (digitsOf value).length = 11 ∧ (digitsOf value).head? = some '1'
  · rw [if_pos hEleven] at h
    split at h
    next hTen =>
      cases h
      refine ⟨hTen, .inr ?_⟩
      cases hDigits : digitsOf value with
      | nil =>
        rw [hDigits] at hEleven
        cases hEleven.2
      | cons c digits =>
        rw [hDigits] at hEleven
        cases hEleven.2
        rfl
    · cases h
  · rw [if_neg hEleven] at h
    split at h
    next hTen =>
      cases h
      exact ⟨hTen, .inl rfl⟩
    · cases h

theorem isDecimal_of_nanpa : ∀ c ∈ phone, isDecimal c = true := by
  intro c hc
  have hMem : c ∈ digitsOf value := by
    rcases (normalizeNanpa_some h).2 with hSame | hOne
    · rwa [hSame]
    · rw [hOne]
      exact mem_cons_of_mem _ hc
  exact (mem_filter.mp hMem).2

theorem normalizePhone_nanpa : normalizePhone phone = some phone := by
  have hDigits : digitsOf (strip phone) = phone := by
    rw [digitsOf_strip, digitsOf_of_all (isDecimal_of_nanpa h)]
  have hTen : (digitsOf (strip phone)).length = 10 := by
    rw [hDigits]
    exact (normalizeNanpa_some h).1
  unfold normalizePhone
  dsimp only
  rw [normalizeNanpa_of_ten hTen, hDigits]

omit h in
/-- What a number is kept as, and that it is kept so when it is normalized again. -/
theorem normalizePhone_some (h : normalizePhone value = some phone) :
    normalizePhone phone = some phone ∧ (normalizeNanpa value = some phone ∨
      normalizeNanpa value = none ∧ phone = '+' :: digitsOf value) := by
  unfold normalizePhone at h
  dsimp only at h
  have hSame := normalizeNanpa_congr (digitsOf_strip value)
  cases hNanpa : normalizeNanpa (strip value) with
  | some nanpa =>
    rw [hNanpa] at h
    cases h
    exact ⟨normalizePhone_nanpa hNanpa, .inl (hSame ▸ hNanpa)⟩
  | none =>
    rw [hNanpa, digitsOf_strip] at h
    dsimp only at h
    split at h
    · split at h
      next hLength =>
        cases h
        refine ⟨?_, .inr ⟨hSame ▸ hNanpa, rfl⟩⟩
        have hDigits : digitsOf ('+' :: digitsOf value) = digitsOf value := by
          rw [digitsOf, filter_cons_of_neg (by decide)]
          exact digitsOf_of_all fun c hc => (mem_filter.mp hc).2
        have hAgain : normalizeNanpa (strip ('+' :: digitsOf value)) = none := by
          rw [normalizeNanpa_congr (digitsOf_strip _), normalizeNanpa_congr hDigits, ← hSame,
            hNanpa]
        unfold normalizePhone
        dsimp only
        rw [hAgain, digitsOf_strip, hDigits]
        rw [if_pos (head_strip (by decide)), if_pos hLength]
      · cases h
    · cases h

theorem withCountry_nanpa : withCountry phone = '+' :: '1' :: phone := by
  unfold withCountry
  rw [if_neg]
  intro hPlus
  obtain ⟨rest, hRest⟩ := isPrefixOf_iff_prefix.mp hPlus
  have hDecimal := isDecimal_of_nanpa h '+' (hRest ▸ mem_cons_self)
  exact absurd hDecimal (by decide)

theorem withCountry_nanpa_iff :
    withCountry phone = '+' :: digitsOf value ↔ (digitsOf value).length ≠ 10 := by
  rw [withCountry_nanpa h, cons_inj_right]
  obtain ⟨hLength, hSame | hOne⟩ := normalizeNanpa_some h
  · rw [hSame]
    exact iff_of_false (cons_ne_self _ _) (not_not_intro hLength)
  · rw [hOne, length_cons, hLength]
    exact iff_of_true rfl (by decide)

end

variable {settings : SmsSettings} {message sender destination body : Text}

theorem destination_of_twilioRequest (hPhone : normalizePhone phone = some phone)
    (h : twilioRequest settings phone message = .ok (.twilio sender destination body)) :
    destination = withCountry phone := by
  unfold twilioRequest at h
  dsimp only at h
  rw [hPhone] at h
  split at h
  · cases h
  split at h
  · cases h
  · cases h
    rfl

theorem destination_of_providerRequest (hPhone : normalizePhone phone = some phone)
    (h : providerRequest settings phone message = .ok (.twilio sender destination body)) :
    destination = withCountry phone := by
  unfold providerRequest at h
  dsimp only at h
  split at h
  · exact destination_of_twilioRequest hPhone h
  split at h
  · unfold voipmsRequest at h
    dsimp only at h
    split at h
    · cases h
    split at h
    · cases h
    · split at h
      · cases h
      · cases h
  · cases h

theorem withCountry_plus (t : Text) : withCountry ('+' :: t) = '+' :: t := by
  unfold withCountry
  rw [if_pos (by simp [startsWith])]

/-- The number that is kept, whichever way the provider's name is written. -/
theorem phone_of_sendSms {typed clean : Text} {request : Except Text SmsRequest}
    (h : sendSms settings sender typed message = .request phone clean request) :
    (normalizePhone phone = some phone ∧ (normalizeNanpa typed = some phone ∨
        normalizeNanpa typed = none ∧ phone = '+' :: digitsOf typed)) ∧
      providerRequest settings phone (formatOutgoing settings sender clean) = request := by
  unfold sendSms at h
  dsimp only at h
  split at h
  · cases h
  rename_i phone' hPhone
  split at h
  · cases h
  cases h
  refine ⟨?_, rfl⟩
  split at hPhone
  · exact normalizePhone_some hPhone
  · exact ⟨normalizePhone_nanpa hPhone, .inl hPhone⟩

/-- The number in a request to Twilio is the typed one if and only if it does not have ten
digits. -/
theorem twilio_destination_iff (settings : SmsSettings)
    (sender typed message phone clean fromNumber destination body : Text)
    (hSent : sendSms settings sender typed message =
      .request phone clean (.ok (.twilio fromNumber destination body))) :
    destination = '+' :: digitsOf typed ↔ (digitsOf typed).length ≠ 10 := by
  obtain ⟨⟨hKept, hPhone⟩, hRequest⟩ := phone_of_sendSms hSent
  rw [destination_of_providerRequest hKept hRequest]
  rcases hPhone with hNanpa | ⟨hNone, hAbroad⟩
  · exact withCountry_nanpa_iff hNanpa
  · rw [hAbroad, withCountry_plus]
    refine iff_of_true rfl fun hTen => ?_
    cases hNone.symm.trans (normalizeNanpa_of_ten hTen)

end Fidelity

def twilioSettings : SmsSettings where
  provider := "Twilio".toList
  apiUsername := []
  apiPassword := []
  did := []
  dialingMode := []
  twilioAccountSid := "AC1".toList
  twilioAuthToken := "secret".toList
  twilioFromNumber := "+15145550100".toList
  fallbackChannel := []
  smsHeader := []
  maxSmsChars := some 160

/-- The text of an SMS that says hello. -/
def helloBody : Text := "MESHCORE BOT CECREVIER.CA\nUSER: NODE\nMESSAGE: hello".toList

theorem twilio_destination_abroad :
    sendSms twilioSettings "node".toList "+33 123-456-789".toList "hello".toList =
        .request "+33123456789".toList "hello".toList
          (.ok (.twilio "+15145550100".toList "+33123456789".toList helloBody)) ∧
      "+33123456789".toList = '+' :: digitsOf "+33 123-456-789".toList := by
  refine (and_iff_left_of_imp fun hSent => ?_).mpr (by decide)
  exact (twilio_destination_iff twilioSettings _ _ _ _ _ _ _ _ hSent).mpr (by decide)

/-- A Danish number, sent to North America. -/
theorem ten_digits_abroad :
    sendSms twilioSettings "node".toList "+4512345678".toList "hello".toList =
      .request "4512345678".toList "hello".toList
        (.ok (.twilio "+15145550100".toList "+14512345678".toList helloBody)) := by
  decide

end RemoteTerm.Bots
