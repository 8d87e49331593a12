import RemoteTerm.Foundation.Text
import RemoteTerm.Foundation.Eviction
import RemoteTerm.Foundation.Run
import Mathlib.Algebra.Order.Ring.Rat
import Mathlib.Data.Finset.Basic

/-!
# Admission of bot runs

A message that matches a keyword of a bot asks for a run. The request passes a global limit,
a limit per user, the cooldown of the bot and the cooldown of the user at this bot. When the
rest of the bot's cooldown is short, the run is let through with a delay, and its user is
noted as queued until the delayed run starts. All times are those of one monotonic clock, in
seconds and exact; the time zero stands for never.
-/

namespace RemoteTerm.Bots

open Foundation

/-! ## State -/

/-- The settings of the engine that limit runs. -/
structure BotSettings where
  globalReplySeconds : ℚ
  perUserSeconds : ℚ
  deriving DecidableEq, Repr

/-- The limits in the record of a bot. -/
structure Bot where
  cooldownSeconds : ℚ
  perUserCooldownSeconds : ℚ
  queueThresholdSeconds : ℚ
  deriving DecidableEq, Repr

structure LoadedBot where
  record : Bot
  lastRunMonotonic : ℚ
  userCooldowns : Table Text ℚ
  queuedUsers : Finset Text

/-- `_load_one` -/
def LoadedBot.load (record : Bot) : LoadedBot := ⟨record, 0, .empty, ∅⟩

/-- A run that was let through. -/
structure BotRun where
  bot : Text
  userId : Text
  admittedAt : ℚ
  delay : ℚ
  deriving DecidableEq, Repr

def BotRun.start (r : BotRun) : ℚ := r.admittedAt + r.delay

structure BotEngine where
  settings : BotSettings
  lastGlobalAccept : ℚ
  perUserAccepts : Table Text ℚ
  bots : Table Text LoadedBot
  /-- The runs that have not started yet. -/
  tasks : List BotRun

/-- All bots are loaded, and none has run. -/
def BotEngine.start (settings : BotSettings) (records : List (Text × Bot)) : BotEngine where
  settings := settings
  lastGlobalAccept := 0
  perUserAccepts := .empty
  bots := .ofList (records.map fun (id, record) => (id, .load record))
  tasks := []

/-! ## Limits -/

def maxTrackedUsers : Nat := 1000

/-- The user becomes the most recent one, and the oldest ones are dropped. -/
def track (users : Table Text ℚ) (userId : Text) (now : ℚ) : Table Text ℚ :=
  (users.setLast userId now).evictTo List.head? maxTrackedUsers

namespace LoadedBot

variable (l : LoadedBot) (userId : Text) (now : ℚ)

/-- What is left of the cooldown. -/
def remaining : ℚ := l.record.cooldownSeconds - (now - l.lastRunMonotonic)

/-- The cooldown of the bot: a delay, with the user noted when the run is queued. -/
def passCooldown : Option (ℚ × LoadedBot) :=
  if 0 < l.record.cooldownSeconds ∧ 0 < l.lastRunMonotonic ∧ 0 < l.remaining now then
    if l.remaining now ≤ l.record.queueThresholdSeconds ∧ userId ∉ l.queuedUsers then
      some (l.remaining now, { l with queuedUsers := insert userId l.queuedUsers })
    else none
  else some (0, l)

/-- The cooldown of the user at this bot. -/
def passUserCooldown : Option LoadedBot :=
  if 0 < l.record.perUserCooldownSeconds then
    let lastBotUser := (l.userCooldowns.get? userId).getD 0
    if 0 < lastBotUser ∧ now - lastBotUser < l.record.perUserCooldownSeconds then none
    else some { l with userCooldowns := track l.userCooldowns userId now }
  else some l

end LoadedBot

namespace BotEngine

variable (e : BotEngine)

def globalLimited (now : ℚ) : Prop :=
  0 < e.settings.globalReplySeconds ∧ now - e.lastGlobalAccept < e.settings.globalReplySeconds ∧
    0 < e.lastGlobalAccept

def userLimited (userId : Text) (now : ℚ) : Prop :=
  let lastUser := (e.perUserAccepts.get? userId).getD 0
  0 < e.settings.perUserSeconds ∧ 0 < lastUser ∧ now - lastUser < e.settings.perUserSeconds

instance (now : ℚ) : Decidable (e.globalLimited now) := by unfold globalLimited; infer_instance

instance (userId : Text) (now : ℚ) : Decidable (e.userLimited userId now) := by
  unfold userLimited; infer_instance

/-- `_admit`: the delay of the run, or `none` when it is skipped, and the engine and the bot
afterwards. The clock is read a second time for the limit per user. -/
def admitRequest (loaded : LoadedBot) (userId : Text) (now touched : ℚ) :
    Option ℚ × BotEngine × LoadedBot :=
  if e.globalLimited now then (none, e, loaded)
  else if e.userLimited userId now then (none, e, loaded)
  else
    match loaded.passCooldown userId now with
    | none => (none, e, loaded)
    | some (delay, queued) =>
      match queued.passUserCooldown userId now with
      -- the user stays noted as queued
      | none => (none, e, queued)
      | some booked =>
        (some delay, { e with
            lastGlobalAccept := now
            perUserAccepts := track e.perUserAccepts userId touched },
          { booked with lastRunMonotonic := now })

end BotEngine

/-! ## Events -/

/-- What a message tells about its sender. -/
structure Sender where
  key : Option Text
  name : Option Text
  deriving DecidableEq, Repr

/-- `msg.sender_key or msg.sender_name or "unknown"` -/
def Sender.userId (sender : Sender) : Text :=
  let key := sender.key.getD []
  let name := sender.name.getD []
  if key ≠ [] then key else if name ≠ [] then name else "unknown".toList

inductive EngineEvent where
  /-- A message matches a keyword of the bot. -/
  | request (bot : Text) (sender : Sender) (now touched : ℚ)
  /-- The waiting time of a run is over. -/
  | started (run : BotRun)
  deriving DecidableEq, Repr

namespace BotEngine

variable (e : BotEngine)

/-- The run that an event lets through. -/
def admitted : EngineEvent → Option BotRun
  | .request bot sender now touched =>
    (e.bots.get? bot).bind fun loaded =>
      (e.admitRequest loaded sender.userId now touched).1.map (⟨bot, sender.userId, now, ·⟩)
  | .started _ => none

/-- What `_run_bot` does to the bot before the handler is called. -/
def wake (loaded : LoadedBot) (run : BotRun) : LoadedBot :=
  if 0 < run.delay ∧ run.userId ≠ [] then
    { loaded with queuedUsers := loaded.queuedUsers.erase run.userId }
  else loaded

/-- What an event leaves of the engine. -/
def handle (event : EngineEvent) : BotEngine :=
  match event with
  | .request bot sender now touched =>
    match e.bots.get? bot with
    | none => e
    | some loaded =>
      let (_, e', loaded') := e.admitRequest loaded sender.userId now touched
      { e' with
        bots := e.bots.set bot loaded'
        tasks := e.tasks ++ (e.admitted event).toList }
  | .started run =>
    if e.tasks.contains run then
      { e with
        bots :=
          match e.bots.get? run.bot with
          | none => e.bots
          | some loaded => e.bots.set run.bot (wake loaded run)
        tasks := e.tasks.erase run }
    else e

/-- The runs that a sequence of events lets through, in their order. -/
def runs : BotEngine → List EngineEvent → List BotRun
  | _, [] => []
  | e, event :: events => (e.admitted event).toList ++ runs (e.handle event) events

end BotEngine

/-! ## What a request can do -/

theorem Sender.userId_ne_nil (sender : Sender) : sender.userId ≠ [] := by
  unfold Sender.userId
  dsimp only
  split
  · assumption
  · split
    · assumption
    · decide

namespace LoadedBot

variable {l q : LoadedBot} {userId : Text} {now delay : ℚ}

/-- A run passes the cooldown at once, or it is queued for the rest of it. -/
theorem passCooldown_spec (h : l.passCooldown userId now = some (delay, q)) :
    (delay = 0 ∧ q = l ∧ (0 < l.record.cooldownSeconds → 0 < l.lastRunMonotonic →
      l.remaining now ≤ 0)) ∨
      (0 < l.record.cooldownSeconds ∧ 0 < delay ∧ delay = l.remaining now ∧ userId ∉ l.queuedUsers ∧
        q = { l with queuedUsers := insert userId l.queuedUsers }) := by
  unfold passCooldown at h
  split at h
  next hCooling =>
    obtain ⟨⟨-, hFresh⟩, hSome⟩ := Option.ite_none_right_eq_some.mp h
    cases hSome
    exact .inr ⟨hCooling.1, hCooling.2.2, rfl, hFresh, rfl⟩
  next hOver =>
    cases h
    exact .inl ⟨rfl, rfl, fun hCooldown hLast => not_lt.mp fun hRest =>
      hOver ⟨hCooldown, hLast, hRest⟩⟩

theorem passUserCooldown_spec (h : l.passUserCooldown userId now = some q) :
    ∃ users, q = { l with userCooldowns := users } := by
  unfold passUserCooldown at h
  dsimp only at h
  split at h
  · split at h
    · cases h
    · cases h
      exact ⟨_, rfl⟩
  · cases h
    exact ⟨l.userCooldowns, rfl⟩

/-- What a request can do to a bot: it is skipped, it is queued and then skipped, or it is
let through. -/
inductive Admission (l : LoadedBot) (userId : Text) (now : ℚ) : Option ℚ → LoadedBot → Prop
  | skipped : Admission l userId now none l
  | refused {delay : ℚ} {queued : LoadedBot}
  (hPass : l.passCooldown userId now = some (delay, queued))
      (hUser : queued.passUserCooldown userId now = none) : Admission l userId now none queued
  | booked {delay : ℚ} {queued : LoadedBot} {users : Table Text ℚ}
      (hPass : l.passCooldown userId now = some (delay, queued)) :
      Admission l userId now (some delay)
        { queued with userCooldowns := users, lastRunMonotonic := now }

theorem Admission.record_eq {answer : Option ℚ} (h : Admission l userId now answer q) :
    q.record = l.record := by
  have hPassed : ∀ {delay queued}, l.passCooldown userId now = some (delay, queued) →
      queued.record = l.record := by
    intro delay queued hPass
    rcases passCooldown_spec hPass with ⟨-, rfl, -⟩ | ⟨-, -, -, -, rfl⟩ <;> rfl
  cases h with
  | skipped => rfl
  | refused hPass _ => exact hPassed hPass
  | booked hPass =>
    have hRecord := hPassed hPass
    exact hRecord

end LoadedBot

namespace BotEngine

variable {e : BotEngine} {l : LoadedBot} {bot : Text}

/-- What a request can come to is one of the cases of `Admission`. -/
theorem admitRequest_spec (e : BotEngine) (l : LoadedBot) (userId : Text) (now touched : ℚ) :
    l.Admission userId now (e.admitRequest l userId now touched).1
      (e.admitRequest l userId now touched).2.2 := by
  unfold admitRequest
  split
  · exact .skipped
  split
  · exact .skipped
  split
  · exact .skipped
  rename_i delay queued hPass
  split
  next hUser => exact .refused hPass hUser
  next booked hUser =>
    obtain ⟨users, rfl⟩ := LoadedBot.passUserCooldown_spec hUser
    exact @LoadedBot.Admission.booked _ _ _ _ queued users hPass

theorem handle_request (sender : Sender) (now touched : ℚ) (h : e.bots.get? bot = some l) :
    ∃ answer l', l.Admission sender.userId now answer l' ∧
      e.admitted (.request bot sender now touched) = answer.map (⟨bot, sender.userId, now, ·⟩) ∧
      (e.handle (.request bot sender now touched)).bots = e.bots.set bot l' ∧
      (e.handle (.request bot sender now touched)).tasks =
        e.tasks ++ (answer.map (⟨bot, sender.userId, now, ·⟩)).toList := by
  have hAdmitted : e.admitted (.request bot sender now touched) =
      (e.admitRequest l sender.userId now touched).1.map (⟨bot, sender.userId, now, ·⟩) := by
    show (e.bots.get? bot).bind _ = _
    rw [h]
    rfl
  refine ⟨_, _, admitRequest_spec e l sender.userId now touched, hAdmitted, ?_, ?_⟩
  · unfold handle
    dsimp only
    rw [h]
  · unfold handle
    dsimp only
    rw [h, ← hAdmitted]

theorem handle_request_none (sender : Sender) (now touched : ℚ) (h : e.bots.get? bot = none) :
    e.handle (.request bot sender now touched) = e ∧
    e.admitted (.request bot sender now touched) = none := by
  constructor
  · unfold handle
    dsimp only
    rw [h]
  · show (e.bots.get? bot).bind _ = none
    rw [h]
    rfl

theorem get?_handle_started {id : Text} {run : BotRun} (h : e.bots.get? id = some l) :
    ∃ l', (e.handle (.started run)).bots.get? id = some l' ∧ l'.record = l.record ∧
      l'.lastRunMonotonic = l.lastRunMonotonic := by
  unfold handle
  dsimp only
  split
  · split
    · exact ⟨l, h, rfl, rfl⟩
    rename_i loaded hLoaded
    rw [Table.get?_set]
    split
    next hSame =>
      rw [hSame, hLoaded] at h
      cases h
      refine ⟨wake l run, rfl, ?_⟩
      unfold wake
      split <;> exact ⟨rfl, rfl⟩
    · exact ⟨l, h, rfl, rfl⟩
  · exact ⟨l, h, rfl, rfl⟩

theorem load_of_start {settings : BotSettings} {records : List (Text × Bot)} {id : Text}
    (h : (start settings records).bots.get? id = some l) :
    ∃ record, (id, record) ∈ records ∧ l = .load record := by
  have hMem := Table.mem_ofList h
  obtain ⟨⟨id', record⟩, hRecord, hEq⟩ := List.mem_map.mp hMem
  cases hEq
  exact ⟨record, hRecord, rfl⟩

end BotEngine

end RemoteTerm.Bots
