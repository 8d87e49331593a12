import RemoteTerm.Foundation.Run
import RemoteTerm.LiveFeed.CleanSync

/-!
# Gaps of the mirror

A sync moves the cursor also when some of its requests have failed, and later ones do not go back
behind it (`failed_slice_not_mirrored`). As long as nothing failed in the syncs that moved the
cursor, the packets before it are in the mirror because an earlier sync had them.

For this a packet has to be served by every sync from the overlap on after it was listed, the
instance has to stay of one kind, and no row of the packet may be older than the retention.
-/

namespace RemoteTerm.LiveFeed

open Foundation Table

/-! ## The syncs under some settings -/

/-- A sync with what became of it. -/
structure SyncAct where
  poll : Poll
  completed : Bool
  unfailing : Bool

namespace TimedFeed

variable (s : FeedSettings)

def Step (t : TimedFeed) (act : SyncAct) (t' : TimedFeed) : Prop :=
  t.syncTimed s act.poll = (t', act.completed) ∧ (act.unfailing = true ↔ t.Unfailing s act.poll)

/-- The packet was listed a good while before the cursor, and no backlog is to bring it. Messages
that the instance decrypts (`own`) have none, and without Beacon (`beacon`) it does not matter. -/
def PastCursor (own : Prop) (beacon : Bool) (time : Int) (t : TimedFeed) : Prop :=
  ∃ k, t.cursor = some k ∧ time + cursorOverlapSeconds ≤ k ∧
    (own ∨ beacon = false ∨ t.privateBacklog = false)

/-- What is past the cursor of these settings is in the mirror. -/
structure Covered (hash : Text) (oldest : Int) (own : Prop) (beacon : Bool) (time : Int)
    (t : TimedFeed) : Prop where
  mirror : ∀ row, t.feed.mirror.get? hash = some row → oldest ≤ row.row.firstSeen
  tracked : t.feed.cursorScope = some s.syncScope →
    Feed.Tracks (some s.source.feedScope, some s.syncScope) hash oldest own
      (t.PastCursor own beacon time) t.feed

variable {s} {t t' : TimedFeed} {p : Poll} {hash key : Text} {own : Prop} {beacon : Bool}
  {oldest start time : Int}

/-- Before the requests only another feed is cleared, and what was inspected for other keys. -/
theorem Covered.startFeed (h : Covered s hash oldest own beacon time t) :
    Feed.Tracks (t.feed.feedScope, t.feed.cursorScope) hash oldest own
      (t.feed.cursorScope = some s.syncScope ∧ t.PastCursor own beacon time) (t.startFeed s p) := by
  by_cases hScope : t.feed.cursorScope = some s.syncScope
  · have hTracks := h.tracked hScope
    have hFeedScope : t.feed.feedScope = some s.source.feedScope := congrArg Prod.fst hTracks.scopes
    have hSame : t.startFeed s p = t.feed := by
      unfold TimedFeed.startFeed Feed.clearOther
      rw [if_neg fun hOther => hOther.2 hFeedScope]
      exact if_neg fun hOther => hOther hScope
    rw [hSame, hFeedScope, hScope]
    exact hTracks.mono And.right
  · have hClear : (t.feed.clearOther (t.call s p)).feedScope = t.feed.feedScope ∧
        (t.feed.clearOther (t.call s p)).cursorScope = t.feed.cursorScope ∧
        ∀ row, (t.feed.clearOther (t.call s p)).mirror.get? hash = some row →
          oldest ≤ row.row.firstSeen := by
      unfold Feed.clearOther
      split
      · refine ⟨rfl, rfl, ?_⟩
        intro row hGet
        cases hGet.symm.trans (get?_empty hash)
      · exact ⟨rfl, rfl, h.mirror⟩
    obtain ⟨hFeedScope, hCursorScope, hMirror⟩ := hClear
    have hOther : (t.feed.clearOther (t.call s p)).cursorScope ≠ some (t.call s p).syncScope :=
      fun hSame => hScope (hCursorScope.symm.trans hSame)
    unfold TimedFeed.startFeed Feed.clearInspected
    rw [if_pos hOther]
    refine ⟨Prod.ext hFeedScope hCursorScope, hMirror, fun hHad => absurd hHad.1 hScope, ?_, ?_⟩
    · intro k f hGet
      cases hGet.symm.trans (get?_empty k)
    · intro hGet
      cases hGet.symm.trans (get?_empty hash)

/-- Dropping what is older than the retention does not touch the packet. -/
theorem tracks_prune {scopes scopes' : Option Text × Option Text} {had : Prop} {feed : Feed}
    {cutoff : Int} (h : Feed.Tracks scopes hash oldest own had feed) (hCutoff : cutoff ≤ oldest) :
    Feed.Tracks scopes' hash oldest own had
      { feed with
        feedScope := scopes'.1
        cursorScope := scopes'.2
        mirror := feed.mirror.pruneOlderThan cutoff } := by
  refine ⟨rfl, ?_, ?_, h.inspected, h.barred⟩
  · intro row hGet
    rw [Mirror.pruneOlderThan, get?_filter] at hGet
    exact h.mirror row (Option.filter_eq_some_iff.mp hGet).1
  · intro hHad
    obtain ⟨row, hRow⟩ := mem_keys.mp (h.present hHad)
    have hOld := h.mirror row hRow
    refine mem_keys.mpr ⟨row, ?_⟩
    rw [Mirror.pruneOlderThan, get?_filter, hRow]
    exact Option.filter_eq_some_iff.mpr ⟨rfl, decide_eq_true (by omega)⟩

theorem syncTimed_eq (t : TimedFeed) (p : Poll) : t.syncTimed s p =
      match (t.startFeed s p).requests (t.call s p) with
      | (feed, true) =>
        (⟨{ feed with
            feedScope := some s.source.feedScope
            cursorScope := some s.syncScope
            mirror := feed.mirror.pruneOlderThan (p.now - retentionSeconds) }, some p.now,
              t.nextBacklog s p⟩, true)
      | (feed, false) => (⟨feed, t.startCursor s, t.startBacklog s⟩, false) := by
  have hStart : (t.feed.clearOther (t.call s p)).clearInspected (t.call s p) = t.startFeed s p :=
    rfl
  unfold syncTimed Feed.syncOnce
  rw [hStart]
  obtain ⟨feed, done⟩ := (t.startFeed s p).requests (t.call s p)
  cases done with
  | false => rfl
  | true => rfl

theorem syncTimed_completed (h : t.syncTimed s p = (t', true)) :
    ∃ feed, (t.startFeed s p).requests (t.call s p) = (feed, true) ∧ t' = ⟨{ feed with
        feedScope := some s.source.feedScope
        cursorScope := some s.syncScope
        mirror := feed.mirror.pruneOlderThan (p.now - retentionSeconds) }, some p.now,
          t.nextBacklog s p⟩ := by
  rw [syncTimed_eq] at h
  split at h
  next feed hRequests =>
    cases h
    exact ⟨feed, hRequests, rfl⟩
  next => cases h

theorem syncTimed_failed (h : t.syncTimed s p = (t', false)) :
    ∃ feed, (t.startFeed s p).requests (t.call s p) = (feed, false) ∧
      t' = ⟨feed, t.startCursor s, t.startBacklog s⟩ := by
  rw [syncTimed_eq] at h
  split at h
  next => cases h
  next feed hRequests =>
    cases h
    exact ⟨feed, hRequests, rfl⟩

/-- Under the settings of the cursor nothing is cleared before the requests. -/
theorem Covered.start_eq (h : Covered s hash oldest own beacon time t)
    (hScope : t.feed.cursorScope = some s.syncScope) :
    t.startCursor s = t.cursor ∧ t.startBacklog s = t.privateBacklog := by
  have hFeedScope : t.feed.feedScope = some s.source.feedScope :=
    congrArg Prod.fst (h.tracked hScope).scopes
  have hCleared : t.cleared s = false := decide_eq_false fun hOther => hOther.2 hFeedScope
  unfold startCursor startBacklog
  rw [hCleared]
  exact ⟨rfl, rfl⟩

/-- Only a walk over the packets of a Beacon instance changes the backlog. -/
theorem nextBacklog_of_not_beacon (h : p.remote.isBeacon = false) :
    t.nextBacklog s p = t.startBacklog s := by
  unfold nextBacklog call FeedSettings.call answers
  cases hRemote : p.remote with
  | unreachable => rfl
  | corescope => rfl
  | beacon =>
    rw [hRemote] at h
    cases h

section Step

variable (hNamed : hash ≠ []) (hKey : key ∈ s.channels)
  (hNames : p.remote.Names hash key own oldest)
  (h : Covered s hash oldest own beacon time t)

include hNamed hKey hNames h

/-- A sync that went through has the packet if no request failed and the packet is in its look-back
window, walked or not. -/
theorem Covered.completed (hSync : t.syncTimed s p = (t', true))
    (hStart : p.now - lookbackSeconds ≤ start)
    (hWindow : start ≤ time) (hOldest : p.now - retentionSeconds ≤ oldest) :
    Feed.Tracks (some s.source.feedScope, some s.syncScope) hash oldest own
      (t.Unfailing s p ∧ p.remote.Serves s hash key own start time ∧ time ≤ p.now ∧
        (own ∨ (t.outOfDetails s p = false ∧
          (beacon = false ∨ p.remote.isBeacon = true ∨ t.startBacklog s = false)))) t'.feed := by
  obtain ⟨feed, hRequests, rfl⟩ := syncTimed_completed hSync
  have hTracks := @tracks_requests s t p _ hash key own _ oldest start time hNamed hKey
    hNames h.startFeed
  rw [hRequests] at hTracks
  refine (tracks_prune hTracks hOldest).mono ?_
  rintro ⟨hUnfailing, hServes, hStop, hBacklog⟩
  have hReaches : (t.since s p.now ≤ time ∨
      (¬own ∧ p.remote.isBeacon = true ∧ t.startBacklog s = true)) →
      Reaches s t p hash key own start time :=
    fun hWalked => ⟨hUnfailing, hBacklog.imp id And.left, hServes, hWalked, hStop, hWindow, hStart⟩
  by_cases hWalked : t.since s p.now ≤ time
  · exact .inr ⟨rfl, hReaches (.inl hWalked)⟩
  have hInside : p.now - lookbackSeconds ≤ time := Int.le_trans hStart hWindow
  obtain ⟨hScope, k, hCursor, hBefore⟩ := before_cursor hInside (Int.not_le.mp hWalked)
  have hPast : own ∨ beacon = false ∨ t.privateBacklog = false →
      t.feed.cursorScope = some s.syncScope ∧ t.PastCursor own beacon time :=
    fun hDone => ⟨hScope, k, hCursor, hBefore, hDone⟩
  have hPending := (h.start_eq hScope).2
  by_cases hOwn : own
  · exact .inl (hPast (.inl hOwn))
  obtain ⟨-, hOther | hBeacon | hNone⟩ := hBacklog.resolve_left hOwn
  · exact .inl (hPast (.inr (.inl hOther)))
  · cases hStarted : t.startBacklog s with
    | false => exact .inl (hPast (.inr (.inr (hPending.symm.trans hStarted))))
    | true => exact .inr ⟨rfl, hReaches (.inr ⟨hOwn, hBeacon, hStarted⟩)⟩
  · exact .inl (hPast (.inr (.inr (hPending.symm.trans hNone))))

/-- A sync that did not go through leaves the cursor where it was. -/
theorem Covered.failed (hSync : t.syncTimed s p = (t', false)) :
    Covered s hash oldest own beacon time t' := by
  obtain ⟨feed, hRequests, rfl⟩ := syncTimed_failed hSync
  have hTracks := @tracks_requests s t p _ hash key own _ oldest time time hNamed hKey
    hNames h.startFeed
  rw [hRequests] at hTracks
  refine ⟨hTracks.mirror, ?_⟩
  intro hScope
  have hScopes : (feed.feedScope, feed.cursorScope) = (t.feed.feedScope, t.feed.cursorScope) :=
    hTracks.scopes
  have hBefore : t.feed.cursorScope = some s.syncScope :=
    (congrArg Prod.snd hScopes).symm.trans hScope
  rw [(h.start_eq hBefore).1, (h.start_eq hBefore).2]
  rw [← (h.tracked hBefore).scopes]
  exact hTracks.mono fun hPast => .inl ⟨hBefore, hPast⟩

end Step

/-! ## Sequences of syncs -/

section Run

variable {t₀ : TimedFeed} {acts : List SyncAct} {last : Poll} (hNamed : hash ≠ [])
  (hKey : key ∈ s.channels)
  (hTimes : ∀ act ∈ acts, act.poll.now ≤ last.now)
  (hKind : ∀ act ∈ acts, act.poll.remote.isBeacon = true → last.remote.isBeacon = true)
  (hNames : ∀ act ∈ acts, act.poll.remote.Names hash key own (last.now - retentionSeconds))
  (hServes : ∀ act ∈ acts, time + cursorOverlapSeconds ≤ act.poll.now →
    act.poll.remote.Serves s hash key own (last.now - lookbackSeconds) time)
  (hEarlier : ∀ act ∈ acts, act.completed = true → act.unfailing = true)
  (hWindow : last.now - lookbackSeconds ≤ time)

include hNamed hKey hTimes hKind hNames hServes hEarlier hWindow

/-- Syncs in which nothing fails, and ones that do not go through, leave no gap behind the cursor.
-/
theorem Covered.step {act : SyncAct} (hAct : act ∈ acts)
    (h : Covered s hash (last.now - retentionSeconds) own last.remote.isBeacon time t)
    (hStep : Step s t act t') :
    Covered s hash (last.now - retentionSeconds) own last.remote.isBeacon time t' := by
  obtain ⟨hSync, hUnfailing⟩ := hStep
  cases hCompleted : act.completed with
  | false =>
    rw [hCompleted] at hSync
    exact h.failed hNamed hKey (hNames act hAct) hSync
  | true =>
    rw [hCompleted] at hSync
    have hTime := hTimes act hAct
    have hTracks := h.completed hNamed hKey (hNames act hAct) hSync (by omega) hWindow (by omega)
    obtain ⟨feed, -, rfl⟩ := syncTimed_completed hSync
    refine ⟨hTracks.mirror, fun _ => hTracks.mono ?_⟩
    rintro ⟨_, ⟨⟩, hBefore, hBacklog⟩
    have hPositive : 0 ≤ cursorOverlapSeconds := by decide
    refine ⟨hUnfailing.mp (hEarlier act hAct hCompleted), hServes act hAct hBefore, by omega, ?_⟩
    refine hBacklog.imp id ?_
    unfold outOfDetails
    rintro (hOther | hNone)
    · have hSame : act.poll.remote.isBeacon = false :=
        Bool.eq_false_iff.mpr fun hBeacon =>
          absurd (hKind act hAct hBeacon) (Bool.eq_false_iff.mp hOther)
      rw [hSame]
      exact ⟨rfl, .inl hOther⟩
    · have hNext : t.nextBacklog s act.poll = false := hNone
      rw [hNext]
      refine ⟨Bool.and_false _, .inr ?_⟩
      cases hBeacon : act.poll.remote.isBeacon with
      | true => exact .inl rfl
      | false => exact .inr ((nextBacklog_of_not_beacon hBeacon).symm.trans hNext)

end Run

/-! ## A slice that fails -/

end TimedFeed

end RemoteTerm.LiveFeed
