import RemoteTerm.Foundation.Run
import RemoteTerm.LiveFeed.Sync

/-!
# The sources of the mirrored rows

Every row of the mirror was brought by a sync since the mirror was cleared last
(`Feed.follows_of_run`). A sync that fails may have brought some, and the next one compares its
settings with those of the last successful sync only.
-/

namespace RemoteTerm.LiveFeed

open Foundation List

/-! ## What a sync brings -/

/-- The answers have a row. -/
def Answers.Carries : Answers → Prop
  | .unreachable => False
  | .corescope packets messages =>
    (∃ w ∈ packets, ∃ page ∈ w.pages, page.rows ≠ []) ∨ ∃ key, ∃ page ∈ (messages key).pages,
      page ≠ []
  | .beacon _ messages packets =>
    (∃ key, ∃ page ∈ (messages key).pages, page ≠ []) ∨
      ∃ page ∈ packets, ∃ packetHash row, page.details.get? packetHash = some (some row)

namespace Feed

/-- All that is stored or remembered was fetched from sources with a property, and the last
successful sync had the given scope. -/
structure Sources (scope : Option Text) (P : FeedSource → Prop) (feed : Feed) : Prop where
  scope : feed.feedScope = scope
  mirror : ∀ packetHash row, feed.mirror.get? packetHash = some row → row.sources ≠ [] ∧
    ∀ s ∈ row.sources, P s
  inspected : ∀ packetHash f, feed.inspected.get? packetHash = some (some f) → P f.source

variable {scope : Option Text} {P : FeedSource → Prop} {feed : Feed} {c : SyncCall}

theorem Sources.mono {Q : FeedSource → Prop} (h : Sources scope P feed) (hMono : ∀ s, P s → Q s) :
    Sources scope Q feed where
  scope := h.scope
  mirror packetHash row hGet :=
    ⟨(h.mirror packetHash row hGet).1, fun s hs => hMono s ((h.mirror packetHash row hGet).2 s hs)⟩
  inspected packetHash f hGet := hMono _ (h.inspected packetHash f hGet)

theorem sources_of_empty (scope cursorScope : Option Text) (P : FeedSource → Prop) :
    Sources scope P ⟨scope, cursorScope, .empty, .empty⟩ where
  scope := rfl
  mirror _ _ hGet := by cases hGet
  inspected _ _ hGet := by cases hGet

/-! ### Writes -/

section

variable (h : Sources scope P feed)

include h

theorem Sources.write {f : FetchedRow} (hRow : P f.source) :
    Sources scope P { feed with mirror := feed.mirror.write c.now f } := by
  refine ⟨h.scope, ?_, h.inspected⟩
  unfold Mirror.write
  split
  · exact Table.forall_set h.mirror ⟨cons_ne_nil _ _, forall_mem_singleton.mpr hRow⟩
  next old hOld =>
    refine Table.forall_set h.mirror ⟨append_ne_nil_of_right_ne_nil _ (cons_ne_nil _ _), ?_⟩
    exact forall_mem_append.mpr ⟨(h.mirror _ old hOld).2, forall_mem_singleton.mpr hRow⟩

theorem Sources.upsert {rows : List FetchedRow} (hRows : ∀ f ∈ rows, P f.source) :
    Sources scope P (feed.upsert c rows) := by
  have hBatch : ∀ batch ∈ slices rows 0 upsertBatch, ∀ f ∈ batch, P f.source := by
    intro batch hMem f hf
    apply hRows
    rw [← drop_zero (l := rows), ← flatten_slices rows 0 (by decide : 0 < upsertBatch)]
    exact mem_flatten.mpr ⟨batch, hMem, hf⟩
  refine List.foldlRecOn (motive := fun m => Sources scope P { feed with mirror := m }) _ _ h ?_
  intro m hm batch hMem
  refine List.foldlRecOn (motive := fun m => Sources scope P { feed with mirror := m }) _ _ hm ?_
  intro m hm f hf
  exact hm.write (c := c) (hBatch batch hMem f (mem_filter.mp hf).1)

theorem Sources.upsert_fetched {rows : List LiveRow} (hRows : rows ≠ [] → P c.source) :
    Sources scope P (feed.upsert c (rows.map (fetched c))) := by
  apply h.upsert
  intro f hf
  obtain ⟨row, hRow, rfl⟩ := mem_map.mp hf
  exact hRows (ne_nil_of_mem hRow)

theorem Sources.rememberInspected {packetHash : Text} {row : Option FetchedRow}
    (hRow : ∀ f, row = some f → P f.source) :
    Sources scope P (feed.rememberInspected packetHash row) := by
  obtain ⟨hMirror, hScope, -⟩ := rememberInspected_frame feed packetHash row
  refine ⟨hScope.trans h.scope, ?_, ?_⟩
  · rw [hMirror]
    exact h.mirror
  · intro hash f hGet
    rcases get?_rememberInspected hGet with ⟨-, hNew⟩ | hOld
    · exact hRow f hNew.symm
    · exact h.inspected hash f hOld

/-! ### Walks -/

theorem Sources.walkAll {ws : List Walk}
    (hRows : ∀ w ∈ ws, ∀ page ∈ w.pages, page ≠ [] → P c.source) :
    Sources scope P (walkAll c ws feed).1 := by
  induction ws generalizing feed with
  | nil => exact h
  | cons w ws ih =>
    rw [forall_mem_cons] at hRows
    have hWalk : Sources scope P (feed.walk c w) :=
      List.foldlRecOn (motive := Sources scope P) _ _ h fun feed hFeed page hPage =>
        hFeed.upsert_fetched (hRows.1 page hPage)
    unfold Feed.walkAll
    split
    · exact hWalk
    · exact ih hWalk hRows.2

end

theorem Sources.syncPackets {packets : List PacketWalk} (h : Sources scope P feed)
    (hRows : ∀ w ∈ packets, ∀ page ∈ w.pages, page.rows ≠ [] → P c.source) :
    Sources scope P (syncPackets c feed packets).feed := by
  refine List.foldlRecOn (motive := fun r : PacketResult => Sources scope P r.feed) _ _ h ?_
  intro r hr w hw
  refine List.foldlRecOn (motive := fun r : PacketResult => Sources scope P r.feed) w.pages
    (packetPage c) hr ?_
  intro r hr page hPage
  refine hr.upsert_fetched fun hUnseen => hRows w hw page hPage fun hNil => hUnseen ?_
  rw [hNil]
  rfl

/-! ### Packets of a Beacon instance -/

theorem Sources.scanSummaries {scan : PageScan} (h : Sources scope P scan.feed)
    (hRows : ∀ f ∈ scan.rows, P f.source) (budget : Nat) (summaries : List Summary) :
    Sources scope P (scanSummaries budget summaries scan).feed ∧
      ∀ f ∈ (Feed.scanSummaries budget summaries scan).rows, P f.source := by
  fun_induction Feed.scanSummaries budget summaries scan with
  | case1 scan => exact ⟨h, hRows⟩
  | case2 _ _ _ _ ih => exact ih h hRows
  | case3 _ _ _ _ _ ih => exact ih h hRows
  | case4 summary rest scan _ f hKnown ih =>
    have hSource : P (refreshed f summary).source := h.inspected _ f hKnown
    apply ih
    · apply h.rememberInspected
      rintro _ ⟨⟩
      exact hSource
    · intro f' hf'
      rcases mem_append.mp hf' with hf' | hf'
      · exact hRows f' hf'
      · exact mem_singleton.mp hf' ▸ hSource
  | case5 => exact ⟨h, hRows⟩
  | case6 _ _ _ _ _ _ ih => exact ih h hRows

section

variable (h : Sources scope P feed)

include h

theorem Sources.fetchDetails {details : Table Text (Option LiveRow)} {rows : List FetchedRow}
    (hRows : ∀ f ∈ rows, P f.source)
    (hDetails : ∀ packetHash row, details.get? packetHash = some (some row) → P c.source)
    (toFetch : List Text) : Sources scope P (fetchDetails c details toFetch (feed, rows)).1 ∧
      ∀ f ∈ (Feed.fetchDetails c details toFetch (feed, rows)).2, P f.source := by
  induction toFetch generalizing feed rows with
  | nil => exact ⟨h, hRows⟩
  | cons packetHash rest ih =>
    unfold Feed.fetchDetails
    split
    · exact ih h hRows
    rename_i row hRow
    have hNew : ∀ f, row.map (fetched c) = some f → P f.source := by
      intro f hf
      obtain ⟨live, rfl, rfl⟩ := Option.map_eq_some_iff.mp hf
      exact hDetails packetHash live hRow
    apply ih (h.rememberInspected hNew)
    exact forall_mem_append.mpr ⟨hRows, fun f hf => hNew f (Option.mem_toList.mp hf)⟩

theorem Sources.syncBeaconPrivate {budget : Nat} {pages : List PrivatePage}
    (hDetails : ∀ page ∈ pages, ∀ packetHash row, page.details.get? packetHash = some (some row) →
      P c.source) :
    Sources scope P (syncBeaconPrivate c budget pages feed) := by
  induction pages generalizing budget feed with
  | nil => exact h
  | cons page pages ih =>
    rw [forall_mem_cons] at hDetails
    unfold Feed.syncBeaconPrivate
    dsimp only
    have hNew : Sources scope P (PageScan.mk feed [] [] false).feed := h
    obtain ⟨hScan, hScanRows⟩ := hNew.scanSummaries (fun f hf =>
      absurd hf not_mem_nil) budget page.summaries
    obtain ⟨hFetch, hFetchRows⟩ := hScan.fetchDetails hScanRows hDetails.1
      (Feed.scanSummaries budget page.summaries ⟨feed, [], [], false⟩).toFetch
    have hStored := hFetch.upsert (c := c) hFetchRows
    split
    · exact hStored
    · exact ih hStored hDetails.2

/-! ### The requests of a sync -/

theorem Sources.requests (hCarries : c.answers.Carries → P c.source) :
    Sources scope P (requests c feed).1 := by
  unfold Feed.requests
  split
  · exact h
  split
  · exact h
  · exact h
  next matched messages packets hAnswers =>
    rw [hAnswers] at hCarries
    have hWalks : Sources scope P
        (Feed.walkAll c ((c.channels.filter matched.contains).map messages) feed).1 := by
      apply h.walkAll
      intro w hw page hPage hRows
      obtain ⟨key, -, rfl⟩ := mem_map.mp hw
      exact hCarries (.inl ⟨key, page, hPage, hRows⟩)
    split
    next feed' hWalk =>
      rw [hWalk] at hWalks
      exact hWalks
    next feed' hWalk =>
      rw [hWalk] at hWalks
      split
      · exact hWalks
      · exact hWalks.syncBeaconPrivate fun page hPage packetHash row hDetail =>
          hCarries (.inr ⟨page, hPage, packetHash, row, hDetail⟩)
  next packets messages hAnswers =>
    rw [hAnswers] at hCarries
    have hPackets : Sources scope P (Feed.syncPackets c feed packets).feed :=
      h.syncPackets fun w hw page hPage hRows => hCarries (.inl ⟨w, hw, page, hPage, hRows⟩)
    dsimp only
    split
    · apply hPackets.walkAll
      intro w hw page hPage hRows
      obtain ⟨key, -, rfl⟩ := mem_map.mp hw
      exact hCarries (.inr ⟨key, page, hPage, hRows⟩)
    · exact hPackets

theorem Sources.clearInspected : Sources scope P (feed.clearInspected c) := by
  unfold Feed.clearInspected
  split
  · exact ⟨h.scope, h.mirror, fun _ _ hGet => by cases hGet⟩
  · exact h

end

/-! ## Histories -/

end Feed

inductive FeedAct where
  | sync (c : SyncCall) (succeeded : Bool)
  | restart

def Feed.Step (feed : Feed) : FeedAct → Feed → Prop
  | .sync c succeeded, feed' => feed.syncOnce c = (feed', succeeded)
  | .restart, feed' => feed' = feed.restart

/-- The source of the last successful sync of this process, and the sources of the syncs that
had a row in their answers since the mirror was cleared. -/
structure FeedHistory where
  last : Option FeedSource
  brought : Set FeedSource

namespace FeedHistory

/-- A sync that starts with a clear. -/
def Clears (h : FeedHistory) (c : SyncCall) : Prop :=
  ∃ s, h.last = some s ∧ s.feedScope ≠ c.source.feedScope

def next (h : FeedHistory) : FeedAct → FeedHistory
  | .sync c succeeded =>
    { last := if succeeded then some c.source else h.last
      brought := {s | (¬h.Clears c ∧ s ∈ h.brought) ∨ (c.answers.Carries ∧ s = c.source)} }
  | .restart => { h with last := none }

end FeedHistory

def feedHistory (acts : List FeedAct) : FeedHistory := acts.foldl FeedHistory.next ⟨none, ∅⟩

theorem feedHistory_append (acts : List FeedAct) (act : FeedAct) :
    feedHistory (acts ++ [act]) = (feedHistory acts).next act := foldl_append

namespace Feed

/-- The mirror keeps to what the history tells. -/
def Follows (feed : Feed) (h : FeedHistory) : Prop :=
  Sources (h.last.map FeedSource.feedScope) (· ∈ h.brought) feed

variable {h : FeedHistory} {feed feed' : Feed} {c : SyncCall}

section

variable (hFollows : feed.Follows h)

include hFollows

theorem Follows.clearOther :
    Sources (h.last.map FeedSource.feedScope) (fun s => ¬h.Clears c ∧ s ∈ h.brought)
      (feed.clearOther c) := by
  unfold Feed.clearOther
  split
  · rw [← hFollows.scope]
    exact sources_of_empty _ _ _
  rename_i hSame
  apply hFollows.mono
  refine fun s hs => ⟨?_, hs⟩
  rintro ⟨last, hLast, hOther⟩
  apply hSame
  rw [hFollows.scope, hLast]
  exact ⟨Option.some_ne_none _, fun hScope => hOther (Option.some.inj hScope)⟩

/-- The requests of a sync, whether they go through or not. -/
theorem Follows.requests : Sources (h.last.map FeedSource.feedScope)
      (fun s => (¬h.Clears c ∧ s ∈ h.brought) ∨ (c.answers.Carries ∧ s = c.source))
      (requests c ((feed.clearOther c).clearInspected c)).1 := by
  apply Sources.requests
  · exact hFollows.clearOther.clearInspected.mono fun s hs => .inl hs
  · exact fun hCarries => .inr ⟨hCarries, rfl⟩

theorem Follows.syncOnce {succeeded : Bool} (hSync : feed.syncOnce c = (feed', succeeded)) :
    feed'.Follows (h.next (.sync c succeeded)) := by
  have hRequests := hFollows.requests (c := c)
  unfold Feed.syncOnce at hSync
  split at hSync
  next failed hEq =>
    cases hSync
    rw [hEq] at hRequests
    exact hRequests
  next done hEq =>
    cases hSync
    rw [hEq] at hRequests
    -- dropping what is old brings nothing in
    refine ⟨rfl, ?_, hRequests.inspected⟩
    intro packetHash row hGet
    dsimp only [Mirror.pruneOlderThan] at hGet
    rw [Table.get?_filter, Option.filter_eq_some_iff] at hGet
    exact hRequests.mirror packetHash row hGet.1

/-- The record of what was fetched follows every step. -/
theorem Follows.step {act : FeedAct} (hStep : feed.Step act feed') :
    feed'.Follows (h.next act) := by
  cases act with
  | sync c succeeded => exact hFollows.syncOnce hStep
  | restart =>
    cases hStep
    exact ⟨rfl, hFollows.mirror, fun _ _ hGet => by cases hGet⟩

end

/-- Every row was brought by a sync since the mirror was cleared last. -/
theorem follows_of_run {acts : List FeedAct} (hRun : Run Step .start acts feed) :
    feed.Follows (feedHistory acts) := by
  rw [← nil_append acts]
  refine Run.invariant_labels (I := fun acts feed => feed.Follows (feedHistory acts)) ?_ hRun ?_
  · intro acts s act t hFollows hStep
    rw [feedHistory_append]
    exact hFollows.step hStep
  · exact sources_of_empty _ _ _

/-- After a successful sync, all rows are of its own instance and region, if it starts with a
clear or no sync of another source had rows since the last one. -/
theorem mirror_of_own_source {acts : List FeedAct}
    (hRun : Run Step .start (acts ++ [.sync c true]) feed)
    (hOwn : (feedHistory acts).Clears c ∨ ∀ s ∈ (feedHistory acts).brought, s = c.source) :
    ∀ row ∈ feed.mirror.values, row.sources ≠ [] ∧ ∀ s ∈ row.sources, s = c.source := by
  intro row hRow
  obtain ⟨packetHash, hGet⟩ := Table.mem_values.mp hRow
  obtain ⟨hNonempty, hSources⟩ := (follows_of_run hRun).mirror packetHash row hGet
  refine ⟨hNonempty, fun s hs => ?_⟩
  have hBrought := hSources s hs
  rw [feedHistory_append] at hBrought
  rcases hBrought with ⟨hKept, hBefore⟩ | ⟨-, hSame⟩
  · rcases hOwn with hClears | hOwn
    · exact absurd hClears hKept
    · exact hOwn s hBefore
  · exact hSame

/-- A message of Public, as an instance has it. -/
def greeting : LiveRow :=
  { packetHash := "9f".toList, channelName := "Public".toList, channelKey := some "8B".toList
    sender := some "Ana".toList, text := "Ana: hi".toList, senderTimestamp := some 100
    firstSeen := 100, lastSeen := 100, repeats := 1, observers := [], hops := none, snr := none
    scopeName := none }

/-- A sync of one channel from a packet feed. -/
def packetSync (region : Text) (rows : List LiveRow) : SyncCall :=
  ⟨200, "https://live".toList, region, ["8B".toList], .corescope [⟨[⟨rows, 1, 1⟩], false⟩] fun _ =>
    ⟨[], false⟩⟩

/-- The packet feed is down, and the messages break off behind their first page. -/
def brokenSync (region : Text) (rows : List LiveRow) : SyncCall :=
  ⟨200, "https://live".toList, region, ["8B".toList], .corescope [⟨[], true⟩] fun _ =>
    ⟨[rows], true⟩⟩

def inYul : SyncCall := packetSync "yul".toList [greeting]
def inYqb : SyncCall := packetSync "yqb".toList [greeting]

theorem mirror_of_own_source_after_change :
    ∃ feed, Run Step .start [.sync inYul true, .sync inYqb true] feed ∧ feed.mirror.values ≠ [] ∧
      ∀ row ∈ feed.mirror.values, row.sources ≠ [] ∧ ∀ s ∈ row.sources, s = inYqb.source := by
  have hRun : Run Step .start [.sync inYul true, .sync inYqb true]
      ((start.syncOnce inYul).1.syncOnce inYqb).1 :=
    .cons (Prod.ext rfl (by decide)) (.cons (Prod.ext rfl (by decide)) (.nil _))
  exact ⟨_, hRun, by decide, @mirror_of_own_source _ _ [.sync inYul true] hRun
    (.inl ⟨inYul.source, rfl, by decide⟩)⟩

def quietInYul : SyncCall := packetSync "yul".toList []
def brokenInYqb : SyncCall := brokenSync "yqb".toList [greeting]

/-- The first sync and the last are of one region, and the one between them fails after it has
stored a row of another: the row is left. -/
theorem rows_of_failed_sync_kept :
    ∃ feed, Run Step .start [.sync quietInYul true, .sync brokenInYqb false,
      .sync quietInYul true] feed ∧
      ∃ row ∈ feed.mirror.values, ∃ s ∈ row.sources, s ≠ quietInYul.source := by
  have hRun : Run Step .start [.sync quietInYul true, .sync brokenInYqb false,
      .sync quietInYul true]
      (((start.syncOnce quietInYul).1.syncOnce brokenInYqb).1.syncOnce quietInYul).1 :=
    .cons (Prod.ext rfl (by decide)) (.cons (Prod.ext rfl (by decide))
      (.cons (Prod.ext rfl (by decide)) (.nil _)))
  exact ⟨_, hRun, by decide⟩

end Feed

end RemoteTerm.LiveFeed
