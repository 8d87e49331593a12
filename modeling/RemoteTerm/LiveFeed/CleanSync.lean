import RemoteTerm.LiveFeed.PacketTracking

/-!
# What a clean sync brings

A sync without failed requests, in which no budget runs out, walks its whole window: a packet that
is listed at a time of the window is in the mirror afterwards (`TimedFeed.tracks_requests`).
A CoreScope instance lists packets by observation, a Beacon instance by the first one.
-/

namespace RemoteTerm.LiveFeed

open Foundation List

/-! ## Windows -/

namespace TimedFeed

variable {s : FeedSettings} {t : TimedFeed} {now : Int}

theorem lookback_le_since : now - lookbackSeconds ≤ t.since s now := by
  unfold since
  split
  · exact Int.le_refl _
  · split
    · exact Int.le_refl _
    · exact Int.le_max_left _ _

theorem since_of_fullWalk (h : t.fullWalk s = true) : t.since s now = now - lookbackSeconds := by
  unfold since
  split
  · rfl
  · rw [if_pos h]

theorem privateSince_le_since : t.privateSince s now ≤ t.since s now := by
  unfold privateSince
  split
  · exact lookback_le_since
  · exact Int.le_refl _

/-- What is in the look-back window and not walked was before the cursor of these settings. -/
theorem before_cursor {time : Int} (hWindow : now - lookbackSeconds ≤ time)
    (hBefore : time < t.since s now) :
    t.feed.cursorScope = some s.syncScope ∧ ∃ k, t.cursor = some k ∧
      time + cursorOverlapSeconds ≤ k := by
  have hPart : ¬t.fullWalk s = true := by
    intro hFull
    rw [since_of_fullWalk hFull] at hBefore
    omega
  have hScope : t.feed.cursorScope = some s.syncScope := by
    by_contra hOther
    exact hPart (decide_eq_true (.inr hOther))
  refine ⟨hScope, ?_⟩
  unfold since at hBefore
  split at hBefore
  · omega
  rename_i k hCursor
  rw [if_neg hPart] at hBefore
  refine ⟨k, ?_, by omega⟩
  unfold startCursor at hCursor
  split at hCursor
  · cases hCursor
  · exact hCursor

end TimedFeed

/-! ## A packet and the remote -/

/-- The instance lists the packet at the time, for the regions of the settings. -/
def FeedSettings.Hears (s : FeedSettings) (q : RemotePacket) (time : Int) : Prop :=
  ∃ code ∈ s.regionCodes, ∃ region, (region, time) ∈ q.listedAt ∧ (code = none ∨ code = some region)

theorem RemotePacket.listed_of_mem {q : RemotePacket} {code : Option Text} {region : Text}
    {time since stop : Int}
    (hMem : (region, time) ∈ q.listedAt) (hCode : code = none ∨ code = some region)
    (hSince : since ≤ time) (hStop : time ≤ stop) : q.listed code since stop = true :=
  any_eq_true.mpr ⟨_, hMem, decide_eq_true ⟨hCode, hSince, hStop⟩⟩

/-- The packet is served, listed at the time, as one of the channel; Beacon has a message for it if
it decrypts the channel itself (`own`), by a clock that is at most the slack behind. -/
def Remote.Serves (s : FeedSettings) (hash key : Text) (own : Prop) (start time : Int) :
    Remote → Prop
  | .unreachable => True
  | .corescope packets _ _ _ => ∃ q ∈ packets, q.hash = hash ∧ q.groupText = true ∧ q.row.isSome ∧
    s.Hears q time
  | .beacon _ messages _ packets _ _ =>
    (own → ∃ m ∈ messages key, m.row.packetHash = hash ∧ start ≤ m.sentAt ∧
      time - beaconSentAtSlackSeconds ≤ m.sentAt) ∧
    (¬own → ∃ q ∈ packets, q.hash = hash ∧ s.Hears q time)

/-- Whatever is served under the hash is this packet, and no row of it is older than `oldest`. -/
def Remote.Names (hash key : Text) (own : Prop) (oldest : Int) : Remote → Prop
  | .unreachable => True
  | .corescope packets _ _ messages =>
    (∀ q ∈ packets, ∀ r, q.row = some r → q.hash = hash → oldest ≤ r.firstSeen) ∧
      ∀ k, ∀ page ∈ (messages k).pages, ∀ r ∈ page, r.packetHash = hash → oldest ≤ r.firstSeen
  | .beacon matched messages _ packets _ _ =>
    (∀ ids, matched = some ids → (key ∈ ids ↔ own)) ∧
      (∀ k, ∀ m ∈ messages k, m.row.packetHash = hash → oldest ≤ m.row.firstSeen) ∧
      ∀ q ∈ packets, q.hash = hash → ∃ r, q.row = some r ∧ r.channelKey = some key ∧
        oldest ≤ r.firstSeen

/-! ## One sync -/

section Sync

variable {s : FeedSettings} {t : TimedFeed} {p : Poll} {scopes : Option Text × Option Text}
  {hash key : Text}
  {own had : Prop} {oldest start time : Int} {since stop : Int} {q : RemotePacket}
  {packets : List RemotePacket}

/-- A walk that does not fail and has not run out has everything on some page. -/
theorem exists_page_of_clean {α : Type} {total : Bool} {fails : Nat → Bool} {items : List α}
    {fuel : Nat} {a : α} (hFailed : (pageWalk pageLimit total fails items fuel 0).failed = false)
    (hRanOut : (pageWalk pageLimit total fails items fuel 0).ranOut = false) (ha : a ∈ items) :
    ∃ page ∈ (pageWalk pageLimit total fails items fuel 0).pages, a ∈ page := by
  rw [← mem_flatten, flatten_pageWalk (by decide) hFailed hRanOut]
  exact ha

/-- A packet feed that is walked without failures brings every packet of the window. -/
theorem exists_row_of_clean {reportsTotal : Bool} {fails : Option Text → Int × Int → Nat → Bool}
    (hClean : ∀ code ∈ s.regionCodes, ∀ slice ∈ timeSlices since stop,
      (sliceWalk packets reportsTotal fails code slice).failed = false ∧
        (sliceWalk packets reportsTotal fails code slice).ranOut = false)
    (hq : q ∈ packets) (hText : q.groupText = true) (hRow : q.row.isSome) (hHears : s.Hears q time)
    (hSince : since ≤ time) (hStop : time ≤ stop) :
    ∃ code ∈ s.regionCodes, ∃ slice ∈ timeSlices since stop,
      ∃ page ∈ (sliceWalk packets reportsTotal fails code slice).pages,
        Brings q.hash (packetPageOf page).rows := by
  obtain ⟨r, hr⟩ := Option.isSome_iff_exists.mp hRow
  obtain ⟨code, hCode, region, hListed, hRegion⟩ := hHears
  obtain ⟨slice, hSlice, hFrom, hTo⟩ := exists_mem_timeSlices hSince hStop
  obtain ⟨hFailed, hRanOut⟩ := hClean code hCode slice hSlice
  obtain ⟨page, hPage, hMem⟩ := exists_page_of_clean hFailed hRanOut
    (mem_filter.mpr ⟨hq, RemotePacket.listed_of_mem hListed hRegion hFrom hTo⟩)
  refine ⟨code, hCode, slice, hSlice, page, hPage, r, ?_, q.row_hash r hr⟩
  exact mem_filterMap.mpr ⟨q, mem_filter.mpr ⟨hMem, hText⟩, hr⟩

namespace TimedFeed

variable (s t p) in
/-- The feed when the requests begin. -/
def startFeed : Feed := (t.feed.clearOther (t.call s p)).clearInspected (t.call s p)

variable (s t p hash key own start time) in
/-- No request of the sync fails, and it walks over a time at which the packet is listed: since the
cursor, or as part of a backlog. -/
structure Reaches : Prop where
  unfailing : t.Unfailing s p
  details : own ∨ t.outOfDetails s p = false
  serves : p.remote.Serves s hash key own start time
  walked : t.since s p.now ≤ time ∨ (¬own ∧ p.remote.isBeacon = true ∧ t.startBacklog s = true)
  stop : time ≤ p.now
  window : start ≤ time
  start : p.now - lookbackSeconds ≤ start

theorem Reaches.privateSince_le (h : Reaches s t p hash key own start time) :
    t.privateSince s p.now ≤ time := by
  rcases h.walked with hSince | ⟨-, -, hBacklog⟩
  · exact privateSince_le_since.trans hSince
  · unfold privateSince
    rw [if_pos hBacklog]
    exact h.start.trans h.window

theorem tracks_corescope {reportsTotal : Bool}
    {fails : Option Text → Int × Int → Nat → Bool} {messages : Text → Walk}
    (hRemote : p.remote = .corescope packets reportsTotal fails messages) (hKey : key ∈ s.channels)
    (hNames : p.remote.Names hash key own oldest)
    (h : Feed.Tracks scopes hash oldest own had (t.startFeed s p)) :
    Feed.Tracks scopes hash oldest own (had ∨ Reaches s t p hash key own start time)
      ((t.startFeed s p).requests (t.call s p)).1 := by
  have hAnswers : (t.call s p).answers = .corescope (s.regionCodes.flatMap fun code =>
      (timeSlices (t.since s p.now) p.now).map fun slice =>
        ⟨(sliceWalk packets reportsTotal fails code slice).pages.map packetPageOf,
          (sliceWalk packets reportsTotal fails code slice).failed⟩) messages := by
    unfold call answers
    rw [hRemote]
    rfl
  rw [hRemote] at hNames
  refine (h.requests_corescope hAnswers ?_ hNames.2).mono ?_
  · intro w hw page hPage row hRow hHash
    obtain ⟨code, -, hw⟩ := mem_flatMap.mp hw
    obtain ⟨slice, -, rfl⟩ := mem_map.mp hw
    obtain ⟨served, hServed, rfl⟩ := mem_map.mp hPage
    obtain ⟨q, hq, hRow⟩ := mem_filterMap.mp hRow
    have hMem := (mem_pageWalk hServed).2 (mem_filter.mp hq).1
    exact hNames.1 q (mem_filter.mp hMem).1 row hRow ((q.row_hash row hRow).symm.trans hHash)
  · rintro (hHad | ⟨hClean, -, hServes, hWalked, hStop, -, -⟩)
    · exact .inl hHad
    · unfold Unfailing at hClean
      rw [hRemote] at hClean hServes hWalked
      have hSince : t.since s p.now ≤ time := hWalked.resolve_right fun hBacklog =>
        nomatch hBacklog.2.1
      obtain ⟨q, hq, rfl, hText, hRow, hHears⟩ := hServes
      obtain ⟨code, hCode, slice, hSlice, page, hPage, hBrings⟩ :=
        exists_row_of_clean hClean hq hText hRow hHears hSince hStop
      refine .inr ⟨ne_nil_of_mem hKey, ⟨(sliceWalk packets reportsTotal fails code slice).pages.map
        packetPageOf,
        (sliceWalk packets reportsTotal fails code slice).failed⟩, ?_, packetPageOf page, ?_,
          hBrings⟩
      · exact mem_flatMap.mpr ⟨code, hCode, mem_map_of_mem hSlice⟩
      · exact mem_map_of_mem hPage

theorem messageSince_le {sentAt : Int} (hStart : p.now - lookbackSeconds ≤ sentAt)
    (hSlack : t.since s p.now - beaconSentAtSlackSeconds ≤ sentAt) :
    t.messageSince s p.now ≤ sentAt := by
  unfold messageSince
  split
  next hFull =>
    rw [since_of_fullWalk hFull]
    exact hStart
  · exact Int.max_le.mpr ⟨hStart, hSlack⟩

end TimedFeed

/-! ### Details of a page -/

section Details

variable {matched : List Text} {detailFails : Text → Bool} {page : List RemotePacket}
  {v : Option LiveRow}

theorem mem_of_details {k : Text} (h : (privatePageOf matched detailFails page).details.get? k =
    some v) :
    ∃ q ∈ page, q.hash = k ∧ v = q.row.filter fun r => !r.channelKey.any matched.contains := by
  obtain ⟨q, hq, hPair⟩ := mem_map.mp (Table.mem_ofList h)
  cases hPair
  exact ⟨q, (mem_filter.mp hq).1, rfl, rfl⟩

theorem details_eq (hPage : ∀ q ∈ page, q.hash = hash → ∃ r, q.row = some r ∧
    r.channelKey = some key)
    (h : (privatePageOf matched detailFails page).details.get? hash = some v) :
    v = none ↔ key ∈ matched := by
  obtain ⟨q, hq, hHash, rfl⟩ := mem_of_details h
  obtain ⟨r, hr, hChannel⟩ := hPage q hq hHash
  have hAny : r.channelKey.any matched.contains = true ↔ key ∈ matched := by
    rw [hChannel]
    exact contains_iff_mem
  rw [hr, Option.filter_some, ← hAny]
  cases r.channelKey.any matched.contains with
  | true => exact ⟨fun _ => rfl, fun _ => rfl⟩
  | false => exact ⟨nofun, nofun⟩

theorem exists_details (hFails : ∀ q ∈ page, detailFails q.hash = false) {q : RemotePacket}
    (hq : q ∈ page) :
    ∃ v, (privatePageOf matched detailFails page).details.get? q.hash = some v := by
  have hKept : q ∈ page.filter fun p => !detailFails p.hash :=
    mem_filter.mpr ⟨hq, by rw [hFails q hq]; rfl⟩
  have hEntry : (q.hash, q.row.filter fun r => !r.channelKey.any matched.contains) ∈
      (page.filter fun p => !detailFails p.hash).map fun p =>
        (p.hash, p.row.filter fun r => !r.channelKey.any matched.contains) := mem_map_of_mem hKept
  exact Table.mem_keys.mp (Table.mem_keys_ofList hEntry)

end Details

/-! ### A sync with Beacon -/

namespace TimedFeed

section Beacon

variable {matched : List Text} {messages : Text → List SentMessage}
  {messageFails : Text → Nat → Bool}
  {packets : List RemotePacket} {listFails : Nat → Bool} {detailFails : Text → Bool}

variable (s t p messages messageFails) in
def messagePages (key : Text) : Walk where
  pages := (messageWalk (messages key) (messageFails key) (t.messageSince s p.now)).pages.map
    fun page => page.map (·.row)
  failed := (messageWalk (messages key) (messageFails key) (t.messageSince s p.now)).failed

variable (s t p matched packets listFails detailFails) in
def privatePages : List PrivatePage :=
  (listingWalk s.regionCodes packets listFails (t.privateSince s p.now) p.now).pages.map
    (privatePageOf matched detailFails)

theorem mem_privatePages {page : PrivatePage}
    (h : page ∈ privatePages s t p matched packets listFails detailFails) :
    ∃ served, page = privatePageOf matched detailFails served ∧ served ≠ [] ∧ served ⊆ packets := by
  obtain ⟨served, hServed, rfl⟩ := mem_map.mp h
  obtain ⟨hSome, hSub⟩ := mem_pageWalk hServed
  exact ⟨served, rfl, hSome, fun q hq => (mem_filter.mp (hSub hq)).1⟩

variable (hRemote : p.remote = .beacon (some matched) messages messageFails packets listFails
  detailFails)

include hRemote

theorem answers_beacon :
    (t.call s p).answers = .beacon (some matched) (messagePages s t p messages messageFails)
    (privatePages s t p matched packets listFails detailFails) := by
  unfold call answers
  rw [hRemote]
  rfl

/-- The messages have the packet if Beacon decrypts its channel. -/
theorem Reaches.message (hReaches : Reaches s t p hash key own start time) (hKey : key ∈ s.channels)
    (hOwn : own) (hMatched : key ∈ matched) :
    ∃ page ∈ (messagePages s t p messages messageFails key).pages, Brings hash page := by
  have hClean := hReaches.unfailing
  have hServes := hReaches.serves
  have hSince := hReaches.walked.resolve_right fun hBacklog => hBacklog.1 hOwn
  unfold Unfailing at hClean
  rw [hRemote] at hClean hServes
  obtain ⟨m, hm, hHash, hStart, hSlack⟩ := hServes.1 hOwn
  obtain ⟨hFailed, hRanOut⟩ := hClean.1 key hKey hMatched
  have hSent : t.messageSince s p.now ≤ m.sentAt :=
    messageSince_le (hReaches.start.trans hStart) (by omega)
  obtain ⟨page, hPage, hm⟩ := exists_page_of_clean hFailed hRanOut
    (mem_filter.mpr ⟨hm, decide_eq_true hSent⟩)
  exact ⟨page.map (·.row), mem_map_of_mem hPage, m.row, mem_map_of_mem hm, hHash⟩

/-- The list has the packet otherwise, and its details are read. -/
theorem Reaches.detail (hReaches : Reaches s t p hash key own start time) (hKey : key ∈ s.channels)
    (hOwn : ¬own) (hMatched : key ∉ matched)
    (hPackets : ∀ q ∈ packets, q.hash = hash → ∃ r, q.row = some r ∧ r.channelKey = some key) :
    s.channels.all matched.contains = false ∧ t.nextBacklog s p = false ∧
      ∃ page ∈ privatePages s t p matched packets listFails detailFails, page.Brings hash := by
  have hClean := hReaches.unfailing
  have hServes := hReaches.serves
  have hBacklog : t.nextBacklog s p = false := by
    have hDetails := hReaches.details.resolve_left hOwn
    unfold outOfDetails at hDetails
    rw [hRemote] at hDetails
    exact hDetails
  unfold Unfailing at hClean
  rw [hRemote] at hClean hServes
  have hPrivate : s.channels.all matched.contains = false :=
    all_eq_false.mpr ⟨key, hKey, fun hMem => hMatched (contains_iff_mem.mp hMem)⟩
  obtain ⟨hFailed, hRanOut, hDetails⟩ := hClean.2 hPrivate
  obtain ⟨q, hq, rfl, hHears⟩ := hServes.2 hOwn
  obtain ⟨code, hCode, region, hAt, hRegion⟩ := hHears
  have hListed := RemotePacket.listed_of_mem hAt hRegion hReaches.privateSince_le hReaches.stop
  obtain ⟨page, hPage, hListed⟩ := exists_page_of_clean hFailed hRanOut
    (mem_filter.mpr ⟨hq, any_eq_true.mpr ⟨code, hCode, hListed⟩⟩)
  have hSub : page ⊆ packets := fun q' hq' => (mem_filter.mp ((mem_pageWalk hPage).2 hq')).1
  have hFound : ∃ v, (privatePageOf matched detailFails page).details.get? q.hash = some v :=
    exists_details (fun q' hq' => hDetails q' (hSub hq')) hListed
  obtain ⟨v, hDetail⟩ := hFound
  refine ⟨hPrivate, hBacklog, privatePageOf matched detailFails page, mem_map_of_mem hPage,
    ⟨_, mem_map_of_mem hListed, rfl⟩, ?_⟩
  cases v with
  | some row => exact ⟨row, hDetail⟩
  | none =>
    exact absurd ((details_eq (fun q' hq' => hPackets q' (hSub hq')) hDetail).mp rfl) hMatched

/-- A walk that has not run out of budget leaves no backlog. -/
theorem exhausted_of_backlog (hSome : s.channels ≠ [])
    (hPrivate : s.channels.all matched.contains = false) (hBacklog : t.nextBacklog s p = false) :
    Feed.beaconExhausted (t.call s p) maxDetailFetchesPerSync
      (privatePages s t p matched packets listFails detailFails)
      (Feed.walkAll (t.call s p) (((t.call s p).channels.filter matched.contains).map
        (messagePages s t p messages messageFails)) (t.startFeed s p)).1 = false := by
  unfold nextBacklog at hBacklog
  dsimp only at hBacklog
  rw [answers_beacon hRemote] at hBacklog
  dsimp only at hBacklog
  have hChannels : (t.call s p).channels = s.channels := rfl
  rw [hChannels, if_neg hSome, if_neg (by rw [hPrivate]; exact Bool.false_ne_true)] at hBacklog
  exact hBacklog

theorem tracks_beacon (hNamed : hash ≠ []) (hKey : key ∈ s.channels)
    (hNames : p.remote.Names hash key own oldest)
    (h : Feed.Tracks scopes hash oldest own had (t.startFeed s p)) :
    Feed.Tracks scopes hash oldest own
      (had ∨ (((t.startFeed s p).requests (t.call s p)).2 = true ∧
        Reaches s t p hash key own start time))
      ((t.startFeed s p).requests (t.call s p)).1 := by
  rw [hRemote] at hNames
  obtain ⟨hOwn, hMessages, hPackets⟩ := hNames
  have hMatched := hOwn matched rfl
  have hOnly : ∀ q ∈ packets, q.hash = hash → ∃ r, q.row = some r ∧ r.channelKey = some key := by
    intro q hq hHash
    obtain ⟨r, hr, hChannel, -⟩ := hPackets q hq hHash
    exact ⟨r, hr, hChannel⟩
  refine (h.requests_beacon (answers_beacon hRemote) hNamed ?_ ?_).mono ?_
  · intro key page hPage row hRow hHash
    obtain ⟨sent, hSent, rfl⟩ := mem_map.mp hPage
    obtain ⟨m, hm, rfl⟩ := mem_map.mp hRow
    exact hMessages key m (mem_filter.mp ((mem_pageWalk hSent).2 hm)).1 hHash
  · intro page hPage
    obtain ⟨served, rfl, hSome, hSub⟩ := mem_privatePages hPage
    refine ⟨?_, ?_, fun hNil => hSome (map_eq_nil_iff.mp hNil)⟩
    · intro k row hDetail
      obtain ⟨q, hq, rfl, hRow⟩ := mem_of_details hDetail
      have hOpened := (Option.filter_eq_some_iff.mp hRow.symm).1
      refine ⟨q.row_hash row hOpened, ?_⟩
      intro hHash
      obtain ⟨r, hr, -, hOld⟩ := hPackets q (hSub hq) hHash
      cases hOpened.symm.trans hr
      exact hOld
    · intro hDetail
      exact hMatched.mp ((details_eq (fun q hq => hOnly q (hSub hq)) hDetail).mp rfl)
  · rintro (hHad | ⟨hDone, hReaches⟩)
    · exact .inl hHad
    · refine .inr ⟨hDone, ?_⟩
      by_cases hHere : own
      · have hKnown := hMatched.mpr hHere
        exact .inl ⟨key, hKey, hKnown, hReaches.message hRemote hKey hHere hKnown⟩
      have hUnknown : key ∉ matched := fun hMem => hHere (hMatched.mp hMem)
      have hSome : s.channels ≠ [] := ne_nil_of_mem hKey
      obtain ⟨hPrivate, hBacklog, hPage⟩ := hReaches.detail hRemote hKey hHere hUnknown hOnly
      exact .inr ⟨hHere, hSome, hPrivate, exhausted_of_backlog hRemote hSome hPrivate hBacklog,
        hPage⟩

end Beacon

/-- Whatever a sync does, it keeps track of the packet, and brings it when it reaches it. -/
theorem tracks_requests (hNamed : hash ≠ []) (hKey : key ∈ s.channels)
    (hNames : p.remote.Names hash key own oldest)
    (h : Feed.Tracks scopes hash oldest own had (t.startFeed s p)) :
    Feed.Tracks scopes hash oldest own
      (had ∨ (((t.startFeed s p).requests (t.call s p)).2 = true ∧
        Reaches s t p hash key own start time))
      ((t.startFeed s p).requests (t.call s p)).1 := by
  have hSome : (t.call s p).channels ≠ [] := ne_nil_of_mem hKey
  match hRemote : p.remote with
  | .unreachable | .beacon none _ _ _ _ _ =>
    have hRequests : (t.startFeed s p).requests (t.call s p) = (t.startFeed s p, false) := by
      unfold Feed.requests call answers
      rw [hRemote]
      exact if_neg hSome
    rw [hRequests]
    exact h.mono fun hHad => hHad.resolve_right fun hDone => nomatch hDone.1
  | .corescope _ _ _ _ =>
    exact (tracks_corescope hRemote hKey hNames h).mono fun hHad => hHad.imp id And.right
  | .beacon (some _) _ _ _ _ _ => exact tracks_beacon hRemote hNamed hKey hNames h

end TimedFeed

end Sync

end RemoteTerm.LiveFeed
