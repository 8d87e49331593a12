import RemoteTerm.LiveFeed.Windows

/-!
# One packet through a sync

`Feed.Tracks` follows a packet by its hash through everything that a sync does to the mirror and
to what is remembered of inspected packets. Each write, page and walk keeps it, and adds to what
it promises: that the packet is in the mirror once a page has brought it (`Tracks.requests`).
-/

namespace RemoteTerm.LiveFeed

open Foundation List

/-! ## One packet through the writes -/

/-- A row of the packet is among these. -/
abbrev Brings (hash : Text) (rows : List LiveRow) : Prop := ∃ row ∈ rows, row.packetHash = hash

/-- No row of the packet among these was first seen before `oldest`. -/
abbrev NoneOlder (hash : Text) (oldest : Int) (rows : List LiveRow) : Prop :=
  ∀ row ∈ rows, row.packetHash = hash → oldest ≤ row.firstSeen

/-- The page lists the packet, and its details open it. -/
def PrivatePage.Brings (hash : Text) (page : PrivatePage) : Prop :=
  (∃ summary ∈ page.summaries, summary.packetHash = hash) ∧ ∃ row,
    page.details.get? hash = some (some row)

/-- The details of the page are those of its packets, and this one is not closed unless the
instance decrypts its channel itself. -/
structure PrivatePage.Faithful (hash : Text) (oldest : Int) (own : Prop) (page : PrivatePage) :
    Prop where
  opened : ∀ k row, page.details.get? k = some (some row) → row.packetHash = k ∧
    (k = hash → oldest ≤ row.firstSeen)
  closed : page.details.get? hash = some none → own
  nonempty : page.summaries ≠ []

namespace Feed

/-- What is known of the packet `hash`, while the scopes stay as they are: its row in the mirror is
not older than `oldest`, and is there if it was to be; what is remembered of inspected packets is
under their own hashes, and this one does not count as foreign unless its channel is one that the
instance decrypts. -/
structure Tracks (scopes : Option Text × Option Text) (hash : Text) (oldest : Int) (own had : Prop)
    (feed : Feed) : Prop where
  scopes : (feed.feedScope, feed.cursorScope) = scopes
  mirror : ∀ row, feed.mirror.get? hash = some row → oldest ≤ row.row.firstSeen
  present : had → hash ∈ feed.mirror.keys
  inspected : ∀ k f, feed.inspected.get? k = some (some f) →
    f.row.packetHash = k ∧ (k = hash → oldest ≤ f.row.firstSeen)
  barred : feed.inspected.get? hash = some none → own

variable {scopes : Option Text × Option Text} {hash : Text} {oldest : Int} {own had : Prop}
  {feed : Feed} {c : SyncCall}

theorem Tracks.mono {had' : Prop} (h : Tracks scopes hash oldest own had feed)
    (hMono : had' → had) :
    Tracks scopes hash oldest own had' feed :=
  { h with present := fun hHad => h.present (hMono hHad) }

theorem Tracks.full (h : Tracks scopes hash oldest own had feed) :
    Tracks scopes hash oldest own (hash ∈ feed.mirror.keys) feed :=
  { h with present := id }

variable {m : Mirror} {f : FetchedRow}

section

variable (h : Tracks scopes hash oldest own had { feed with mirror := m })

include h

theorem Tracks.write (hRow : f.row.packetHash = hash → oldest ≤ f.row.firstSeen) :
    Tracks scopes hash oldest own (had ∨ f.row.packetHash = hash)
      { feed with mirror := m.write c.now f } := by
  obtain ⟨written, hWrite, hSeen⟩ : ∃ written, m.write c.now f = m.set f.row.packetHash written ∧
      (f.row.packetHash = hash → oldest ≤ written.row.firstSeen) := by
    unfold Mirror.write
    split
    · exact ⟨_, rfl, hRow⟩
    next old hOld => exact ⟨_, rfl, fun hSame => le_min (h.mirror old (hSame ▸ hOld)) (hRow hSame)⟩
  rw [hWrite]
  refine ⟨h.scopes, fun row hGet => ?_, fun hHad => ?_, h.inspected, h.barred⟩
  · exact Table.forall_set (P := fun k row => k = hash → oldest ≤ row.row.firstSeen)
      (fun k row hk hSame => h.mirror row (hSame ▸ hk)) hSeen hash row hGet rfl
  · exact Table.mem_keys_set.mpr (hHad.symm.imp Eq.symm h.present)

/-- A row that is not written again is there already. -/
theorem Tracks.upsertRows {batch : List FetchedRow}
    (hRows : ∀ f ∈ batch, f.row.packetHash = hash → oldest ≤ f.row.firstSeen) :
    Tracks scopes hash oldest own (had ∨ ∃ f ∈ batch, f.row.packetHash = hash)
      { feed with mirror := m.upsertRows c.now batch } := by
  have hWritten : Tracks scopes hash oldest own
      (hash ∈ m.keys ∨ ∃ f ∈ batch.filter m.moved, f.row.packetHash = hash)
      { feed with mirror := m.upsertRows c.now batch } :=
    foldl_gathers (I := fun had m => Tracks scopes hash oldest own had { feed with mirror := m })
      Tracks.mono
      (fun f hf had m hm => hm.write (hRows f (mem_filter.mp hf).1)) h.full
  refine hWritten.mono ?_
  rintro (hHad | ⟨f, hf, hHash⟩)
  · exact .inl (h.present hHad)
  · cases hMoved : m.moved f with
    | true => exact .inr ⟨f, mem_filter.mpr ⟨hf, hMoved⟩, hHash⟩
    | false =>
      unfold Mirror.moved at hMoved
      split at hMoved
      · cases hMoved
      next current hCurrent => exact .inl (Table.mem_keys.mpr ⟨current, hHash ▸ hCurrent⟩)

end

section

variable (h : Tracks scopes hash oldest own had feed)

include h

theorem Tracks.upsert {rows : List FetchedRow}
    (hRows : ∀ f ∈ rows, f.row.packetHash = hash → oldest ≤ f.row.firstSeen) :
    Tracks scopes hash oldest own (had ∨ ∃ f ∈ rows, f.row.packetHash = hash)
      (feed.upsert c rows) := by
  have hSlices : (slices rows 0 upsertBatch).flatten = rows := flatten_slices rows 0 (by decide)
  have hBatches : Tracks scopes hash oldest own
      (had ∨ ∃ batch ∈ slices rows 0 upsertBatch, ∃ f ∈ batch, f.row.packetHash = hash)
        (feed.upsert c rows) := by
    refine foldl_gathers (I := fun had m =>
      Tracks scopes hash oldest own had { feed with mirror := m }) Tracks.mono ?_ h
    intro batch hBatch had m hm
    refine hm.upsertRows fun f hf => hRows f ?_
    rw [← hSlices]
    exact mem_flatten.mpr ⟨batch, hBatch, hf⟩
  refine hBatches.mono (Or.imp_right ?_)
  rintro ⟨f, hf, hHash⟩
  rw [← hSlices] at hf
  obtain ⟨batch, hBatch, hf⟩ := mem_flatten.mp hf
  exact ⟨batch, hBatch, f, hf, hHash⟩

theorem Tracks.upsert_fetched {rows : List LiveRow} (hRows : NoneOlder hash oldest rows) :
    Tracks scopes hash oldest own (had ∨ Brings hash rows)
      (feed.upsert c (rows.map (fetched c))) := by
  have hFetched : ∀ f ∈ rows.map (fetched c), f.row.packetHash = hash →
      oldest ≤ f.row.firstSeen := by
    intro f hf
    obtain ⟨row, hRow, rfl⟩ := mem_map.mp hf
    exact hRows row hRow
  refine (h.upsert hFetched).mono (Or.imp_right ?_)
  rintro ⟨row, hRow, hHash⟩
  exact ⟨_, mem_map_of_mem hRow, hHash⟩

theorem Tracks.walk {w : Walk} (hRows : ∀ page ∈ w.pages, NoneOlder hash oldest page) :
    Tracks scopes hash oldest own (had ∨ ∃ page ∈ w.pages, Brings hash page) (feed.walk c w) := by
  refine foldl_gathers (I := Tracks scopes hash oldest own) Tracks.mono ?_ h
  intro page hPage had feed hFeed
  exact hFeed.upsert_fetched (hRows page hPage)

theorem Tracks.walkAll {ws : List Walk}
    (hRows : ∀ w ∈ ws, ∀ page ∈ w.pages, NoneOlder hash oldest page) : Tracks scopes hash oldest own
      (had ∨ ((walkAll c ws feed).2 = true ∧ ∃ w ∈ ws, ∃ page ∈ w.pages, Brings hash page))
      (walkAll c ws feed).1 := by
  induction ws generalizing feed had with
  | nil => exact h.mono fun hHad => hHad.resolve_right fun ⟨_, w, hw, _⟩ => not_mem_nil hw
  | cons w ws ih =>
    rw [forall_mem_cons] at hRows
    have hFirst := h.walk (c := c) hRows.1
    unfold Feed.walkAll
    split
    · exact hFirst.mono (Or.imp_right fun hDone => nomatch hDone.1)
    · refine (ih hFirst hRows.2).mono ?_
      rintro (hHad | ⟨hDone, w', hw', hPage⟩)
      · exact .inl (.inl hHad)
      · rcases mem_cons.mp hw' with rfl | hw'
        · exact .inl (.inr hPage)
        · exact .inr ⟨hDone, w', hw', hPage⟩

end

/-! ### Packet feed -/

/-- A hash that was seen before, or is in the page, has been seen; and if it is new, its row is
among the new ones. -/
theorem mem_unseen {seen : List Text} {rows : List LiveRow} :
    (hash ∈ (unseen seen rows).2 ↔ hash ∈ seen ∨ ∃ row ∈ rows, row.packetHash = hash) ∧
      ((∃ row ∈ rows, row.packetHash = hash) → hash ∈ seen ∨ ∃ row ∈ (unseen seen rows).1,
        row.packetHash = hash) ∧
      (unseen seen rows).1 ⊆ rows := by
  induction rows generalizing seen with
  | nil => simp [unseen]
  | cons row rows ih =>
    have hCons : (∃ r ∈ row :: rows, r.packetHash = hash) ↔
        row.packetHash = hash ∨ ∃ r ∈ rows, r.packetHash = hash := by
      simp only [mem_cons, exists_eq_or_imp]
    rw [hCons]
    unfold unseen
    split
    next hSeen =>
      obtain ⟨hIff, hNew, hSub⟩ := @ih seen
      have hMem : row.packetHash = hash → hash ∈ seen := fun h => h ▸ contains_iff_mem.mp hSeen
      refine ⟨?_, ?_, fun r hr => mem_cons_of_mem row (hSub hr)⟩
      · rw [hIff, ← or_assoc, or_iff_left_of_imp hMem]
      · exact fun h => h.elim (fun h => .inl (hMem h)) hNew
    · obtain ⟨hIff, hNew, hSub⟩ := @ih (seen ++ [row.packetHash])
      refine ⟨?_, ?_, cons_subset_cons _ hSub⟩
      · rw [hIff, mem_append, mem_singleton, or_assoc, eq_comm]
      · rintro (h | h)
        · exact .inr ⟨row, mem_cons_self, h⟩
        · rcases hNew h with h | ⟨r, hr, h⟩
          · rcases mem_append.mp h with h | h
            · exact .inl h
            · exact .inr ⟨row, mem_cons_self, (mem_singleton.mp h).symm⟩
          · exact .inr ⟨r, mem_cons_of_mem row hr, h⟩

/-- The hashes that this sync has seen are in the mirror. -/
theorem Tracks.packetPage {r : PacketResult} (h : Tracks scopes hash oldest own had r.feed)
    (hSeen : hash ∈ r.seen → hash ∈ r.feed.mirror.keys) {page : PacketPage}
    (hRows : NoneOlder hash oldest page.rows) :
    Tracks scopes hash oldest own (had ∨ Brings hash page.rows) (packetPage c r page).feed ∧
      (hash ∈ (Feed.packetPage c r page).seen →
        hash ∈ (Feed.packetPage c r page).feed.mirror.keys) := by
  obtain ⟨hIff, hNew, hSub⟩ := @mem_unseen hash r.seen page.rows
  have hStored : Tracks scopes hash oldest own (hash ∈ r.feed.mirror.keys ∨
      Brings hash (unseen r.seen page.rows).1) (Feed.packetPage c r page).feed :=
    h.full.upsert_fetched fun row hRow => hRows row (hSub hRow)
  have hPage : Brings hash page.rows → hash ∈ r.feed.mirror.keys ∨
      Brings hash (unseen r.seen page.rows).1 := by
    intro hRow
    exact (hNew hRow).imp_left hSeen
  constructor
  · refine hStored.mono ?_
    rintro (hHad | hRow)
    · exact .inl (h.present hHad)
    · exact hPage hRow
  · intro hMem
    refine hStored.present ?_
    rcases hIff.mp hMem with hBefore | hRow
    · exact .inl (hSeen hBefore)
    · exact hPage hRow

variable {packets : List PacketWalk}

theorem Tracks.syncPackets (h : Tracks scopes hash oldest own had feed)
    (hRows : ∀ w ∈ packets, ∀ page ∈ w.pages, NoneOlder hash oldest page.rows) :
    Tracks scopes hash oldest own
      (had ∨ ∃ w ∈ packets, ∃ page ∈ w.pages, Brings hash page.rows)
      (syncPackets c feed packets).feed := by
  have hMono : ∀ {p q : Prop} {r : PacketResult},
      Tracks scopes hash oldest own p r.feed ∧
        (hash ∈ r.seen → hash ∈ r.feed.mirror.keys) → (q → p) →
        Tracks scopes hash oldest own q r.feed ∧ (hash ∈ r.seen → hash ∈ r.feed.mirror.keys) :=
    fun hr hLess => ⟨hr.1.mono hLess, hr.2⟩
  refine (foldl_gathers (I := fun had (r : PacketResult) =>
    Tracks scopes hash oldest own had r.feed ∧ (hash ∈ r.seen → hash ∈ r.feed.mirror.keys))
    hMono ?_ ⟨h, fun hMem => absurd hMem not_mem_nil⟩).1
  intro w hw had r hr
  refine foldl_gathers (I := fun had (r : PacketResult) =>
    Tracks scopes hash oldest own had r.feed ∧
      (hash ∈ r.seen → hash ∈ r.feed.mirror.keys)) hMono ?_ hr
  intro page hPage had r hr
  exact hr.1.packetPage hr.2 (hRows w hw page hPage)

/-! ### Packets of a Beacon instance -/

variable {k : Text} {row : Option FetchedRow}

theorem Tracks.rememberInspected (h : Tracks scopes hash oldest own had feed)
    (hRow : ∀ f, row = some f → f.row.packetHash = k ∧ (k = hash → oldest ≤ f.row.firstSeen))
    (hForeign : row = none → k = hash → own) :
    Tracks scopes hash oldest own had (feed.rememberInspected k row) := by
  obtain ⟨hMirror, hFeedScope, hCursorScope⟩ := rememberInspected_frame feed k row
  refine ⟨?_, ?_, ?_, ?_, ?_⟩
  · rw [hFeedScope, hCursorScope]
    exact h.scopes
  · rw [hMirror]
    exact h.mirror
  · rw [hMirror]
    exact h.present
  · intro k' f hGet
    rcases get?_rememberInspected hGet with ⟨rfl, hNew⟩ | hOld
    · exact hRow f hNew.symm
    · exact h.inspected k' f hOld
  · intro hGet
    rcases get?_rememberInspected hGet with ⟨hSame, hNew⟩ | hOld
    · exact hForeign hNew.symm hSame.symm
    · exact h.barred hOld

/-- The same with the rows that are to be written next. -/
structure Gathers (scopes : Option Text × Option Text) (hash : Text) (oldest : Int) (own had : Prop)
    (feed : Feed)
    (rows : List FetchedRow) : Prop where
  feed : Tracks scopes hash oldest own had feed
  rows : ∀ f ∈ rows, f.row.packetHash = hash → oldest ≤ f.row.firstSeen

variable {rows : List FetchedRow}

/-- A packet is remembered, and its row is to be written if there is one. -/
theorem Gathers.remember (h : Gathers scopes hash oldest own had feed rows)
    (hRow : ∀ f, row = some f → f.row.packetHash = k ∧ (k = hash → oldest ≤ f.row.firstSeen))
    (hForeign : row = none → k = hash → own) :
    Gathers scopes hash oldest own had (feed.rememberInspected k row) (rows ++ row.toList) := by
  refine ⟨h.feed.rememberInspected hRow hForeign, ?_⟩
  intro f hf hHash
  rcases mem_append.mp hf with hf | hf
  · exact h.rows f hf hHash
  · obtain ⟨hSame, hOld⟩ := hRow f (Option.mem_toList.mp hf)
    exact hOld (hSame.symm.trans hHash)

theorem Gathers.refresh (h : Gathers scopes hash oldest own had feed rows) {summary : Summary}
    (hKnown : feed.inspected.get? summary.packetHash = some (some f)) :
    Gathers scopes hash oldest own had (feed.rememberInspected summary.packetHash
      (some (refreshed f summary)))
      (rows ++ [refreshed f summary]) := by
  apply h.remember
  · rintro _ ⟨⟩
    exact h.feed.inspected _ f hKnown
  · exact fun hNone => absurd hNone (Option.some_ne_none _)

variable {scan : PageScan}

theorem Gathers.scanSummaries (h : Gathers scopes hash oldest own had scan.feed scan.rows)
    (budget : Nat) (summaries : List Summary) :
    Gathers scopes hash oldest own had (scanSummaries budget summaries scan).feed
      (Feed.scanSummaries budget summaries scan).rows := by
  fun_induction Feed.scanSummaries budget summaries scan with
  | case1 scan => exact h
  | case2 summary rest scan hEmpty ih => exact ih h
  | case3 summary rest scan hFull hForeign ih => exact ih h
  | case4 summary rest scan hFull f hKnown ih => exact ih (h.refresh hKnown)
  | case5 summary rest scan hFull hUnknown hSpent => exact h
  | case6 summary rest scan hFull hUnknown hLeft ih => exact ih h

/-- The page has a row of the packet, or will look into it. -/
def PageScan.Knows (hash : Text) (scan : PageScan) : Prop :=
  (∃ f ∈ scan.rows, f.row.packetHash = hash) ∨ hash ∈ scan.toFetch

theorem PageScan.Knows.scanSummaries (h : scan.Knows hash) (budget : Nat)
    (summaries : List Summary) : (scanSummaries budget summaries scan).Knows hash := by
  fun_induction Feed.scanSummaries budget summaries scan with
  | case1 scan => exact h
  | case2 summary rest scan hEmpty ih => exact ih h
  | case3 summary rest scan hFull hForeign ih => exact ih h
  | case4 summary rest scan hFull f hKnown ih =>
    refine ih (h.imp ?_ id)
    rintro ⟨f', hf', hHash⟩
    exact ⟨f', mem_append_left _ hf', hHash⟩
  | case5 summary rest scan hFull hUnknown hSpent => exact h
  | case6 summary rest scan hFull hUnknown hLeft ih => exact ih (h.imp id (mem_append_left _))

variable {budget : Nat}

/-- A listed packet is known, unless its channel is not looked for here. -/
theorem Gathers.knows_scanSummaries (hNamed : hash ≠ [])
    (h : Gathers scopes hash oldest own had scan.feed scan.rows) {summaries : List Summary}
    (hBudget : (Feed.scanSummaries budget summaries scan).exhausted = false)
    (hListed : ∃ summary ∈ summaries, summary.packetHash = hash) :
    (Feed.scanSummaries budget summaries scan).Knows hash ∨ own := by
  obtain ⟨listed, hListed, hHash⟩ := hListed
  fun_induction Feed.scanSummaries budget summaries scan with
  | case1 scan => exact absurd hListed not_mem_nil
  | case2 summary rest scan hEmpty ih =>
    rcases mem_cons.mp hListed with rfl | hRest
    · exact absurd (hHash.symm.trans hEmpty) hNamed
    · exact ih h hBudget hRest
  | case3 summary rest scan hFull hForeign ih =>
    rcases mem_cons.mp hListed with rfl | hRest
    · exact .inr (h.feed.barred (hHash ▸ hForeign))
    · exact ih h hBudget hRest
  | case4 summary rest scan hFull f hKnown ih =>
    rcases mem_cons.mp hListed with rfl | hRest
    · refine .inl (PageScan.Knows.scanSummaries (.inl ⟨refreshed f listed, ?_, ?_⟩) budget rest)
      · exact mem_append_right _ (mem_singleton.mpr rfl)
      · exact (h.feed.inspected _ f hKnown).1.trans hHash
    · exact ih (h.refresh hKnown) hBudget hRest
  | case5 summary rest scan hFull hUnknown hSpent => cases hBudget
  | case6 summary rest scan hFull hUnknown hLeft ih =>
    rcases mem_cons.mp hListed with rfl | hRest
    · refine .inl (PageScan.Knows.scanSummaries (.inr ?_) budget rest)
      exact mem_append_right _ (mem_singleton.mpr hHash.symm)
    · exact ih h hBudget hRest

theorem Gathers.fetchDetails {details : Table Text (Option LiveRow)}
    (h : Gathers scopes hash oldest own had feed rows)
    (hDetails : ∀ k row, details.get? k = some (some row) → row.packetHash = k ∧
      (k = hash → oldest ≤ row.firstSeen))
    (hForeign : details.get? hash = some none → own) (toFetch : List Text) :
    Gathers scopes hash oldest own had (fetchDetails c details toFetch (feed, rows)).1
        (Feed.fetchDetails c details toFetch (feed, rows)).2 ∧
      (((∃ f ∈ rows, f.row.packetHash = hash) ∨
        (hash ∈ toFetch ∧ ∃ row, details.get? hash = some (some row))) →
        ∃ f ∈ (Feed.fetchDetails c details toFetch (feed, rows)).2, f.row.packetHash = hash) := by
  induction toFetch generalizing feed rows with
  | nil => exact ⟨h, fun hKnown => hKnown.resolve_right fun hNone => not_mem_nil hNone.1⟩
  | cons k rest ih =>
    unfold Feed.fetchDetails
    split
    next hFailed =>
      obtain ⟨hNext, hFound⟩ := ih h
      refine ⟨hNext, fun hKnown => hFound (hKnown.imp id ?_)⟩
      rintro ⟨hMem, row, hRow⟩
      rcases mem_cons.mp hMem with rfl | hMem
      · cases hRow.symm.trans hFailed
      · exact ⟨hMem, row, hRow⟩
    next row hRow =>
      have hOpened : ∀ f, row.map (fetched c) = some f →
          f.row.packetHash = k ∧ (k = hash → oldest ≤ f.row.firstSeen) := by
        intro f hf
        obtain ⟨live, rfl, rfl⟩ := Option.map_eq_some_iff.mp hf
        exact hDetails k live hRow
      have hClosed : row.map (fetched c) = none → k = hash → own := by
        intro hNone hSame
        rw [Option.map_eq_none_iff.mp hNone, hSame] at hRow
        exact hForeign hRow
      obtain ⟨hNext, hFound⟩ := ih (h.remember hOpened hClosed)
      refine ⟨hNext, fun hKnown => hFound ?_⟩
      rcases hKnown with ⟨f, hf, hSame⟩ | ⟨hMem, live, hLive⟩
      · exact .inl ⟨f, mem_append_left _ hf, hSame⟩
      rcases mem_cons.mp hMem with rfl | hMem
      · cases hRow.symm.trans hLive
        exact .inl ⟨_, mem_append_right _ mem_cons_self, (hOpened _ rfl).1⟩
      · exact .inr ⟨hMem, live, hLive⟩

theorem Tracks.syncBeaconPrivate (hNamed : hash ≠ []) {pages : List PrivatePage}
    (h : Tracks scopes hash oldest own had feed)
    (hPages : ∀ page ∈ pages, page.Faithful hash oldest own) :
    Tracks scopes hash oldest own
      (had ∨ (¬own ∧ beaconExhausted c budget pages feed = false ∧ ∃ page ∈ pages,
        page.Brings hash))
      (syncBeaconPrivate c budget pages feed) := by
  induction pages generalizing budget feed had with
  | nil => exact h.mono fun hHad => hHad.resolve_right fun ⟨_, _, page, hPage, _⟩ =>
    not_mem_nil hPage
  | cons page pages ih =>
    have hStart : Gathers scopes hash oldest own had (PageScan.mk feed [] [] false).feed [] :=
      ⟨h, fun f hf => absurd hf not_mem_nil⟩
    have hScan := hStart.scanSummaries budget page.summaries
    rw [forall_mem_cons] at hPages
    obtain ⟨⟨hOpened, hClosed, hSome⟩, hPages⟩ := hPages
    obtain ⟨hFetch, hFetched⟩ := hScan.fetchDetails (c := c) hOpened hClosed
      (Feed.scanSummaries budget page.summaries ⟨feed, [], [], false⟩).toFetch
    have hStored := hFetch.feed.upsert (c := c) hFetch.rows
    unfold Feed.syncBeaconPrivate Feed.beaconExhausted
    dsimp only
    by_cases hSpent : (Feed.scanSummaries budget page.summaries ⟨feed, [], [], false⟩).exhausted =
      true
    · rw [if_pos hSpent, if_pos (show _ ∨ _ from .inl hSpent)]
      exact hStored.mono (Or.imp_right fun hDone => nomatch hDone.2.1)
    · rw [if_neg hSpent, if_neg hSome, if_neg (not_or.mpr ⟨hSpent, hSome⟩)]
      refine (ih hStored hPages).mono ?_
      rintro (hHad | ⟨hOther, hLeft, page', hPage', hBrings⟩)
      · exact .inl (.inl hHad)
      · rcases mem_cons.mp hPage' with rfl | hPage'
        · refine .inl (.inr (hFetched ?_))
          have hKnows := (hStart.knows_scanSummaries hNamed
            (Bool.eq_false_iff.mpr hSpent) hBrings.1).resolve_right hOther
          exact hKnows.imp id fun hMem => ⟨hMem, hBrings.2⟩
        · exact .inr ⟨hOther, hLeft, page', hPage', hBrings⟩

/-! ### The requests of a sync -/

variable {messages : Text → Walk}

theorem Tracks.requests_corescope (hAnswers : c.answers = .corescope packets messages)
    (h : Tracks scopes hash oldest own had feed)
    (hPackets : ∀ w ∈ packets, ∀ page ∈ w.pages, NoneOlder hash oldest page.rows)
    (hMessages : ∀ key, ∀ page ∈ (messages key).pages, NoneOlder hash oldest page) :
    Tracks scopes hash oldest own
      (had ∨ (c.channels ≠ [] ∧ ∃ w ∈ packets, ∃ page ∈ w.pages, Brings hash page.rows))
      (requests c feed).1 := by
  have hStored := h.syncPackets (c := c) hPackets
  unfold Feed.requests
  rw [hAnswers]
  split
  next hNone => exact h.mono fun hHad => hHad.resolve_right fun hSome => hSome.1 hNone
  dsimp only
  split
  · refine (hStored.walkAll ?_).mono ?_
    · intro w hw page hPage
      obtain ⟨key, -, rfl⟩ := mem_map.mp hw
      exact hMessages key page hPage
    · exact fun hHad => .inl (hHad.imp_right And.right)
  · exact hStored.mono (Or.imp_right And.right)

/-- Beacon brings the messages of the channels that it decrypts, and the packets of the others. -/
theorem Tracks.requests_beacon {matched : List Text} {packets : List PrivatePage}
    (hAnswers : c.answers = .beacon (some matched) messages packets) (hNamed : hash ≠ [])
    (h : Tracks scopes hash oldest own had feed)
    (hMessages : ∀ key, ∀ page ∈ (messages key).pages, NoneOlder hash oldest page)
    (hPages : ∀ page ∈ packets, page.Faithful hash oldest own) : Tracks scopes hash oldest own
      (had ∨ ((requests c feed).2 = true ∧
        ((∃ key ∈ c.channels, key ∈ matched ∧ ∃ page ∈ (messages key).pages, Brings hash page) ∨
          (¬own ∧ c.channels ≠ [] ∧ c.channels.all matched.contains = false ∧
            beaconExhausted c maxDetailFetchesPerSync packets
              (Feed.walkAll c ((c.channels.filter matched.contains).map messages) feed).1 = false ∧
            ∃ page ∈ packets, page.Brings hash))))
      (requests c feed).1 := by
  have hRows : ∀ w ∈ (c.channels.filter matched.contains).map messages, ∀ page ∈ w.pages,
      NoneOlder hash oldest page :=
    List.forall_mem_map.mpr fun key _ => hMessages key
  have hWalks := h.walkAll (c := c) hRows
  unfold Feed.requests
  rw [hAnswers]
  split
  next hNone =>
    refine h.mono fun hHad => hHad.resolve_right ?_
    rintro ⟨-, ⟨key, hKey, -⟩ | ⟨-, hSome, -⟩⟩
    · rw [hNone] at hKey
      exact not_mem_nil hKey
    · exact hSome hNone
  · dsimp only
    generalize hWalk : Feed.walkAll c ((c.channels.filter matched.contains).map messages) feed =
      walked at hWalks ⊢
    obtain ⟨feed', done⟩ := walked
    cases done with
    | false =>
      exact hWalks.mono (Or.imp_right fun hDone => nomatch hDone.1)
    | true =>
      have hMessage : (∃ key ∈ c.channels, key ∈ matched ∧ ∃ page ∈ (messages key).pages,
          Brings hash page) →
          ∃ w ∈ (c.channels.filter matched.contains).map messages, ∃ page ∈ w.pages,
            Brings hash page := by
        rintro ⟨key, hKey, hMatched, hPage⟩
        refine ⟨messages key, mem_map_of_mem ?_, hPage⟩
        exact mem_filter.mpr ⟨hKey, contains_iff_mem.mpr hMatched⟩
      dsimp only
      split
      next hAll =>
        refine hWalks.mono (Or.imp_right ?_)
        rintro ⟨-, hRow | ⟨-, -, hSome, -⟩⟩
        · exact ⟨rfl, hMessage hRow⟩
        · rw [hAll] at hSome
          cases hSome
      · refine (hWalks.syncBeaconPrivate hNamed hPages).mono ?_
        rintro (hHad | ⟨-, hRow | ⟨hOther, -, -, hLeft, hPage⟩⟩)
        · exact .inl (.inl hHad)
        · exact .inl (.inr ⟨rfl, hMessage hRow⟩)
        · exact .inr ⟨hOther, hLeft, hPage⟩

end Feed

end RemoteTerm.LiveFeed
