import RemoteTerm.Foundation.Eviction
import RemoteTerm.Foundation.Slices
import RemoteTerm.Foundation.Text
import Mathlib.Algebra.Ring.Int.Defs
import Mathlib.Data.List.Sort

/-!
# The mirror of a live feed

`sync_once` of `app/services/live_feed.py` and the writes of `app/repository/live_feed.py`. A
sync stores the messages of a remote instance page by page; a failed request ends it. When
instance or region are others than at the last successful sync, the mirror is cleared.

The remote is given by the pages of every walk, with the rows that are left after decryption and
normalization, and by whether the walk ends with a failed request. The status of a sync is left
out. A row carries the sources that it was fetched under; no step looks at them.
-/

namespace RemoteTerm.LiveFeed

open Foundation

/-! ## Settings -/

/-- `normalize_region`: the codes without blanks and in upper case. -/
def normalizeRegion (region : Text) : Text :=
  [','].intercalate (((region.splitOn ',').map fun part => Text.upper (Text.strip part)).filter
    (· ≠ []))

/-- Instance and region of a feed. -/
structure FeedSource where
  instanceUrl : Text
  region : Text
  deriving DecidableEq, Repr

def FeedSource.feedScope (s : FeedSource) : Text := s.instanceUrl ++ ['|'] ++ s.region

/-! ## Rows -/

structure LiveRow where
  packetHash : Text
  channelName : Text
  channelKey : Option Text
  sender : Option Text
  text : Text
  senderTimestamp : Option Int
  firstSeen : Int
  lastSeen : Int
  repeats : Int
  observers : List Text
  hops : Option Int
  snr : Option Int
  scopeName : Option Text
  deriving DecidableEq, Repr

/-- A row as a sync has it. -/
structure FetchedRow where
  row : LiveRow
  source : FeedSource
  deriving DecidableEq, Repr

/-- A row of the table, with the sources of all that it was made of. -/
structure MirroredRow where
  row : LiveRow
  fetchedAt : Int
  sources : List FeedSource
  deriving DecidableEq, Repr

abbrev Mirror := Table Text MirroredRow

def upsertBatch : Nat := 500

/-- `row.get("last_seen") or row["first_seen"]` and `row.get("repeats") or 1` -/
def LiveRow.defaulted (r : LiveRow) : LiveRow :=
  { r with
    lastSeen := if r.lastSeen = 0 then r.firstSeen else r.lastSeen
    repeats := if r.repeats = 0 then 1 else r.repeats }

namespace Mirror

/-- The row is new, or its observations have moved. -/
def moved (existing : Mirror) (f : FetchedRow) : Bool :=
  match existing.get? f.row.packetHash with
  | none => true
  | some current => current.row.lastSeen < f.row.defaulted.lastSeen ∨
      current.row.repeats < f.row.defaulted.repeats

/-- `INSERT .. ON CONFLICT(packet_hash) DO UPDATE` -/
def write (now : Int) (m : Mirror) (f : FetchedRow) : Mirror :=
  let new := f.row.defaulted
  match m.get? f.row.packetHash with
  | none => m.set f.row.packetHash ⟨new, now, [f.source]⟩
  | some old =>
    m.set f.row.packetHash
      { row :=
          { old.row with
            firstSeen := min old.row.firstSeen new.firstSeen
            lastSeen := max old.row.lastSeen new.lastSeen
            repeats := max old.row.repeats new.repeats
            observers := new.observers
            hops := new.hops.or old.row.hops
            snr := new.snr.or old.row.snr
            scopeName := new.scopeName.or old.row.scopeName
            channelKey := new.channelKey.or old.row.channelKey }
        fetchedAt := now
        sources := old.sources ++ [f.source] }

/-- One transaction: what is there already is read before the rows are written. -/
def upsertRows (now : Int) (m : Mirror) (batch : List FetchedRow) : Mirror :=
  (batch.filter m.moved).foldl (write now) m

def upsertMany (now : Int) (m : Mirror) (rows : List FetchedRow) : Mirror :=
  (slices rows 0 upsertBatch).foldl (upsertRows now) m

def pruneOlderThan (m : Mirror) (cutoff : Int) : Mirror := m.filter fun _ r =>
    ¬r.row.firstSeen < cutoff

end Mirror

/-! ## Answers of the remote -/

/-- Pages, and whether the request behind them fails. -/
structure Walk where
  pages : List (List LiveRow)
  failed : Bool
  deriving DecidableEq, Repr

structure PacketPage where
  rows : List LiveRow
  packets : Nat
  withCiphertext : Nat
  deriving DecidableEq, Repr

structure PacketWalk where
  pages : List PacketPage
  failed : Bool
  deriving DecidableEq, Repr

/-- A packet in the list of a Beacon instance. -/
structure Summary where
  packetHash : Text
  lastHeardAt : Option Int
  observationCount : Option Int
  deriving DecidableEq, Repr

/-- The packets of a page, and the details for those that are asked for: `none` for a packet
that no key opens, and no entry for a request that fails. -/
structure PrivatePage where
  summaries : List Summary
  details : Table Text (Option LiveRow)

inductive Answers where
  /-- The kind of instance cannot be found out. -/
  | unreachable
  /-- The slices of the packet feed, and the messages of each channel in case that they are
  asked for. -/
  | corescope (packets : List PacketWalk) (messages : Text → Walk)
  /-- The keys of the channels that the instance decrypts itself, unless the request fails,
  their messages, and the pages of packets for the other channels. -/
  | beacon (matched : Option (List Text)) (messages : Text → Walk) (packets : List PrivatePage)

/-- A sync with the settings that it reads. -/
structure SyncCall where
  now : Int
  url : Text
  region : Text
  channels : List Text
  answers : Answers

namespace SyncCall

variable (c : SyncCall)

def source : FeedSource := ⟨c.url.rdropWhile (· = '/'), normalizeRegion c.region⟩

def syncScope : Text :=
  c.source.feedScope ++ ['|'] ++ [','].intercalate (c.channels.insertionSort (· ≤ ·))

end SyncCall

/-! ## A sync -/

structure Feed where
  /-- `_state.feed_scope` -/
  feedScope : Option Text
  /-- `_state.cursor_scope` -/
  cursorScope : Option Text
  mirror : Mirror
  /-- `_inspected` -/
  inspected : Table Text (Option FetchedRow)

def maxInspectedPackets : Nat := 50000
def maxDetailFetchesPerSync : Nat := 300
def retentionSeconds : Int := 90 * 86400

namespace Feed

def start : Feed := ⟨none, none, .empty, .empty⟩

/-- The process is started again: only the table is kept. -/
def restart (feed : Feed) : Feed := { start with mirror := feed.mirror }

variable (c : SyncCall)

def upsert (feed : Feed) (rows : List FetchedRow) : Feed :=
  { feed with mirror := feed.mirror.upsertMany c.now rows }

def fetched (row : LiveRow) : FetchedRow := ⟨row, c.source⟩

def walk (feed : Feed) (w : Walk) : Feed :=
  w.pages.foldl (fun feed page => feed.upsert c (page.map (fetched c))) feed

/-- Walks one after the other, up to one that fails. -/
def walkAll : List Walk → Feed → Feed × Bool
  | [], feed => (feed, true)
  | w :: ws, feed => if w.failed then (feed.walk c w, false) else walkAll ws (feed.walk c w)

/-! ### Packet feed -/

/-- `_PacketSyncResult`, and the hashes that this sync has had. -/
structure PacketResult where
  feed : Feed
  seen : List Text
  packets : Nat
  withCiphertext : Nat
  slices : Nat
  failedSlices : Nat

/-- The rows of a page with a hash that is not seen yet. -/
def unseen : List Text → List LiveRow → List LiveRow × List Text
  | seen, [] => ([], seen)
  | seen, row :: rows =>
    if seen.contains row.packetHash then unseen seen rows
    else
      let (rest, seen) := unseen (seen ++ [row.packetHash]) rows
      (row :: rest, seen)

def packetPage (r : PacketResult) (page : PacketPage) : PacketResult :=
  let (rows, seen) := unseen r.seen page.rows
  { r with
    feed := r.feed.upsert c (rows.map (fetched c))
    seen := seen
    packets := r.packets + page.packets
    withCiphertext := r.withCiphertext + page.withCiphertext }

/-- A slice that fails is counted and skipped. -/
def packetSlice (r : PacketResult) (w : PacketWalk) : PacketResult :=
  let r := w.pages.foldl (packetPage c) r
  { r with slices := r.slices + 1, failedSlices := r.failedSlices + if w.failed then 1 else 0 }

def syncPackets (feed : Feed) (slices : List PacketWalk) : PacketResult :=
  slices.foldl (packetSlice c) ⟨feed, [], 0, 0, 0, 0⟩

/-! ### Packets of a Beacon instance -/

def rememberInspected (feed : Feed) (packetHash : Text) (row : Option FetchedRow) : Feed :=
  { feed with
    inspected := (feed.inspected.setLast packetHash row).evictTo List.head? maxInspectedPackets }

theorem rememberInspected_frame (feed : Feed) (packetHash : Text) (row : Option FetchedRow) :
    (feed.rememberInspected packetHash row).mirror = feed.mirror ∧
      (feed.rememberInspected packetHash row).feedScope = feed.feedScope ∧
      (feed.rememberInspected packetHash row).cursorScope = feed.cursorScope := by
  unfold rememberInspected
  exact ⟨rfl, rfl, rfl⟩

theorem get?_rememberInspected {feed : Feed} {packetHash k : Text} {row v : Option FetchedRow}
    (h : (feed.rememberInspected packetHash row).inspected.get? k = some v) :
    (k = packetHash ∧ v = row) ∨ feed.inspected.get? k = some v := by
  have hHead : ∀ t : Table Text (Option FetchedRow), maxInspectedPackets < t.size →
      ∃ e ∈ t.entries, t.entries.head? = some e := by
    intro t hLarge
    have hNonempty : t.entries ≠ [] := List.ne_nil_of_length_pos (Nat.zero_lt_of_lt hLarge)
    exact ⟨t.entries.head hNonempty, List.head_mem hNonempty, List.head?_eq_some_head hNonempty⟩
  unfold rememberInspected at h
  dsimp only at h
  have hSet := Table.get?_of_evictTo hHead h
  rw [Table.get?_setLast] at hSet
  split at hSet
  next hSame => exact .inl ⟨hSame, (Option.some.inj hSet).symm⟩
  · exact .inr hSet

/-- A row that is known is brought up to date from the summary. -/
def refreshed (f : FetchedRow) (summary : Summary) : FetchedRow :=
  let orElse (value : Option Int) (other : Int) : Int :=
    if value.getD 0 = 0 then other else value.getD 0
  let last := orElse (summary.lastHeardAt.map (· / 1000)) f.row.lastSeen
  { f with row :=
    { f.row with
      repeats := orElse summary.observationCount f.row.repeats
      lastSeen := max f.row.lastSeen last } }

/-- A page while its summaries are looked through. -/
structure PageScan where
  feed : Feed
  rows : List FetchedRow
  toFetch : List Text
  exhausted : Bool

/-- The packets of a page: those that are known, and those to look into. -/
def scanSummaries (budget : Nat) : List Summary → PageScan → PageScan
  | [], scan => scan
  | summary :: rest, scan =>
    if summary.packetHash = [] then scanSummaries budget rest scan
    else
      match scan.feed.inspected.get? summary.packetHash with
      | some none => scanSummaries budget rest scan
      | some (some f) =>
        scanSummaries budget rest
          { scan with
            feed := scan.feed.rememberInspected summary.packetHash (some (refreshed f summary))
            rows := scan.rows ++ [refreshed f summary] }
      | none =>
        if budget ≤ scan.toFetch.length then { scan with exhausted := true }
        else scanSummaries budget rest { scan with toFetch := scan.toFetch ++ [summary.packetHash] }

/-- The details that are asked for. -/
def fetchDetails (details : Table Text (Option LiveRow)) :
    List Text → Feed × List FetchedRow → Feed × List FetchedRow
  | [], acc => acc
  | packetHash :: rest, (feed, rows) =>
    match details.get? packetHash with
    | none => fetchDetails details rest (feed, rows)
    | some row =>
      fetchDetails details rest
        (feed.rememberInspected packetHash (row.map (fetched c)),
          rows ++ (row.map (fetched c)).toList)

def syncBeaconPrivate : Nat → List PrivatePage → Feed → Feed
  | _, [], feed => feed
  | budget, page :: pages, feed =>
    let scan := scanSummaries budget page.summaries ⟨feed, [], [], false⟩
    let (feed, rows) := fetchDetails c page.details scan.toFetch (scan.feed, scan.rows)
    let feed := feed.upsert c rows
    if scan.exhausted ∨ page.summaries = [] then feed
    else syncBeaconPrivate (budget - scan.toFetch.length) pages feed

/-! ### The whole -/

/-- The requests of a sync; the flag tells whether they went through. -/
def requests (feed : Feed) : Feed × Bool :=
  if c.channels = [] then (feed, true)
  else
    match c.answers with
    | .unreachable => (feed, false)
    | .beacon none _ _ => (feed, false)
    | .beacon (some matched) messages packets =>
      match walkAll c ((c.channels.filter matched.contains).map messages) feed with
      | (feed, false) => (feed, false)
      | (feed, true) =>
        if c.channels.all matched.contains then (feed, true)
        else (syncBeaconPrivate c maxDetailFetchesPerSync packets feed, true)
    | .corescope packets messages =>
      let r := syncPackets c feed packets
      -- nothing to decrypt: the instance's own decryption
      if (0 < r.slices ∧ r.failedSlices = r.slices) ∨ (0 < r.packets ∧ r.withCiphertext = 0) then
        walkAll c (c.channels.map messages) r.feed
      else (r.feed, true)

/-- The mirror is cleared when it is that of another feed. -/
def clearOther (feed : Feed) : Feed :=
  if feed.feedScope ≠ none ∧ feed.feedScope ≠ some c.source.feedScope then
    { feed with mirror := .empty, inspected := .empty }
  else feed

/-- A newly compared key may open packets that were not ours. -/
def clearInspected (feed : Feed) : Feed :=
  if feed.cursorScope ≠ some c.syncScope then { feed with inspected := .empty } else feed

def syncOnce (feed : Feed) : Feed × Bool :=
  match requests c ((feed.clearOther c).clearInspected c) with
  | (feed, false) => (feed, false)
  | (feed, true) =>
    ({ feed with
      feedScope := some c.source.feedScope
      cursorScope := some c.syncScope
      mirror := feed.mirror.pruneOlderThan (c.now - retentionSeconds) }, true)

end Feed

end RemoteTerm.LiveFeed
