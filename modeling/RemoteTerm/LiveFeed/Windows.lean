import RemoteTerm.LiveFeed.Sync

/-!
# The windows of a live feed

The first sync under some settings asks for the packets of the last week, every later one for
those since a little before the last successful sync began. The packet feed of a CoreScope
instance is read in slices of six hours, region by region; a Beacon instance lists packets to be
looked into one by one, and the messages of channels that it decrypts itself by the sender's
clock.

`TimedFeed` puts the cursor of `app/services/live_feed.py` next to the feed. A remote is given by
what it serves and by the requests that fail.
-/

namespace RemoteTerm.LiveFeed

open Foundation

def lookbackSeconds : Int := 7 * 86400
def cursorOverlapSeconds : Int := 600
def packetSliceSeconds : Int := 6 * 3600
def beaconSentAtSlackSeconds : Int := 3600
def pageLimit : Nat := 200
def maxPacketPages : Nat := 100
def maxPagesPerChannel : Nat := 40

/-! ## Slices of time -/

/-- The loop of `_time_slices`, for as many rounds. -/
def timeSlicesFrom (since : Int) : Nat → Int → List (Int × Int)
  | 0, _ => []
  | rounds + 1, stop =>
    if stop ≤ since then []
    else
      let start := max since (stop - packetSliceSeconds)
      (start, stop) :: timeSlicesFrom since rounds start

def timeSlices (since stop : Int) : List (Int × Int) :=
  let slices := timeSlicesFrom since ((stop - since) / packetSliceSeconds + 1).toNat stop
  if slices = [] then [(since, stop)] else slices

theorem exists_mem_timeSlicesFrom {since stop time : Int} {rounds : Nat}
    (hRounds : stop - since ≤ rounds * packetSliceSeconds) (hSince : since ≤ time)
    (hStop : time ≤ stop) (hSome : since < stop) :
    ∃ slice ∈ timeSlicesFrom since rounds stop, slice.1 ≤ time ∧ time ≤ slice.2 := by
  induction rounds generalizing stop with
  | zero => omega
  | succ rounds ih =>
    have hRest : stop - packetSliceSeconds - since ≤ rounds * packetSliceSeconds := by
      rw [Int.natCast_succ, Int.add_mul, Int.one_mul] at hRounds
      omega
    unfold timeSlicesFrom
    rw [if_neg (by omega)]
    by_cases hHere : max since (stop - packetSliceSeconds) ≤ time
    · exact ⟨_, List.mem_cons_self, hHere, hStop⟩
    · obtain ⟨slice, hMem, hSlice⟩ := @ih (max since (stop - packetSliceSeconds)) (by omega)
        (by omega) (by omega)
      exact ⟨slice, List.mem_cons_of_mem _ hMem, hSlice⟩

theorem exists_mem_timeSlices {since stop time : Int} (hSince : since ≤ time)
    (hStop : time ≤ stop) : ∃ slice ∈ timeSlices since stop, slice.1 ≤ time ∧ time ≤ slice.2 := by
  unfold timeSlices
  dsimp only
  split
  · exact ⟨_, List.mem_singleton.mpr rfl, hSince, hStop⟩
  rename_i hNonempty
  by_cases hSome : since < stop
  · refine exists_mem_timeSlicesFrom ?_ hSince hStop hSome
    have hDiv := Int.mul_ediv_add_emod (stop - since) packetSliceSeconds
    have hMod := Int.emod_lt_of_pos (stop - since) (show 0 < packetSliceSeconds by decide)
    have hNonneg := Int.ediv_nonneg (show 0 ≤ stop - since by omega)
      (show 0 ≤ packetSliceSeconds by decide)
    rw [Int.toNat_of_nonneg (by omega), Int.add_mul, Int.one_mul, Int.mul_comm]
    omega
  · refine absurd ?_ hNonempty
    unfold timeSlicesFrom
    split
    · rfl
    · rw [if_pos (by omega)]

/-! ## What a remote serves -/

/-- A packet with what comes of it. -/
structure RemotePacket where
  hash : Text
  /-- The regions and times under which the instance lists it: with CoreScope each observation,
  with Beacon the first one. -/
  listedAt : List (Text × Int)
  groupText : Bool
  ciphertext : Bool
  /-- The row, if a compared key opens it. -/
  row : Option LiveRow
  lastHeardAt : Option Int
  observationCount : Option Int
  row_hash : ∀ r, row = some r → r.packetHash = hash

/-- A message as Beacon has decrypted it. -/
structure SentMessage where
  sentAt : Int
  row : LiveRow

inductive Remote where
  | unreachable
  /-- Packets, whether pages come with a total, which page requests fail in a slice of a region,
  and the messages of each channel in case that they are asked for. -/
  | corescope (packets : List RemotePacket) (reportsTotal : Bool)
      (fails : Option Text → Int × Int → Nat → Bool)
      (messages : Text → Walk)
  /-- The channels that it decrypts itself, their messages, and packets, with the requests that
  fail. -/
  | beacon (matched : Option (List Text)) (messages : Text → List SentMessage)
      (messageFails : Text → Nat → Bool)
      (packets : List RemotePacket) (listFails : Nat → Bool) (detailFails : Text → Bool)

def Remote.isBeacon : Remote → Bool
  | .beacon .. => true
  | _ => false

def RemotePacket.listed (p : RemotePacket) (code : Option Text) (since stop : Int) : Bool :=
  p.listedAt.any fun (region, time) => (code = none ∨ code = some region) ∧
    since ≤ time ∧ time ≤ stop

structure FeedSettings where
  url : Text
  region : Text
  channels : List Text

namespace FeedSettings

variable (s : FeedSettings)

def call (now : Int) (answers : Answers) : SyncCall := ⟨now, s.url, s.region, s.channels, answers⟩

def source : FeedSource := (s.call 0 .unreachable).source

def syncScope : Text := (s.call 0 .unreachable).syncScope

/-- One walk for each code, or one without a filter. -/
def regionCodes : List (Option Text) :=
  let codes := (s.source.region.splitOn ',').filter (· ≠ [])
  if codes = [] then [none] else codes.map some

end FeedSettings

/-! ## A sync with its window -/

structure TimedFeed where
  feed : Feed
  /-- `_state.cursor` -/
  cursor : Option Int
  /-- `_state.private_backlog` -/
  privateBacklog : Bool

structure Poll where
  now : Int
  remote : Remote

/-- The walk of one slice in a region. -/
def sliceWalk (packets : List RemotePacket) (reportsTotal : Bool)
    (fails : Option Text → Int × Int → Nat → Bool)
    (code : Option Text) (slice : Int × Int) : PageWalk RemotePacket :=
  pageWalk pageLimit reportsTotal (fails code slice)
    (packets.filter (·.listed code slice.1 slice.2)) maxPacketPages 0

/-- A page of the packet feed, as it is counted and read. -/
def packetPageOf (packets : List RemotePacket) : PacketPage :=
  let texts := packets.filter (·.groupText)
  ⟨texts.filterMap (·.row), texts.length, (texts.filter (·.ciphertext)).length⟩

/-- The walk over the messages of a channel that Beacon decrypts. -/
def messageWalk (messages : List SentMessage) (fails : Nat → Bool) (since : Int) :
    PageWalk SentMessage :=
  pageWalk pageLimit true fails (messages.filter fun m => since ≤ m.sentAt) maxPagesPerChannel 0

/-- The walk over the packets that Beacon lists. -/
def listingWalk (codes : List (Option Text)) (packets : List RemotePacket) (fails : Nat → Bool)
    (since stop : Int) :
    PageWalk RemotePacket :=
  pageWalk pageLimit true fails (packets.filter fun p => codes.any fun code =>
    p.listed code since stop)
    maxPacketPages 0

/-- A page of that list. The details are tried with the keys that Beacon does not have. -/
def privatePageOf (matched : List Text) (detailFails : Text → Bool) (packets : List RemotePacket) :
    PrivatePage where
  summaries := packets.map fun p => ⟨p.hash, p.lastHeardAt, p.observationCount⟩
  details := Table.ofList ((packets.filter fun p => !detailFails p.hash).map fun p =>
    (p.hash, p.row.filter fun r => !r.channelKey.any matched.contains))

/-- Whether the details ran out of their budget, in the walk of `syncBeaconPrivate`. -/
def Feed.beaconExhausted (c : SyncCall) : Nat → List PrivatePage → Feed → Bool
  | _, [], _ => false
  | budget, page :: pages, feed =>
    let scan := scanSummaries budget page.summaries ⟨feed, [], [], false⟩
    let (feed, rows) := fetchDetails c page.details scan.toFetch (scan.feed, scan.rows)
    if scan.exhausted then true
    else if page.summaries = [] then false
    else beaconExhausted c (budget - scan.toFetch.length) pages (feed.upsert c rows)

namespace TimedFeed

variable (s : FeedSettings) (t : TimedFeed)

/-- The mirror is that of another feed, and everything starts anew. -/
def cleared : Bool := t.feed.feedScope ≠ none ∧ t.feed.feedScope ≠ some s.source.feedScope

def startCursor : Option Int := if t.cleared s then none else t.cursor

def startBacklog : Bool := !t.cleared s && t.privateBacklog

def fullWalk : Bool := t.startCursor s = none ∨ t.feed.cursorScope ≠ some s.syncScope

def since (now : Int) : Int :=
  match t.startCursor s with
  | none => now - lookbackSeconds
  | some cursor =>
    if t.fullWalk s then now - lookbackSeconds
    else max (now - lookbackSeconds) (cursor - cursorOverlapSeconds)

/-- For the messages that Beacon decrypts: further back, for clocks that are behind. -/
def messageSince (now : Int) : Int :=
  if t.fullWalk s then t.since s now else max (now - lookbackSeconds)
    (t.since s now - beaconSentAtSlackSeconds)

def privateSince (now : Int) : Int :=
  if t.startBacklog s then now - lookbackSeconds else t.since s now

/-- What the remote answers in this sync. -/
def answers (p : Poll) : Answers :=
  match p.remote with
  | .unreachable => .unreachable
  | .corescope packets reportsTotal fails messages =>
    .corescope (s.regionCodes.flatMap fun code =>
      (timeSlices (t.since s p.now) p.now).map fun slice =>
      let w := sliceWalk packets reportsTotal fails code slice
      ⟨w.pages.map packetPageOf, w.failed⟩) messages
  | .beacon matched messages messageFails packets listFails detailFails =>
    .beacon matched
      (fun key =>
        let w := messageWalk (messages key) (messageFails key) (t.messageSince s p.now)
        ⟨w.pages.map fun page => page.map (·.row), w.failed⟩)
      ((listingWalk s.regionCodes packets listFails (t.privateSince s p.now) p.now).pages.map
        (privatePageOf (matched.getD []) detailFails))

def call (p : Poll) : SyncCall := s.call p.now (t.answers s p)

/-- The backlog that a sync leaves behind. -/
def nextBacklog (p : Poll) : Bool :=
  let c := t.call s p
  match c.answers with
  | .beacon (some matched) messages packets =>
    if c.channels = [] then t.startBacklog s
    else if c.channels.all matched.contains then false
    else
      let feed := (t.feed.clearOther c).clearInspected c
      let feed := (feed.walkAll c ((c.channels.filter matched.contains).map messages)).1
      feed.beaconExhausted c maxDetailFetchesPerSync packets
  | _ => t.startBacklog s

def syncTimed (p : Poll) : TimedFeed × Bool :=
  match t.feed.syncOnce (t.call s p) with
  | (feed, true) => (⟨feed, some p.now, t.nextBacklog s p⟩, true)
  | (feed, false) => (⟨feed, t.startCursor s, t.startBacklog s⟩, false)

/-- No request fails, and no walk over pages is cut off. -/
def Unfailing (p : Poll) : Prop :=
  match p.remote with
  | .unreachable => False
  | .corescope packets reportsTotal fails _ =>
    ∀ code ∈ s.regionCodes, ∀ slice ∈ timeSlices (t.since s p.now) p.now,
      (sliceWalk packets reportsTotal fails code slice).failed = false ∧
        (sliceWalk packets reportsTotal fails code slice).ranOut = false
  | .beacon none _ _ _ _ _ => False
  | .beacon (some matched) messages messageFails packets listFails detailFails =>
    (∀ key ∈ s.channels, key ∈ matched →
      (messageWalk (messages key) (messageFails key) (t.messageSince s p.now)).failed = false ∧
        (messageWalk (messages key) (messageFails key) (t.messageSince s p.now)).ranOut = false) ∧
    (s.channels.all matched.contains = false →
      (listingWalk s.regionCodes packets listFails (t.privateSince s p.now) p.now).failed = false ∧
        (listingWalk s.regionCodes packets listFails (t.privateSince s p.now) p.now).ranOut =
          false ∧
        ∀ q ∈ packets, detailFails q.hash = false)

/-- The details of a Beacon instance were not all read. -/
def outOfDetails (p : Poll) : Bool := p.remote.isBeacon && t.nextBacklog s p

end TimedFeed

end RemoteTerm.LiveFeed
