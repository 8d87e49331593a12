import RemoteTerm.Foundation.Text

/-!
# New items of a feed

Of a feed only the id of the newest item of the last check is remembered; the next check posts
what is in front of it. If the remembered item has disappeared, everything is new again
(`removed_item_reposts`).
-/

namespace RemoteTerm.Bots

open Foundation List

structure FeedCheckResult (α : Type) where
  items : List α
  newItems : List α
  newestId : Option Text

section Checks

variable {α : Type} (id : α → Text)

/-- The item that was remembered. -/
def isLast (last : Text) (item : α) : Bool := !(id item).isEmpty && id item == last

/-- `select_new_items`; the items are newest first. -/
def selectNewItems (items : List α) (lastItemId : Option Text) (maxPosts : Int) :
    FeedCheckResult α :=
  let newestId := items.head?.map id
  match lastItemId with
  | none => ⟨items, [], newestId⟩
  | some last =>
    let newItems := (items.takeWhile fun item => !isLast id last item).reverse
    if 0 < maxPosts ∧ maxPosts < newItems.length then
      ⟨items, newItems.drop (newItems.length - maxPosts.toNat), newestId⟩
    else ⟨items, newItems, newestId⟩

/-- The columns of a feed that a check reads and writes. -/
structure BotFeed where
  maxPostsPerCheck : Int
  lastItemId : Option Text
  lastCheckAt : Int
  itemsPosted : Nat
  lastError : Option Text
  errorCount : Nat

namespace BotFeed

/-- `BotFeedRepository.record_check` -/
def recordCheck (feed : BotFeed) (now : Int) (newestId : Option Text) (posted : Nat)
    (error : Option Text) : BotFeed :=
  match error with
  | none =>
    { feed with
      lastCheckAt := now, lastItemId := newestId.or feed.lastItemId, itemsPosted :=
        feed.itemsPosted + posted,
      lastError := none, errorCount := 0 }
  | some e =>
    { feed with lastCheckAt := now, lastError := some e, errorCount := feed.errorCount + 1 }

end BotFeed

/-- What a check finds: its time, and the items or an error. -/
structure FeedFetch (α : Type) where
  now : Int
  items : Except Text (List α)

def FeedFetch.found (fetch : FeedFetch α) : List α :=
  match fetch.items with
  | .error _ => []
  | .ok items => items

namespace BotFeed

/-- `_check_feed`: the items that are selected for posting, and the feed afterwards. An item
whose text is empty is not posted. -/
def checkFeed (format : α → Text) (feed : BotFeed) (fetch : FeedFetch α) : List α × BotFeed :=
  match fetch.items with
  | .error e => ([], feed.recordCheck fetch.now none 0 (some e))
  | .ok items =>
    let result := selectNewItems id items feed.lastItemId feed.maxPostsPerCheck
    let posted := result.newItems.countP fun item => !(format item).isEmpty
    (result.newItems, feed.recordCheck fetch.now result.newestId posted none)

/-- What each of a sequence of checks selects. -/
def selections (format : α → Text) : BotFeed → List (FeedFetch α) → List (List α)
  | _, [] => []
  | feed, fetch :: fetches =>
    (feed.checkFeed id format fetch).1 :: selections format
      (feed.checkFeed id format fetch).2 fetches

end BotFeed

/-- In every check the item that was the newest one at the last check that found any, here
`newest`, has an id and is still there, unless nothing is found. -/
def NewestKept : (newest : Option α) → List (FeedFetch α) → Prop
  | _, [] => True
  | newest, fetch :: fetches =>
    match fetch.found with
    | [] => NewestKept newest fetches
    | item :: items =>
      (∀ m ∈ newest, id m ≠ [] ∧ m ∈ item :: items) ∧ NewestKept (some item) fetches

/-! ## What a check selects -/

variable {id} {born : α → Nat} {items : List α}

theorem newItems_subset_takeWhile (last : Text) (maxPosts : Int) :
    (selectNewItems id items (some last) maxPosts).newItems ⊆ items.takeWhile fun item =>
      !isLast id last item := by
  unfold selectNewItems
  dsimp only
  split
  · exact fun item h => mem_reverse.mp (mem_of_mem_drop h)
  · exact fun item h => mem_reverse.mp h

theorem newItems_subset (lastItemId : Option Text) (maxPosts : Int) :
    (selectNewItems id items lastItemId maxPosts).newItems ⊆ items := by
  cases lastItemId with
  | none => exact nil_subset _
  | some last => exact fun item h => takeWhile_subset _ (newItems_subset_takeWhile last maxPosts h)

theorem newestId_selectNewItems (lastItemId : Option Text) (maxPosts : Int) :
    (selectNewItems id items lastItemId maxPosts).newestId = items.head?.map id := by
  unfold selectNewItems
  cases lastItemId with
  | none => rfl
  | some last =>
    dsimp only
    split <;> rfl

theorem born_lt_of_mem_takeWhile {p : α → Bool} {m item : α}
    (hOrder : items.Pairwise fun a b => born b < born a)
    (hm : m ∈ items) (hStop : p m = false) (h : item ∈ items.takeWhile p) : born m < born item := by
  induction items with
  | nil => cases hm
  | cons a items ih =>
    obtain ⟨hHead, hTail⟩ := pairwise_cons.mp hOrder
    rw [takeWhile_cons] at h
    split at h
    next hPass =>
      have hm' : m ∈ items := by
        rcases mem_cons.mp hm with rfl | hm'
        · rw [hStop] at hPass
          cases hPass
        · exact hm'
      rcases mem_cons.mp h with rfl | h
      · exact hHead m hm'
      · exact ih hTail hm' h
    · cases h

theorem born_lt_of_mem_newItems {m item : α} {maxPosts : Int}
    (hOrder : items.Pairwise fun a b => born b < born a) (hm : m ∈ items) (hId : id m ≠ [])
    (h : item ∈ (selectNewItems id items (some (id m)) maxPosts).newItems) :
    born m < born item := by
  refine born_lt_of_mem_takeWhile hOrder hm ?_ (newItems_subset_takeWhile _ _ h)
  simp [isLast, hId]

theorem born_le_head {m item : α} (hOrder : (m :: items).Pairwise fun a b => born b < born a)
    (h : item ∈ m :: items) : born item ≤ born m := by
  rcases mem_cons.mp h with rfl | h
  · exact Nat.le_refl _
  · exact ((pairwise_cons.mp hOrder).1 item h).le

/-! ## A sequence of checks -/

variable {format : α → Text} {fetch : FeedFetch α} {fetches : List (FeedFetch α)}

theorem check_of_found_nil (feed : BotFeed) (h : fetch.found = []) :
    (feed.checkFeed id format fetch).1 = [] ∧
    (feed.checkFeed id format fetch).2.lastItemId = feed.lastItemId := by
  unfold FeedFetch.found at h
  unfold BotFeed.checkFeed
  cases hItems : fetch.items with
  | error e => exact ⟨rfl, rfl⟩
  | ok items =>
    rw [hItems] at h
    subst h
    refine ⟨subset_nil.mp (newItems_subset _ _), ?_⟩
    simp only [BotFeed.recordCheck, newestId_selectNewItems, head?_nil, Option.map_none,
      Option.none_or]

theorem check_of_found_cons (feed : BotFeed) {item : α} {items : List α}
    (h : fetch.found = item :: items) :
    (feed.checkFeed id format fetch).1 =
        (selectNewItems id (item :: items) feed.lastItemId feed.maxPostsPerCheck).newItems ∧
      (feed.checkFeed id format fetch).2.lastItemId = some (id item) := by
  unfold FeedFetch.found at h
  unfold BotFeed.checkFeed
  cases hItems : fetch.items with
  | error e =>
    rw [hItems] at h
    cases h
  | ok items' =>
    rw [hItems] at h
    subst h
    refine ⟨rfl, ?_⟩
    simp only [BotFeed.recordCheck, newestId_selectNewItems, head?_cons, Option.map_some,
      Option.some_or]

/-- As long as the remembered item is kept, only newer ones are selected, each once. -/
theorem selections_newer {newest : Option α} {feed : BotFeed}
    (hLast : ∀ m ∈ newest, feed.lastItemId = some (id m))
    (hOrder : ∀ fetch ∈ fetches, fetch.found.Pairwise fun a b => born b < born a)
    (hKept : NewestKept id newest fetches) :
    (∀ selected ∈ feed.selections id format fetches, ∀ m ∈ newest, ∀ item ∈ selected,
      born m < born item) ∧
      (feed.selections id format fetches).Pairwise List.Disjoint := by
  induction fetches generalizing newest feed with
  | nil => exact ⟨nofun, .nil⟩
  | cons fetch fetches ih =>
    obtain ⟨hFirst, hOrder⟩ := forall_mem_cons.mp hOrder
    unfold NewestKept at hKept
    unfold BotFeed.selections
    cases hFound : fetch.found with
    | nil =>
      rw [hFound] at hKept
      obtain ⟨hNone, hSame⟩ := @check_of_found_nil _ id format fetch feed hFound
      obtain ⟨hNewer, hOnce⟩ := ih (fun m hm => hSame.trans (hLast m hm)) hOrder hKept
      rw [hNone]
      exact ⟨forall_mem_cons.mpr ⟨nofun, hNewer⟩,
        .cons (fun _ _ => disjoint_nil_left _) hOnce⟩
    | cons item items =>
      rw [hFound] at hKept hFirst
      obtain ⟨hThere, hKept⟩ := hKept
      obtain ⟨hSelected, hNext⟩ := @check_of_found_cons _ id format fetch feed item items hFound
      have hItem : ∀ m ∈ some item, (feed.checkFeed id format fetch).2.lastItemId =
          some (id m) := by
        rintro m ⟨⟩
        exact hNext
      obtain ⟨hLater, hOnce⟩ := ih hItem hOrder hKept
      rw [hSelected]
      -- what is selected now is newer than `m` and at most as new as `item`, the rest is newer
      refine ⟨forall_mem_cons.mpr ⟨?_, ?_⟩, .cons ?_ hOnce⟩
      · intro m hm x hx
        obtain ⟨hId, hStill⟩ := hThere m hm
        rw [hLast m hm] at hx
        exact born_lt_of_mem_newItems hFirst hStill hId hx
      · intro selected hs m hm x hx
        exact Nat.lt_of_le_of_lt (born_le_head hFirst (hThere m hm).2)
          (hLater selected hs item rfl x hx)
      · intro selected hs x hx hx'
        have hOld := born_le_head hFirst (newItems_subset _ _ hx)
        have hNew := hLater selected hs item rfl x hx'
        omega

/-- What is posted was not posted before, as long as the remembered item is still there, and has an
id. -/
theorem feed_items_once (born : α → Nat) (format : α → Text) (feed : BotFeed)
    (fetches : List (FeedFetch α))
    (hOrder : ∀ fetch ∈ fetches, fetch.found.Pairwise fun a b => born b < born a)
    (hKept : NewestKept id none fetches) :
    (feed.selections id format fetches).Pairwise List.Disjoint :=
  (selections_newer (fun _ h => absurd h (Option.not_mem_none _)) hOrder hKept).2

end Checks

/-! ## A remembered item that is removed -/

/-- An item that is its number; the ids are letters. -/
def letterId (n : Nat) : Text := [Char.ofNat (96 + n)]

def someFeed : BotFeed where
  maxPostsPerCheck := 5
  lastItemId := none
  lastCheckAt := 0
  itemsPosted := 0
  lastError := none
  errorCount := 0

theorem feed_items_once_of_three :
    someFeed.selections letterId letterId [⟨1, .ok [1]⟩, ⟨2, .ok [2, 1]⟩, ⟨3, .ok [3, 2]⟩] =
      [[], [2], [3]] ∧
      (someFeed.selections letterId letterId
        [⟨1, .ok [1]⟩, ⟨2, .ok [2, 1]⟩, ⟨3, .ok [3, 2]⟩]).Pairwise List.Disjoint :=
  ⟨by decide, feed_items_once (fun n => n) letterId someFeed _ (by decide)
    (by simp [NewestKept, FeedFetch.found, letterId])⟩

/-- Item 2 is posted, then 3; when 3 is removed, 2 is posted again. Without ids everything is
posted again and again. -/
theorem removed_item_reposts :
    someFeed.selections letterId letterId
      [⟨1, .ok [1]⟩, ⟨2, .ok [2, 1]⟩, ⟨3, .ok [3, 2, 1]⟩, ⟨4, .ok [2, 1]⟩] =
      [[], [2], [3], [1, 2]] ∧
    someFeed.selections (fun _ => []) letterId [⟨1, .ok [1]⟩, ⟨2, .ok [2, 1]⟩, ⟨3, .ok [2, 1]⟩] =
      [[], [1, 2], [1, 2]] := by
  decide

end RemoteTerm.Bots
