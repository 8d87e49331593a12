import RemoteTerm.Foundation.Text

/-!
# Requests of a feed

Before a feed is fetched, the host of its address is looked up, and the feed is refused when all
that is found are private addresses. The client looks the host up itself, may connect to any of
its addresses, and follows redirects, so private addresses can be reached.
-/

namespace RemoteTerm.Bots

open Foundation List

/-! ## Addresses -/

/-- What `ipaddress` tells about an address. -/
structure AddressKind where
  isPrivate : Bool
  isLoopback : Bool
  isLinkLocal : Bool
  isReserved : Bool
  deriving DecidableEq, Repr

def AddressKind.blocked (k : AddressKind) : Bool :=
  k.isPrivate || k.isLoopback || k.isLinkLocal || k.isReserved

/-- The names and the addresses of a network. -/
structure Network where
  /-- `socket.getaddrinfo`: the texts of the addresses of a host, unless it fails. -/
  resolve : Text → Option (List Text)
  /-- `ipaddress.ip_address`, unless it fails. -/
  kind : Text → Option AddressKind

namespace Network

variable (net : Network)

/-- An address that a request must not go to. -/
def blocked (address : Text) : Bool := (net.kind address).any AddressKind.blocked

def isPrivateHost (hostname : Text) : Bool :=
  match net.resolve hostname with
  | none => true
  | some infos =>
    infos.all fun address =>
      match net.kind address with
      | none => true
      | some k => k.blocked

end Network

/-! ## Fetching -/

/-- The parts of an address that matter here. -/
structure FeedUrl where
  scheme : Text
  hostname : Option Text
  rest : Text
  deriving DecidableEq, Repr

inductive FeedUrlError where
  | notHttp
  | noHost
  | privateHost
  deriving DecidableEq, Repr

def FeedUrl.isHttp (url : FeedUrl) : Bool :=
  url.scheme = "http".toList || url.scheme = "https".toList

def validateFeedUrl (net : Network) (url : FeedUrl) (allowPrivate : Bool) : Option FeedUrlError :=
  if ¬url.isHttp then some .notHttp
  else
    match url.hostname with
    | none => some .noHost
    | some hostname =>
      if hostname = [] then some .noHost
      else if ¬allowPrivate ∧ net.isPrivateHost hostname then some .privateHost
      else none

/-- A request and the address that it is sent to. -/
structure FeedRequest where
  url : FeedUrl
  address : Text
  deriving DecidableEq, Repr

/-- The client connects to one of the addresses of a host, if it can. -/
structure HttpClient where
  connect : FeedUrl → List Text → Option Text
  connect_mem : ∀ {url infos address}, connect url infos = some address → address ∈ infos

def maxRedirects : Nat := 20

/-- Where the client sends a request for an address, if it can. -/
def HttpClient.send (client : HttpClient) (net : Network) (url : FeedUrl) : Option Text :=
  if url.isHttp then (url.hostname.bind net.resolve).bind (client.connect url) else none

/-- The requests of the client for an address and for the redirects behind it, one after the
other. -/
def follow (net : Network) (client : HttpClient) : List FeedUrl → List FeedRequest
  | [] => []
  | url :: locations =>
    match client.send net url with
    | none => []
    | some address => ⟨url, address⟩ :: follow net client locations

/-- The requests of `fetch_feed_items`. The list holds the targets of the redirects that the
client gets; it ends with an answer that is none. -/
def feedRequests (net : Network) (client : HttpClient) (allowPrivate : Bool) (url : FeedUrl)
    (locations : List FeedUrl) : List FeedRequest :=
  match validateFeedUrl net url allowPrivate with
  | some _ => []
  | none => follow net client (url :: locations.take maxRedirects)

/-! ## The hosts that are visited -/

/-- The addresses that a client can send a request to. -/
def FeedUrl.addresses (net : Network) (url : FeedUrl) : List Text :=
  if url.isHttp then (url.hostname.bind net.resolve).getD [] else []

/-- Of a chain of redirects, all up to one that no request can be sent for. -/
def visited (net : Network) (urls : List FeedUrl) : List FeedUrl :=
  urls.takeWhile fun url => url.addresses net ≠ []

variable {net : Network} {client : HttpClient} {url : FeedUrl} {address : Text}

theorem send_eq_some (h : client.send net url = some address) : address ∈ url.addresses net := by
  obtain ⟨hHttp, h⟩ := Option.ite_none_right_eq_some.mp h
  obtain ⟨infos, hInfos, hConnect⟩ := Option.bind_eq_some_iff.mp h
  rw [FeedUrl.addresses, if_pos hHttp, hInfos]
  exact client.connect_mem hConnect

/-- Every request goes to an address of a host that is visited. -/
theorem visited_of_mem_follow {request : FeedRequest} {urls : List FeedUrl}
    (h : request ∈ follow net client urls) :
    ∃ url ∈ visited net urls, request.address ∈ url.addresses net := by
  induction urls with
  | nil => exact absurd h not_mem_nil
  | cons url urls ih =>
    unfold follow at h
    split at h
    · exact absurd h not_mem_nil
    rename_i address hSend
    have hMem := send_eq_some hSend
    have hVisited : visited net (url :: urls) = url :: visited net urls :=
      takeWhile_cons_of_pos (decide_eq_true (ne_nil_of_mem hMem))
    rw [hVisited]
    rcases mem_cons.mp h with rfl | hLater
    · exact ⟨url, mem_cons_self, hMem⟩
    · obtain ⟨later, hLater, hReaches⟩ := ih hLater
      exact ⟨later, mem_cons_of_mem _ hLater, hReaches⟩

/-- A client that connects to this address where it can, and else to the first one. -/
def preferring (address : Text) : HttpClient where
  connect _ infos := if infos.contains address then some address else infos.head?
  connect_mem h := by
    split at h
    next hMem => exact Option.some.inj h ▸ contains_iff_mem.mp hMem
    · exact mem_of_head? h

theorem send_preferring (address : Text) (h : url.addresses net ≠ []) :
    ∃ first, (preferring address).send net url = some first ∧
      (address ∈ url.addresses net → first = address) := by
  unfold FeedUrl.addresses at h ⊢
  unfold HttpClient.send preferring
  split at h
  · rename_i hHttp
    obtain ⟨infos, hInfos⟩ : ∃ infos, url.hostname.bind net.resolve = some infos := by
      cases hInfos : url.hostname.bind net.resolve with
      | none => exact absurd (by rw [hInfos]; rfl) h
      | some infos => exact ⟨infos, rfl⟩
    rw [hInfos, Option.getD_some] at h
    simp only [if_pos hHttp, hInfos, Option.bind_some, Option.getD_some, contains_iff_mem]
    by_cases hMem : address ∈ infos
    · exact ⟨address, if_pos hMem, fun _ => rfl⟩
    · exact ⟨infos.head h, by rw [if_neg hMem, head?_eq_some_head h], fun h => absurd h hMem⟩
  · exact absurd rfl h

/-- Any address of a host that is visited is reached by some client. -/
theorem mem_follow_of_visited {urls : List FeedUrl} (h : url ∈ visited net urls)
    (hMem : address ∈ url.addresses net) :
    ⟨url, address⟩ ∈ follow net (preferring address) urls := by
  induction urls with
  | nil => exact absurd h not_mem_nil
  | cons first urls ih =>
    unfold visited at h
    rw [takeWhile_cons] at h
    split at h
    · rename_i hSome
      obtain ⟨there, hSend, hThere⟩ := send_preferring address (of_decide_eq_true hSome)
      rw [follow, hSend]
      rcases mem_cons.mp h with rfl | hLater
      · rw [hThere hMem]
        exact mem_cons_self
      · exact mem_cons_of_mem _ (ih hLater)
    · exact absurd h not_mem_nil

/-- No client sends a request to a private, loopback, link-local or reserved address if and only
if the feed is refused, or no host that is visited has such an address. -/
theorem feed_requests_unblocked_iff (net : Network) (url : FeedUrl) (locations : List FeedUrl) :
    (∀ client, ∀ request ∈ feedRequests net client false url locations,
        net.blocked request.address = false) ↔
      (validateFeedUrl net url false = none →
        ∀ url' ∈ visited net (url :: locations.take maxRedirects),
        ∀ address ∈ url'.addresses net, net.blocked address = false) := by
  unfold feedRequests
  cases validateFeedUrl net url false with
  | some error => exact iff_of_true (fun _ _ h => absurd h not_mem_nil) nofun
  | none =>
    constructor
    · intro h _ url' hVisited address hMem
      exact h (preferring address) ⟨url', address⟩ (mem_follow_of_visited hVisited hMem)
    · intro h client request hRequest
      obtain ⟨url', hVisited, hMem⟩ := visited_of_mem_follow hRequest
      exact h rfl url' hVisited request.address hMem

/-! ## Examples -/

def loopback : Text := "127.0.0.1".toList

def outside : Text := "203.0.114.7".toList

/-- Three hosts: one outside, one inside, and one that is both. -/
def smallNet : Network where
  resolve hostname :=
    if hostname = ['o'] then some [outside]
    else if hostname = ['i'] then some [loopback]
    else if hostname = ['b'] then some [outside, loopback]
    else none
  kind address :=
    if address = loopback then some ⟨true, true, false, false⟩
    else if address = outside then some ⟨false, false, false, false⟩
    else none

def feedAt (hostname : Text) : FeedUrl := ⟨"http".toList, some hostname, []⟩

/-- A client that takes the first or the last of the addresses. -/
def takeFirst : HttpClient := ⟨fun _ infos => infos.head?, mem_of_head?⟩

def takeLast : HttpClient := ⟨fun _ infos => infos.getLast?, mem_of_getLast?⟩

/-- A host with an address outside and one inside passes the check. -/
theorem mixed_host_reaches_loopback :
    ∃ request ∈ feedRequests smallNet takeLast false (feedAt ['b']) [],
      smallNet.blocked request.address = true := by
  refine ⟨⟨feedAt ['b'], loopback⟩, ?_, ?_⟩ <;> decide

/-- A redirect is followed to a host that the check refuses. -/
theorem redirect_reaches_loopback :
    validateFeedUrl smallNet (feedAt ['i']) false = some .privateHost ∧
      ∃ request ∈ feedRequests smallNet takeFirst false (feedAt ['o']) [feedAt ['i']],
        smallNet.blocked request.address = true := by
  refine ⟨by decide, ⟨feedAt ['i'], loopback⟩, ?_, ?_⟩ <;> decide

end RemoteTerm.Bots
