import Marks.Authority

/-! # Outbound fetches

The link check and the URL import fetch what a reader names. Each follows redirects by itself, and each request
is made by a client of its own, pinned to an address of the lookup behind it. URL parsing, the resolver and the
HTTP client are given. -/

namespace Marks

/-! ## Addresses -/

structure Ipv4Addr where
  a : UInt8
  b : UInt8
  c : UInt8
  d : UInt8
deriving DecidableEq, Repr

@[ext]
structure Ipv6Addr where
  s0 : UInt16
  s1 : UInt16
  s2 : UInt16
  s3 : UInt16
  s4 : UInt16
  s5 : UInt16
  s6 : UInt16
  s7 : UInt16
deriving DecidableEq, Repr

inductive IpAddr where
  | v4 (address : Ipv4Addr)
  | v6 (address : Ipv6Addr)
deriving DecidableEq, Repr

def Ipv4Addr.ofSegments (high low : UInt16) : Ipv4Addr :=
  ⟨(high >>> 8).toUInt8, high.toUInt8, (low >>> 8).toUInt8, low.toUInt8⟩

namespace Ipv4Addr
variable (address : Ipv4Addr)

def isPrivate : Bool :=
  address.a == 10 || (address.a == 172 && 16 ≤ address.b && address.b ≤ 31) || (address.a == 192 && address.b == 168)

def isLoopback : Bool := address.a == 127
def isLinkLocal : Bool := address.a == 169 && address.b == 254
def isMulticast : Bool := 224 ≤ address.a && address.a ≤ 239
def isBroadcast : Bool := address == ⟨255, 255, 255, 255⟩
def isUnspecified : Bool := address == ⟨0, 0, 0, 0⟩

end Ipv4Addr

namespace Ipv6Addr
variable (address : Ipv6Addr)

def isLoopback : Bool := address == ⟨0, 0, 0, 0, 0, 0, 0, 1⟩
def isUnspecified : Bool := address == ⟨0, 0, 0, 0, 0, 0, 0, 0⟩
def isMulticast : Bool := address.s0 &&& 0xff00 == 0xff00

/-- The IPv4 address of a compatible or mapped one. -/
def toIpv4 : Option Ipv4Addr :=
  if address.s0 = 0 ∧ address.s1 = 0 ∧ address.s2 = 0 ∧ address.s3 = 0 ∧ address.s4 = 0 ∧
      (address.s5 = 0 ∨ address.s5 = 0xffff) then some (.ofSegments address.s6 address.s7)
  else none

end Ipv6Addr

def publicIpv4 (address : Ipv4Addr) : Bool :=
  !(address.isPrivate || address.isLoopback || address.isLinkLocal || address.isMulticast || address.isBroadcast ||
    address.isUnspecified || address.a == 0 || 240 ≤ address.a || (address.a == 100 && 64 ≤ address.b && address.b ≤ 127) ||
    (address.a == 192 && address.b == 0 && address.c == 0) || (address.a == 192 && address.b == 0 && address.c == 2) ||
    (address.a == 198 && (address.b == 18 || address.b == 19)) ||
    (address.a == 198 && address.b == 51 && address.c == 100) || (address.a == 203 && address.b == 0 && address.c == 113))

def publicIpv6 (address : Ipv6Addr) : Bool :=
  match address.toIpv4 with
  | some mapped => publicIpv4 mapped
  | none =>
    !(address.isLoopback || address.isUnspecified || address.isMulticast ||
      -- Unique-local and link-local.
      (address.s0 &&& 0xfe00) == 0xfc00 || (address.s0 &&& 0xffc0) == 0xfe80 ||
      -- Discard-only, NAT64, Teredo, ORCHID, documentation and 6to4.
      (address.s0 == 0x0100 && address.s1 == 0) || (address.s0 == 0x0064 && address.s1 == 0xff9b) ||
      (address.s0 == 0x2001 && address.s1 == 0) || (address.s0 == 0x2001 && (address.s1 &&& 0xfff0) == 0x0010) ||
      (address.s0 == 0x2001 && address.s1 == 0x0db8) || address.s0 == 0x2002)

def publicIp : IpAddr → Bool
  | .v4 address => publicIpv4 address
  | .v6 address => publicIpv6 address

/-! ## Literals

The parser of the standard library: each reader takes a prefix and returns the rest. -/

abbrev Reader (α : Type) := List Char → Option (α × List Char)

def readGivenChar (c : Char) : List Char → Option (List Char)
  | [] => none
  | first :: rest => if first = c then some rest else none

def readSeparator {α : Type} (separator : Char) (index : Nat) (inner : Reader α) : Reader α := fun text =>
  if 0 < index then (readGivenChar separator text).bind inner else inner text

def toDigit (radix : Nat) (c : Char) : Option Nat :=
  let digit :=
    if '0' ≤ c ∧ c ≤ '9' then some (c.toNat - '0'.toNat)
    else if 'a' ≤ c ∧ c ≤ 'f' then some (c.toNat - 'a'.toNat + 10)
    else if 'A' ≤ c ∧ c ≤ 'F' then some (c.toNat - 'A'.toNat + 10)
    else none
  digit.filter (· < radix)

def readNumber (radix maxDigits limit : Nat) (allowZeroPrefix : Bool) : Reader Nat := fun text =>
  let digits := text.takeWhile fun c => (toDigit radix c).isSome
  let value := (digits.filterMap (toDigit radix)).foldl (fun value digit => value * radix + digit) 0
  if digits = [] ∨ maxDigits < digits.length ∨ limit ≤ value then none
  else if !allowZeroPrefix && digits.head? == some '0' && 1 < digits.length then none
  else some (value, text.drop digits.length)

def readOctet (index : Nat) : Reader UInt8 := fun text =>
  (readSeparator '.' index (readNumber 10 3 256 false) text).map fun (value, rest) => (UInt8.ofNat value, rest)

def readIpv4Addr : Reader Ipv4Addr := fun text => do
  let (a, text) ← readOctet 0 text
  let (b, text) ← readOctet 1 text
  let (c, text) ← readOctet 2 text
  let (d, text) ← readOctet 3 text
  return (⟨a, b, c, d⟩, text)

def readSegment (index : Nat) : Reader UInt16 := fun text =>
  (readSeparator ':' index (readNumber 16 4 65536 true) text).map fun (value, rest) => (UInt16.ofNat value, rest)

/-- The segments read, whether the last two came as an IPv4 address, and the rest. -/
def readGroups (limit : Nat) : Nat → Nat → List Char → List UInt16 × Bool × List Char
  | 0, _, text => ([], false, text)
  | left + 1, index, text =>
    match if index + 1 < limit then readSeparator ':' index readIpv4Addr text else none with
    | some (v4, text) =>
      ([v4.a.toUInt16 <<< 8 ||| v4.b.toUInt16, v4.c.toUInt16 <<< 8 ||| v4.d.toUInt16], true, text)
    | none =>
      match readSegment index text with
      | none => ([], false, text)
      | some (segment, text) =>
        let (segments, endsInIpv4, text) := readGroups limit left (index + 1) text
        (segment :: segments, endsInIpv4, text)

def Ipv6Addr.ofSegments : List UInt16 → Option Ipv6Addr
  | [s0, s1, s2, s3, s4, s5, s6, s7] => some ⟨s0, s1, s2, s3, s4, s5, s6, s7⟩
  | _ => none

def readIpv6Addr : Reader Ipv6Addr := fun text => do
  let (head, endsInIpv4, text) := readGroups 8 8 0 text
  if head.length = 8 then
    let address ← Ipv6Addr.ofSegments head
    return (address, text)
  if endsInIpv4 then none
  let text ← readGivenChar ':' text
  let text ← readGivenChar ':' text
  -- The two colons stand for one segment of zeros at least.
  let limit := 8 - (head.length + 1)
  let (tail, _, text) := readGroups limit limit 0 text
  let address ← Ipv6Addr.ofSegments (head ++ List.replicate (8 - head.length - tail.length) 0 ++ tail)
  return (address, text)

/-- `parse::<IpAddr>`: nothing may follow the address. -/
def IpAddr.parse (text : List Char) : Option IpAddr :=
  match readIpv4Addr text with
  | some (address, []) => some (.v4 address)
  | some _ => none
  | none =>
    match readIpv6Addr text with
    | some (address, []) => some (.v6 address)
    | _ => none

/-! ## URLs and the network -/

structure SocketAddr where
  ip : IpAddr
  port : Nat
deriving DecidableEq, Repr

structure Url where
  scheme : String
  username : String
  password : Option String
  hostStr : Option String
  port : Option Nat
  path : String
  fragment : Option String
deriving DecidableEq, Repr

namespace Url

def portOrKnownDefault (url : Url) : Option Nat :=
  url.port.or (if url.scheme = "http" ∨ url.scheme = "ws" then some 80
    else if url.scheme = "https" ∨ url.scheme = "wss" then some 443
    else if url.scheme = "ftp" then some 21
    else none)

end Url

inductive Method where
  | head
  | get
deriving DecidableEq, Repr

structure HttpClient where
  resolve : Option (String × SocketAddr)
deriving DecidableEq, Repr

structure HttpResponse where
  status : Nat
  location : Option String
deriving DecidableEq, Repr

def HttpResponse.isRedirection (response : HttpResponse) : Bool := 300 ≤ response.status && response.status < 400
def HttpResponse.isSuccess (response : HttpResponse) : Bool := 200 ≤ response.status && response.status < 300

/-- What is given: the URL library, and at every turn what the resolver answers, whether a client can be built,
where a request is connected to and what comes back. `none` is a failure or a timeout. -/
structure Network where
  parse : String → Option Url
  join : Url → String → Option Url
  asStr : Url → String
  lookup : Nat → String → Nat → Option (List SocketAddr)
  builds : Nat → Bool
  connect : Nat → HttpClient → Url → SocketAddr
  respond : Nat → HttpClient → Method → Url → Option HttpResponse

inductive CheckError where
  | blocked
  | unavailable
deriving DecidableEq, Repr

/-- A connection with the URL it is for and the lookup it was pinned by. -/
structure Connection where
  url : Url
  answers : Option (List SocketAddr)
  address : SocketAddr
deriving DecidableEq, Repr

structure Fetches where
  turn : Nat
  connections : List Connection
deriving DecidableEq, Repr

def Fetches.start : Fetches := ⟨0, []⟩

def maxUrlBytes : Nat := 2048
def maxRedirects : Nat := 3
def maxUrlRedirects : Nat := 5

namespace Network
variable (net : Network)

def parsePublicUrl (raw : String) : Except CheckError Url :=
  if maxUrlBytes < raw.utf8ByteSize then .error .blocked
  else
    match net.parse raw with
    | none => .error .blocked
    | some url =>
      if (url.scheme ≠ "http" ∧ url.scheme ≠ "https") ∨ url.username ≠ "" ∨ url.password.isSome ∨
          url.hostStr.isNone then .error .blocked
      else .ok { url with fragment := none }

end Network

/-- The host without the brackets of an IPv6 literal. -/
def stripBrackets (host : List Char) : List Char :=
  match host with
  | '[' :: inner => if inner.getLast? = some ']' then inner.dropLast else host
  | _ => host

def literalIp (host : String) : Option IpAddr := IpAddr.parse (stripBrackets host.toList)

namespace Network
variable (net : Network)

/-- `pinned_client`, with the answers of its lookup. -/
def pinnedClient (turn : Nat) (url : Url) : Except CheckError (HttpClient × Option (List SocketAddr)) :=
  match url.hostStr, url.portOrKnownDefault with
  | some host, some port =>
    match literalIp host with
    | some address =>
      if publicIp address then
        if net.builds turn then .ok (⟨none⟩, none) else .error .unavailable
      else .error .blocked
    | none =>
      match net.lookup turn host port with
      | none => .error .unavailable
      | some answers =>
        match answers.find? fun address => publicIp address.ip with
        | none => .error .blocked
        | some address => if net.builds turn then .ok (⟨some (host, address)⟩, some answers) else .error .unavailable
  | _, _ => .error .blocked

/-- `pinned_request` and `pinned_public_get`: a client of its own for every request. -/
def pinnedRequest (fetches : Fetches) (method : Method) (url : Url) : Fetches × Except CheckError HttpResponse :=
  let next := { fetches with turn := fetches.turn + 1 }
  match net.pinnedClient fetches.turn url with
  | .error e => (next, .error e)
  | .ok (client, answers) =>
    let connection := ⟨url, answers, net.connect fetches.turn client url⟩
    ({ next with connections := fetches.connections ++ [connection] },
      match net.respond fetches.turn client method url with
      | none => .error .unavailable
      | some response => .ok response)

/-! ## The link check -/

/-- The request of one hop; a refused `HEAD` is made again as a `GET`. -/
def checkHop (fetches : Fetches) (url : Url) : Fetches × Except CheckError HttpResponse :=
  match net.pinnedRequest fetches .head url with
  | (fetches, .error e) => (fetches, .error e)
  | (fetches, .ok response) =>
    if response.status = 405 then net.pinnedRequest fetches .get url else (fetches, .ok response)

/-- The rounds of the loop, with the redirects that may still be followed. -/
def followHops : Nat → Fetches → Url → Bool → Fetches × Except CheckError (Nat × String × Bool)
  | left, fetches, url, redirected =>
    match net.checkHop fetches url with
    | (fetches, .error e) => (fetches, .error e)
    | (fetches, .ok response) =>
      if !response.isRedirection then (fetches, .ok (response.status, net.asStr url, redirected))
      else
        match left with
        | 0 => (fetches, .ok (response.status, net.asStr url, true))
        | left + 1 =>
          match response.location with
          | none => (fetches, .error .unavailable)
          | some location =>
            match net.join url location with
            | none => (fetches, .error .blocked)
            | some joined =>
              match net.parsePublicUrl (net.asStr joined) with
              | .error e => (fetches, .error e)
              | .ok url => followHops left fetches url true

def followUrl (raw : String) : Fetches × Except CheckError (Nat × String × Bool) :=
  match net.parsePublicUrl raw with
  | .error e => (.start, .error e)
  | .ok url => net.followHops maxRedirects .start url false

structure LinkCheck where
  url : String
  status : String
  httpStatus : Option Nat
  finalUrl : Option String
  checkedAtMs : Millis
deriving DecidableEq, Repr

def checkUrl (raw : String) (checkedAt : Millis) : Fetches × LinkCheck :=
  match net.followUrl raw with
  | (fetches, .ok (status, finalUrl, redirected)) =>
    let state :=
      if status = 404 ∨ status = 410 then "missing"
      else if (200 ≤ status ∧ status < 300) ∨ (300 ≤ status ∧ status < 400) then
        if redirected then "redirected" else "reachable"
      else "unavailable"
    (fetches, ⟨raw, state, some status, some finalUrl, checkedAt⟩)
  | (fetches, .error .blocked) => (fetches, ⟨raw, "blocked", none, none, checkedAt⟩)
  | (fetches, .error .unavailable) => (fetches, ⟨raw, "unavailable", none, none, checkedAt⟩)

/-! ## The import -/

/-- What ends an import with an answer of its own. -/
inductive ImportError where
  | badRequest (message : String)
  | notFound
  | unavailable (message : String)
deriving DecidableEq, Repr

/-- The characters with the property `White_Space`. -/
def isWhiteSpace (c : Char) : Bool :=
  (9 ≤ c.toNat && c.toNat ≤ 13) || (8192 ≤ c.toNat && c.toNat ≤ 8202) ||
    [32, 133, 160, 5760, 8232, 8233, 8239, 8287, 12288].contains c.toNat

def trim (text : String) : String :=
  String.ofList ((text.toList.dropWhile isWhiteSpace).reverse.dropWhile isWhiteSpace).reverse

def mapUrlError : CheckError → ImportError
  | .blocked => .badRequest "URL is not publicly reachable"
  | .unavailable => .unavailable "web page unavailable"

/-- The redirect loop of the import. -/
def importHops : Nat → Fetches → Url → Fetches × Except ImportError (HttpResponse × Url)
  | left, fetches, current =>
    match net.pinnedRequest fetches .get current with
    | (fetches, .error e) => (fetches, .error (mapUrlError e))
    | (fetches, .ok next) =>
      if !next.isRedirection then (fetches, .ok (next, current))
      else
        match left with
        | 0 => (fetches, .error (.badRequest "too many URL redirects"))
        | left + 1 =>
          match next.location with
          | none => (fetches, .error (.badRequest "URL redirect is invalid"))
          | some location =>
            match net.join current location with
            | none => (fetches, .error (.badRequest "URL redirect is invalid"))
            | some joined =>
              match net.parsePublicUrl (net.asStr joined) with
              | .error e => (fetches, .error (mapUrlError e))
              | .ok current => importHops left fetches current

/-- The import up to the page it converts. -/
def importUrl (raw : String) : Fetches × Except ImportError (HttpResponse × Url) :=
  match net.parsePublicUrl (trim raw) with
  | .error e => (.start, .error (mapUrlError e))
  | .ok url =>
    match net.importHops maxUrlRedirects .start url with
    | (fetches, .error e) => (fetches, .error e)
    | (fetches, .ok (response, current)) =>
      if response.isSuccess then (fetches, .ok (response, current))
      else (fetches, .error (if response.status = 404 then .notFound else .unavailable "web page unavailable"))

end Network

end Marks
