import Overworld.Failure
import Overworld.Number.Binary64
import Overworld.Web.Status
import Overworld.Web.Url

/-!
# Sources on the web

Files of a source below an address. Requests are throttled by a bucket: it holds a number
of requests at first, and one more is added at a steady rate.
-/

set_option autoImplicit false

namespace Overworld.Source

/-- A source on the web. Without a positive rate requests are not throttled. -/
structure Site where
  base : Bytes
  rate : Binary64
  burst : Int

inductive Response where
  | failed (reason : String)
  /-- A status and a body, which may break off for a reason. -/
  | answered (status : Nat) (body : Bytes) (brokenOff : Option String)

/-- Circumstances of a run: whether it was called off, and how many seconds are left. -/
structure Circumstances where
  canceled : Bool
  secondsLeft : Option Nat

/-- What a fetch gave: its outcome, the address asked for if it came so far, and the
number of requests let through. -/
structure Fetched where
  outcome : Except Failure Bytes
  requested : Option Bytes
  used : Nat

namespace Site

def capacity (s : Site) : Nat := (max 1 s.burst).toNat

/-- Whether waiting for one request at a rate takes longer than some seconds. -/
def isSlower (rate : Binary64) (seconds : Nat) : Bool :=
  match rate with
  | .finite _ m e =>
    if e < 0 then m * seconds < Nat.pow 2 e.natAbs else m * Nat.pow 2 e.natAbs * seconds < 1
  | _ => false

def wait (s : Site) (c : Circumstances) (used : Nat) : Except Failure Unit :=
  if c.canceled then fail .canceled
  else if !s.rate.isPositive || used < s.capacity then .ok ()
  else match c.secondsLeft with
    | none => .ok ()
    | some seconds =>
      if isSlower s.rate seconds then
        fail (.other "rate: Wait(n=1) would exceed context deadline")
      else .ok ()

def address (s : Site) (path : Bytes) : Bytes :=
  Bytes.trimRight 0x2F s.base ++ 0x2F :: Bytes.trimLeft 0x2F path

def receive (url : Bytes) (u : Url) : Response → Except Failure Bytes
  | .failed reason =>
    inStep ("fetching " ++ Utf8.shown url)
      (fail (.other ("Get " ++ Quoted.quote u.redacted ++ ": " ++ reason)))
  | .answered status body brokenOff =>
    if status ≠ 200 then
      inStep ("fetching " ++ Utf8.shown url) (fail (.status (Web.statusText status)))
    else match brokenOff with
      | some reason => inStep ("reading " ++ Utf8.shown url) (fail (.other reason))
      | none => .ok body

def fetch (s : Site) (transport : Bytes → Response) (c : Circumstances) (used : Nat)
    (path : Bytes) : Fetched :=
  match s.wait c used with
  | .error f => ⟨.error (f.within ("waiting to fetch " ++ Utf8.shown path)), none, used⟩
  | .ok () =>
    let url := s.address path
    match Url.parse url with
    | none => ⟨inStep ("building request for " ++ Utf8.shown url) (fail .url), none, used + 1⟩
    | some u =>
      let u := u.withoutEmptyPort
      ⟨receive url u (transport u.text), some u.text, used + 1⟩

end Site

def refused (url : Bytes) : Response :=
  let host := match Url.parse url with
    | some u =>
      if u.host.contains 0x3A then u.host
      else u.host ++ utf8 (if u.scheme = utf8 "https" then ":443" else ":80")
    | none => []
  .failed ("dial tcp " ++ Utf8.shown host ++ ": connect: connection refused")

end Overworld.Source
