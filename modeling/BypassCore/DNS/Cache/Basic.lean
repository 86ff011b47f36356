import BypassCore.Geodata.IPMatcher.Basic

/-!
# DNS records

The records of `app/dns/dnscommon.go` that a resolved domain has in the cache, one for each address
family. Times and durations are in nanoseconds.
-/

namespace BypassCore.DNS

def second : Int := 1000000000

structure Header where
  id : UInt16
  response : Bool
  opCode : UInt16
  authoritative : Bool
  truncated : Bool
  recursionDesired : Bool
  recursionAvailable : Bool
  authenticData : Bool
  checkingDisabled : Bool
  rCode : UInt16
deriving DecidableEq

structure IPRecord where
  reqID : UInt16
  ip : List NetIP
  expire : Int
  rCode : UInt16
  rawHeader : Option Header
deriving DecidableEq

structure Record where
  a : Option IPRecord := none
  aaaa : Option IPRecord := none
deriving DecidableEq

def Record.get (r : Record) : Family → Option IPRecord
  | .v4 => r.a
  | .v6 => r.aaaa

@[simp] lemma Record.get_v4 (r : Record) : r.get .v4 = r.a := rfl

@[simp] lemma Record.get_v6 (r : Record) : r.get .v6 = r.aaaa := rfl

/-!
## The DNS cache

`app/dns/cache_controller.go`. The cache is a map from domains to records. A cleanup collects the
keys with an expired record and then removes these records; when the map has shrunk far below its
largest size, the cleanup sets it aside as `dirtyips` and a goroutine copies it into a new map,
one batch at a time. Each function below is what the source does in one critical section.

The two maps share records by pointer. A record is written to in one place only, in
`writeAndShrink`, while there is no migrating map, so the records are modelled by their values.
-/

open Lib

/-- The fields of `CacheController` that its critical sections use. -/
structure CacheController where
  disableCache : Bool
  serveStale : Bool
  serveExpiredTTL : Int32
  ips : GoMap String Record
  dirtyips : Option (GoMap String Record)
  highWatermark : Nat
  closed : Bool

def newCacheController (disableCache serveStale : Bool) (serveExpiredTTL : UInt32) :
    CacheController where
  disableCache := disableCache
  serveStale := serveStale
  serveExpiredTTL := -serveExpiredTTL.toInt32
  ips := ∅
  dirtyips := none
  highWatermark := 0
  closed := false

def minSizeForEmptyRebuild : Nat := 512

def shrinkAbsoluteThreshold : Nat := 10240

def migrationBatchSize : Nat := 4096

namespace CacheController

variable (c : CacheController) (now : Int)

/-- The time that a cleanup compares with: stale records are kept for `serveExpiredTTL`. -/
def cleanupTime : Int :=
  if c.serveStale && c.serveExpiredTTL != 0 then now + c.serveExpiredTTL.toInt * second else now

def expiredBefore (r : Option IPRecord) : Bool :=
  r.any fun r => r.expire < now

def collectExpiredKeys (ord : RangeOrder) : List String :=
  if c.ips.entries.isEmpty then []
  else if c.dirtyips.isSome then []
  else
    let now := c.cleanupTime now
    (ord.order 0 c.ips.entries).filterMap fun e =>
      if expiredBefore now e.2.a || expiredBefore now e.2.aaaa then some e.1 else none

def dropExpired (r : Record) : Record where
  a := if expiredBefore now r.a then none else r.a
  aaaa := if expiredBefore now r.aaaa then none else r.aaaa

def cleanupKey (ips : GoMap String Record) (domain : String) : GoMap String Record :=
  match ips.lookup domain with
  | none => ips
  | some r =>
    let r := dropExpired now r
    if r.a = none ∧ r.aaaa = none then ips.erase domain else ips.insert domain r

/-- Whether the map has shrunk enough to be rebuilt. The source compares with 0.65 times the peak
as floats; the sizes of maps are far too small for that to differ from the exact product. -/
def shrinks (highWatermark lenAfter : Nat) : Bool :=
  let reductionFromPeak := highWatermark - lenAfter
  reductionFromPeak > shrinkAbsoluteThreshold && 20 * reductionFromPeak > 13 * highWatermark

/-- `writeAndShrink`, and whether it starts a `migrate` goroutine. -/
def writeAndShrink (expiredKeys : List String) (now : Int) : CacheController × Bool :=
  if c.dirtyips.isSome then (c, false)
  else
    let highWatermark := max c.ips.entries.length c.highWatermark
    let ips := expiredKeys.foldl (cleanupKey (c.cleanupTime now)) c.ips
    let lenAfter := ips.entries.length
    if lenAfter = 0 then
      if highWatermark ≥ minSizeForEmptyRebuild then
        ({ c with ips := ∅, highWatermark := 0 }, false)
      else ({ c with ips := ips, highWatermark := highWatermark }, false)
    else if shrinks highWatermark lenAfter then
      ({ c with ips := ∅, dirtyips := some ips, highWatermark := lenAfter }, true)
    else ({ c with ips := ips, highWatermark := highWatermark }, false)

/-- One round of the loop of `flush`: what the new map has wins. -/
def flushEntry (ips : GoMap String Record) (dirty : String × Record) : GoMap String Record :=
  match ips.lookup dirty.1 with
  | some cur =>
    ips.insert dirty.1 { a := cur.a.or dirty.2.a, aaaa := cur.aaaa.or dirty.2.aaaa }
  | none => ips.insert dirty.1 dirty.2

def flush (batch : List (String × Record)) : CacheController :=
  { c with ips := batch.foldl flushEntry c.ips }

def clearDirty : CacheController :=
  { c with dirtyips := none }

/-- `updateRecord` from the lock on: the cache after it, and the record of the other family that
may be published again, with its topic. -/
def updateRecord (reqType : Family) (domain : String) (rep : IPRecord) :
    CacheController × Option (String × IPRecord) :=
  if c.disableCache || c.closed then (c, none)
  else
    let oldRec := c.ips.lookup domain
    let dirtyRec := c.dirtyips.bind fun dirtyips => dirtyips.lookup domain
    match reqType with
    | .v4 =>
      let old := oldRec.bind Record.aaaa
      ({ c with ips := c.ips.insert domain { a := some rep, aaaa := old } },
        (old.or (dirtyRec.bind Record.aaaa)).map fun r => (domain ++ "6", r))
    | .v6 =>
      let old := oldRec.bind Record.a
      ({ c with ips := c.ips.insert domain { a := old, aaaa := some rep } },
        (old.or (dirtyRec.bind Record.a)).map fun r => (domain ++ "4", r))

def findRecords (domain : String) : Option Record :=
  (c.ips.lookup domain).or (c.dirtyips.bind fun dirtyips => dirtyips.lookup domain)

def close : CacheController :=
  { c with closed := true }

end CacheController

end BypassCore.DNS
