import Rlaas.Lib.Keyed
import Rlaas.Go.Time

/-! `CheckAndAddTimestamps` of package `redis`: a Lua script on a sorted set. The
scores and the other numbers of the script are taken to be exact; what the server
reads besides its arguments are its clock, in milliseconds, and the values of
`math.random`. -/

set_option autoImplicit false

namespace Rlaas.Store.Redis

open Go

/-- A sorted set, as members with their scores; one without members does not exist. -/
structure SortedSet where
  members : List (String × Int) := []
  deadline : Option Int := none

namespace SortedSet

/-- A key is gone when its deadline has passed. -/
def expired (server : Int) (set : SortedSet) : Bool :=
  set.deadline.any fun deadline => deadline < server

def live (server : Int) (set : SortedSet) : SortedSet := if set.expired server then {} else set

/-- `ZREMRANGEBYSCORE key -inf max`, after which an empty set is deleted. -/
def zremrangebyscore (max : Int) (set : SortedSet) : SortedSet :=
  let members := set.members.filter fun entry => max < entry.2
  if members.isEmpty then {} else { set with members }

/-- `ZCOUNT key min +inf`. -/
def zcount (min : Int) (set : SortedSet) : Int := set.members.countP fun entry => min ≤ entry.2

/-- `ZADD key score member`, which gives a member that exists the new score. -/
def zadd (score : Int) (member : String) (set : SortedSet) : SortedSet :=
  { set with members := (Keyed.upsert Prod.fst (member, score) set.members).2 }

def pexpire (server ttl : Int) (set : SortedSet) : SortedSet :=
  if set.members.isEmpty then set else { set with deadline := some (server + ttl) }

end SortedSet

/-- The member the script adds in round `i`; `tostring` is that of Lua. -/
def member (tostring : Nat → String) (ts : Int) (i random : Nat) : String :=
  toString ts ++ ":" ++ tostring i ++ ":" ++ tostring random

/-- The members of one run of the loop, with the values drawn in its rounds. -/
def members (tostring : Nat → String) (random : Nat → Nat) (cost ts : Int) : List String :=
  (List.range cost.toNat).map fun n => member tostring ts (n + 1) (random (n + 1))

def checkAndAddTSScript (tostring : Nat → String) (server : Int) (random : Nat → Nat)
    (cutoff limit cost ts ttl : Int) (set : SortedSet) : (Int × Int) × SortedSet :=
  let set := (set.live server).zremrangebyscore cutoff
  let count := set.zcount cutoff
  if count + cost > limit then ((count, 0), set)
  else
    let set := (members tostring random cost ts).foldl (fun set member => set.zadd ts member) set
    ((count, 1), if ttl > 0 then set.pexpire server ttl else set)

def checkAndAddTimestamps (tostring : Nat → String) (server : Int) (random : Nat → Nat)
    (cutoff limit cost ts : Int) (ttl : Duration) (set : SortedSet) : (Int × Bool) × SortedSet :=
  let ms := if ttl > 0 then Int.tdiv ttl 1000000 else 0
  let (answer, set) := checkAndAddTSScript tostring server random cutoff limit cost ts ms set
  ((answer.1, answer.2 == 1), set)

end Rlaas.Store.Redis
