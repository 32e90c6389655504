import BatchingCache.Number.Shortest
import BatchingCache.Store.Mutation
/-!
# Commands

What is sent to a server for each call: a list of words, numbers among them in decimal.  A
comparison and a write that must not be torn apart, and a page of a scan with its values, are
scripts that the server runs.
-/

namespace BatchingCache.Wire

abbrev Command := List Bytes

def words (texts : List String) : Command := texts.map Utf8.encode

/-! ## Numbers -/

/-- Scores are written positionally from `10^-5` to below `10^16`, and without a plus sign. -/
def scoreLayout : DecimalLayout := ⟨-5, 15, false⟩

def scoreText (x : Binary64) : String :=
  if x.isFinite then scoreLayout.write x
  else if x.isNaN then "NaN"
  else if x.isNegative then "-inf"
  else "inf"

/-- The milliseconds, in 64 bits, after which a value expires.  Servers refuse zero. -/
def expiryMillis (ttl : Duration) : Nat :=
  max (ttl.millis % UInt64.size) 1

/-! ## Scripts -/

/-- A script, with the digest by which a server knows it once it has seen it. -/
structure Script where
  text : String
  digest : String

namespace Script

def textOfLines (lines : List String) : String :=
  String.join (("" :: lines).map (· ++ "\n"))

def compareAndSet : Script where
  text := textOfLines
    ["if redis.call('GET', KEYS[1]) == ARGV[1] then",
     "    redis.call('SET', KEYS[1], ARGV[2])",
     "    return 1",
     "end",
     "return 0"]
  digest := "bbc21bfc9b42671176c77b951ea0618fbdfaafdd"

def scan : Script where
  text := textOfLines
    ["local reply = redis.call('SCAN', ARGV[1], 'MATCH', ARGV[3], 'COUNT', ARGV[2])",
     "local result = \x7b reply[1] \x7d",
     "for _, key in ipairs(reply[2]) do",
     "    if redis.call('TYPE', key)['ok'] == 'string' then",
     "        local value = redis.call('GET', key)",
     "        if value then",
     "            table.insert(result, key)",
     "            table.insert(result, value)",
     "        end",
     "    end",
     "end",
     "return result"]
  digest := "3c103cf6e1a3fa26383d7d332e4c8d9e85da43f0"

def operands (keys : List String) (args : List Bytes) : Command :=
  words (Decimal.natText keys.length :: keys) ++ args

def callCommand (s : Script) (keys : List String) (args : List Bytes) : Command :=
  words ["EVALSHA", s.digest] ++ operands keys args

def loadCommand (s : Script) : Command :=
  words ["SCRIPT", "LOAD", s.text]

end Script

/-! ## Commands of calls -/

namespace Command

def get (key : String) : Command := words ["GET", key]

def set (key : String) (value : Bytes) (ttl : Option Duration) : Command :=
  words ["SET", key] ++ value ::
    match ttl with
    | none => []
    | some ttl => words ["PX", Decimal.natText (expiryMillis ttl)]

def delete (key : String) : Command := words ["DEL", key]

def scoredAdd (key : String) (score : Binary64) (member : Bytes) : Command :=
  words ["ZADD", key, scoreText score] ++ [member]

def scoredRange (key : String) (start stop : Int64) (reversed : Bool) : Command :=
  words [if reversed then "ZREVRANGE" else "ZRANGE", key, Decimal.intText start.toInt,
    Decimal.intText stop.toInt]

def mapPut (key : String) (fields : List (String × Bytes)) : Command :=
  words ["HMSET", key] ++ fields.flatMap fun (name, value) => [Utf8.encode name, value]

def mapGet (key : String) : Command := words ["HGETALL", key]

def mapGetFields (key : String) (names : List String) : Command := words ("HMGET" :: key :: names)

def mapDeleteFields (key : String) (names : List String) : Command :=
  words ("HDEL" :: key :: names)

end Command

/-- The command of a mutation in a batch.  Nothing can be sent again there, so a script goes as its
text, which need not be known to the server. -/
def commandOf : Mutation → Command
  | .set key value none => words ["SET", key] ++ [value]
  | .set key value (some ttl) =>
    words ["SET", key] ++ value :: words ["PX", Decimal.natText (expiryMillis ttl)]
  | .compareAndSet key expected value =>
    words ["EVAL", Script.compareAndSet.text, "1", key] ++ [expected, value]
  | .delete key => words ["DEL", key]
  | .scoredAdd key score member => words ["ZADD", key, scoreText score] ++ [member]

end BatchingCache.Wire
