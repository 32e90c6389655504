import BatchingCache.Config
/-!
# Addresses

Where a server is to be found: a host with the numbers of a service and of a database, or a
socket of the file system.  Addresses are URLs; everything that can be wrong with one is found
before anything is sent.
-/

namespace BatchingCache.Wire

inductive Address where
  | server (host : String) (service : Nat) (database : Int)
  | socket (path : String)
  deriving DecidableEq, Repr

inductive AddressFlaw where
  | unparsable
  | missingHost
  /-- Connections are not encrypted. -/
  | encrypted
  | invalidDatabase
  | missingPath
  deriving DecidableEq, Repr

def AddressFlaw.message (f : AddressFlaw) : String :=
  (match f with
    | .unparsable => "Redis URL did not parse"
    | .missingHost => "Missing hostname"
    | .encrypted => "can't connect with TLS, the feature is not enabled"
    | .invalidDatabase => "Invalid database number"
    | .missingPath => "Missing path") ++ "- InvalidClientConfig"

namespace Address

/-- The characters of a URL: those at the ends up to the blank do not count, nor do tabs and
line breaks anywhere. -/
def urlChars (url : String) : List Char :=
  let outer (c : Char) : Bool := c ≤ ' '
  let cs := ((url.toList.dropWhile outer).reverse.dropWhile outer).reverse
  cs.filter fun c => c ≠ '\t' && c ≠ '\n' && c ≠ '\r'

def isScheme : List Char → Bool
  | [] => false
  | c :: cs => c.isAlpha && cs.all fun c => c.isAlphanum || ['+', '-', '.'].contains c

def endsAuthority (c : Char) : Bool := ['/', '?', '#'].contains c

def isForbiddenInHost (c : Char) : Bool :=
  ['\x00', ' ', ':', '<', '>', '@', '[', '\\', ']', '^', '|'].contains c

/-- Whether the characters are an address of the sixth version of the internet protocol, as far
as its alphabet goes. -/
def isNumericHost (cs : List Char) : Bool :=
  cs ≠ [] && cs.all fun c => c.isDigit || ('a' ≤ c.toLower && c.toLower ≤ 'f') ||
    c = ':' || c = '.'

def splitHost (cs : List Char) : Option (List Char × List Char) :=
  match cs with
  | '[' :: cs =>
    let host := cs.takeWhile (· ≠ ']')
    match cs.dropWhile (· ≠ ']') with
    | ']' :: rest => if isNumericHost host then some (host, rest) else none
    | _ => none
  | cs =>
    let host := cs.takeWhile (· ≠ ':')
    if host.any isForbiddenInHost then none else some (host, cs.dropWhile (· ≠ ':'))

def service? : List Char → Option Nat
  | [] => some 6379
  | [':'] => some 6379
  | ':' :: cs => (Decimal.ofChars? cs).filter (· < UInt16.size)
  | _ => none

/-- The host and the number of the service that an authority names.  The host may only be empty
where there is nothing else. -/
def hostAndService? (authority : List Char) : Option (List Char × Nat) := do
  let user := (authority.reverse.dropWhile (· ≠ '@')).reverse.dropLast
  let (host, rest) ← splitHost (authority.reverse.takeWhile (· ≠ '@')).reverse
  let service ← service? rest
  if host = [] && !(user = [] && rest = []) then none else some (host, service)

def database? (path : List Char) : Option Int :=
  let inner := ((path.dropWhile (· = '/')).reverse.dropWhile (· = '/')).reverse
  if inner = [] then some 0
  else (Decimal.ofText? true (String.ofList inner)).filter fun n =>
    Int64.minValue.toInt ≤ n && n ≤ Int64.maxValue.toInt

def ofServer (encrypted : Bool) (rest : List Char) : Except AddressFlaw Address :=
  match rest with
  | '/' :: '/' :: rest =>
    match hostAndService? (rest.takeWhile (!endsAuthority ·)) with
    | none => .error .unparsable
    | some ([], _) => .error .missingHost
    | some (host, service) =>
      if encrypted then .error .encrypted
      else
        let path := (rest.dropWhile (!endsAuthority ·)).takeWhile fun c => c ≠ '?' && c ≠ '#'
        match database? path with
        | none => .error .invalidDatabase
        | some n => .ok (.server (String.ofList host) service n)
  | _ => .error .missingHost

def ofSocket (rest : List Char) : Except AddressFlaw Address :=
  let path := rest.takeWhile fun c => c ≠ '?' && c ≠ '#'
  match path with
  | '/' :: '/' :: '/' :: _ => .ok (.socket (String.ofList (path.drop 2)))
  | '/' :: '/' :: _ => .error .missingPath
  | '/' :: _ => .ok (.socket (String.ofList path))
  | _ => .error .missingPath

def ofUrl (url : String) : Except AddressFlaw Address :=
  let cs := urlChars url
  let scheme := cs.takeWhile (· ≠ ':')
  match cs.dropWhile (· ≠ ':') with
  | [] => .error .unparsable
  | _ :: rest =>
    if !isScheme scheme then .error .unparsable
    else
      match String.ofList (scheme.map Char.toLower) with
      | "redis" => ofServer false rest
      | "rediss" => ofServer true rest
      | "unix" => ofSocket rest
      | "redis+unix" => ofSocket rest
      | _ => .error .unparsable

end Address

end BatchingCache.Wire

namespace BatchingCache

def Config.address (c : Config) : Except CacheError Wire.Address :=
  match c.redisUrl with
  | none => .error (.config .noAddress)
  | some url => (Wire.Address.ofUrl url).mapError fun f => .store (.backend f.message)

end BatchingCache
