import Redis.DataTypes

/-!
# Commands

The commands of `cmd_builder.rs` and the hand-kept lists that decide what is
propagated and what sets the flags of the backlogs.
-/

namespace Redis

open Lib

inductive AclRules where
  | addPassword (s : String)
  | noPass
  deriving Repr, DecidableEq

inductive CmdArg where
  | ex (x : Option Nat)
  | px (x : Option Nat)
  | listeningPort (port : Nat)
  | capa (s : String)
  | getAck (s : String)
  | ack (offset : Int)
  | get (key : String)
  | fromLonLat (long lat : F64)
  | byRadius (radius : F64)
  | whoAmI
  | getUser (username : String)
  | setUser (key : String) (rules : List AclRules)
  | and (dest key1 key2 : String)
  | or (dest key1 key2 : String)
  deriving Repr, DecidableEq

inductive Cmd where
  | ping
  | pong
  | ok
  | echo (s : String)
  | set (key value : String) (opt : Option CmdArg)
  | get (key : String)
  | rpush (key : String) (value : List String)
  | lrange (key : String) (start stop : Int)
  | lpush (key : String) (value : List String)
  | llen (key : String)
  | lpop (key : String) (length : Option Nat)
  | blpop (key : String) (timeoutMs : Option Nat)
  | type (key : String)
  | xadd (key : String) (id : Option Nat × Option Nat) (value : List String)
  | xrange (key : String) (start stop : Nat × Nat)
  | xread (count blockMs : Option Nat) (stream : List (String × Nat × Nat))
  | incr (key : String)
  | multi
  | exec
  | discard
  | watch (keys : List String)
  | unwatch
  | info (key : String)
  | replconf (arg : CmdArg)
  | psync (id : String) (offset : Int)
  | fullresync (id : String) (offset : Int)
  | rdb (v : Bytes)
  | wait (count : Nat) (timeoutMs : Option Nat)
  | config (arg : CmdArg)
  | keys (arg : String)
  | subscribe (keys : List String)
  | unsubscribe (key : String)
  | psubscribe
  | punsubscribe
  | quit
  | publish (key message : String)
  | zadd (key : String) (score : F64) (member : String)
  | zrank (key member : String)
  | zrange (key : String) (start stop : Int)
  | zcard (key : String)
  | zscore (key member : String)
  | zrem (key member : String)
  | geoadd (key long lat member : String)
  | geopos (key : String) (members : List String)
  | geodist (key : String) (members : List String)
  | geosearch (key : String) (fromArg byArg : CmdArg)
  | acl (opt : CmdArg)
  | auth (username password : String)
  | setbit (key : String) (offset bit : Nat)
  | getbit (key : String) (offset : Nat)
  | strlen (key : String)
  | bitcount (key : String) (range : Option BitRange)
  | bitop (args : CmdArg)
  deriving Repr, DecidableEq

namespace Cmd

/-- The constructor's name as `Debug` prints it. -/
def getName : Cmd → String
  | ping => "PING"
  | pong => "PONG"
  | ok => "OK"
  | echo _ => "ECHO"
  | set .. => "SET"
  | get _ => "GET"
  | rpush .. => "RPUSH"
  | lrange .. => "LRANGE"
  | lpush .. => "LPUSH"
  | llen _ => "LLEN"
  | lpop .. => "LPOP"
  | blpop .. => "BLPOP"
  | type _ => "TYPE"
  | xadd .. => "XADD"
  | xrange .. => "XRANGE"
  | xread .. => "XREAD"
  | incr _ => "INCR"
  | multi => "MULTI"
  | exec => "EXEC"
  | discard => "DISCARD"
  | watch _ => "WATCH"
  | unwatch => "UNWATCH"
  | info _ => "INFO"
  | replconf _ => "REPLCONF"
  | psync .. => "PSYNC"
  | fullresync .. => "FULLRESYNC"
  | rdb _ => "RDB"
  | wait .. => "WAIT"
  | config _ => "CONFIG"
  | keys _ => "KEYS"
  | subscribe _ => "SUBSCRIBE"
  | unsubscribe _ => "UNSUBSCRIBE"
  | psubscribe => "PSUBSCRIBE"
  | punsubscribe => "PUNSUBSCRIBE"
  | quit => "QUIT"
  | publish .. => "PUBLISH"
  | zadd .. => "ZADD"
  | zrank .. => "ZRANK"
  | zrange .. => "ZRANGE"
  | zcard _ => "ZCARD"
  | zscore .. => "ZSCORE"
  | zrem .. => "ZREM"
  | geoadd .. => "GEOADD"
  | geopos .. => "GEOPOS"
  | geodist .. => "GEODIST"
  | geosearch .. => "GEOSEARCH"
  | acl _ => "Acl"
  | auth .. => "Auth"
  | setbit .. => "SETBIT"
  | getbit .. => "GETBIT"
  | strlen _ => "STRLEN"
  | bitcount .. => "BITCOUNT"
  | bitop _ => "BITOP"

def toBeBroadcast : Cmd → Bool
  | set .. | lpush .. | rpush .. | lpop .. | blpop .. | incr _ | xadd .. | setbit .. | bitop _ => true
  | _ => false

def isAuthCmd : Cmd → Bool
  | auth .. => true
  | _ => false

def alwaysResponse : Cmd → Bool
  | replconf (.getAck _) => true
  | _ => false

def isFlagList : Cmd → Bool
  | lpush .. | rpush .. => true
  | _ => false

def isFlagStream : Cmd → Bool
  | xadd .. => true
  | _ => false

/-- `CmdHandler::is_cmd_subscriber_allowed` -/
def isSubscriberAllowed : Cmd → Bool
  | subscribe _ | unsubscribe _ | psubscribe | punsubscribe | ping | quit => true
  | _ => false

def dirtyKey : Cmd → Option String
  | set key .. | lpush key _ | rpush key _ | lpop key _ | blpop key _ | incr key | xadd key .. | setbit key .. =>
    some key
  | bitop (.and dest ..) | bitop (.or dest ..) => some dest
  | _ => none

end Cmd

end Redis
