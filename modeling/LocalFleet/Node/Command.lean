import LocalFleet.Files.Path
import LocalFleet.Json.Printer

/-! The command line of a node process: the argument vector for a supervisor, the text of a shell
command, and the script that starts a whole fleet. -/

namespace LocalFleet

structure StakingCert where
  keyPath : String
  certPath : String
  nodeId : String
  deriving DecidableEq, Repr

structure Bootstrap where
  ip : String
  nodeId : String
  deriving DecidableEq, Repr

structure NodeCommand where
  name : String
  nodeId : String
  binary : String
  httpPort : UInt16
  stakingPort : UInt16
  args : List (String × String)
  deriving DecidableEq, Repr

namespace NodeCommand

/-- How many nodes of a fleet are sampled, and how many of them have to agree. -/
def quorum (nodeCount : Nat) : Nat := max (nodeCount / 2) 1

def new (name binary networkId logLevel : String) (httpPort stakingPort : UInt16) (nodeCount : Nat)
    (dbDir : String) (cert : StakingCert) (bootstrap : Option Bootstrap) : NodeCommand where
  name := name
  nodeId := cert.nodeId
  binary := binary
  httpPort := httpPort
  stakingPort := stakingPort
  args :=
    [("log-level", logLevel),
     ("network-id", networkId),
     ("public-ip", "127.0.0.1"),
     ("http-port", toString httpPort),
     ("snow-sample-size", toString (quorum nodeCount)),
     ("snow-quorum-size", toString (quorum nodeCount)),
     ("db-dir", dbDir),
     ("staking-enabled", "true"),
     ("staking-port", toString stakingPort),
     ("bootstrap-ips", (bootstrap.map Bootstrap.ip).getD ""),
     ("bootstrap-ids", (bootstrap.map Bootstrap.nodeId).getD ""),
     ("staking-tls-key-file", cert.keyPath),
     ("staking-tls-cert-file", cert.certPath)]

def arg (c : NodeCommand) (flag value : String) : NodeCommand :=
  { c with args := c.args ++ [(flag, value)] }

def toArgs (c : NodeCommand) : List String := c.args.map fun (flag, value) => s!"--{flag}={value}"

def uri (c : NodeCommand) : String := s!"http://127.0.0.1:{c.httpPort}"

/-- The line that stops whatever listens on a port. -/
def killLine (port : UInt16) : String := s!"kill -9 $(lsof -t -i:{port})\n"

/-- The command as a block of shell lines: what listens on its ports is stopped first, and each
argument has a line of its own. -/
def text (c : NodeCommand) : String :=
  s!"# commands for {c.name}, {c.nodeId}\n" ++ killLine c.httpPort ++ killLine c.stakingPort
    ++ c.binary ++ String.join (c.toArgs.map (" \\\n" ++ ·)) ++ "\n"

end NodeCommand

namespace Script

def opening : String := "#!/bin/bash\nset -e\nset -x\n\n\n"

/-- The last lines: a call that lists the peers of the first node. -/
def closing : String :=
  "\n# use this to test API\ncurl -X POST --data '\x7b\n\t\"jsonrpc\":\"2.0\",\n\t\"id\"     :1,\n"
    ++ "\t\"method\" :\"info.peers\"\n\x7d' \\\n-H 'content-type:application/json;' \\\n"
    ++ "127.0.0.1:9650/ext/info\n\n"

def ordinal (n : Nat) : String := if n < 10 then s!"0{n}" else toString n

def block (i : Nat) (c : NodeCommand) : String := s!"# [{ordinal (i + 1)}]\n{c.text}\n\n"

def render (commands : List NodeCommand) : String :=
  opening ++ String.join (commands.mapIdx block) ++ closing

end Script

namespace Shell

/-- A line continued by a backslash before its end is one line with the next. -/
def unfoldLines : List Char → List Char
  | '\\' :: '\n' :: text => unfoldLines text
  | c :: text => c :: unfoldLines text
  | [] => []

def isBlank (c : Char) : Bool := c = ' ' || c = '\t' || c = '\n'

inductive Quoting where
  | none
  | single
  | double
  deriving DecidableEq, Repr

/-- Whether a backslash between double quotes takes away a meaning of the next character. -/
def isEscapable (c : Char) : Bool := "$`\"\\".toList.contains c

/-- The words of a command. Blanks outside quotes separate; quotes are taken off; a backslash
outside quotes keeps the next character as it is, and between double quotes it does so where that
character has a meaning. `word` is the word begun, if one is. -/
def wordsFrom (word : Option (List Char)) : Quoting → List Char → List (List Char)
  | _, [] => word.toList.map List.reverse
  | .none, '\\' :: c :: text => wordsFrom (some (c :: word.getD [])) .none text
  | .none, '\'' :: text => wordsFrom (some (word.getD [])) .single text
  | .none, '"' :: text => wordsFrom (some (word.getD [])) .double text
  | .none, c :: text =>
    if isBlank c then word.toList.map List.reverse ++ wordsFrom none .none text
    else wordsFrom (some (c :: word.getD [])) .none text
  | .single, c :: text =>
    if c = '\'' then wordsFrom word .none text else wordsFrom (some (c :: word.getD [])) .single text
  | .double, '\\' :: c :: text =>
    if isEscapable c then wordsFrom (some (c :: word.getD [])) .double text
    else wordsFrom (some (c :: '\\' :: word.getD [])) .double text
  | .double, c :: text =>
    if c = '"' then wordsFrom word .none text else wordsFrom (some (c :: word.getD [])) .double text

def words (command : String) : List String :=
  (wordsFrom none .none (unfoldLines command.toList)).map String.ofList

end Shell

def nodeConfig (logDir logLevel : String) (whitelistedSubnets : List String) : Json.Value :=
  .record
    [("api-admin-enabled", .bool true),
     ("api-ipcs-enabled", .bool true),
     ("health-check-frequency", .str "2s"),
     ("index-enabled", .bool true),
     ("log-dir", .str logDir),
     ("log-display-level", .str logLevel),
     ("log-level", .str logLevel),
     ("network-max-reconnect-delay", .str "1s"),
     ("network-peer-list-gossip-frequency", .str "250ms"),
     ("public-ip", .str "127.0.0.1"),
     ("whitelisted-subnets", .str (",".intercalate whitelistedSubnets))]

end LocalFleet
