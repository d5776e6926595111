import Mathlib.Algebra.Ring.Int.Defs
import Mathlib.Data.List.TakeWhile
import WslPlus.Lib.ShellFields

/-!
# Network configuration files

The init process reads five files line by line, splits each line into words, and runs a
shell command for each line that has enough of them: rate limits, firewall rules,
tunnels, static addresses and VLAN interfaces. A text is the list of its bytes, each
as the character with its code.
-/

namespace WslPlus.NetConfig

/-- `fgets` into a buffer until the end of the file; the first argument is what the buffer has. -/
def fgetsLines (size : Nat) : List Char → List Char → List (List Char)
  | line, [] => if line = [] then [] else [line]
  | line, c :: rest =>
    if c = '\n' || line.length + 2 = size then (line ++ [c]) :: fgetsLines size [] rest
    else fgetsLines size (line ++ [c]) rest

def lineText (line : List Char) : List Char := line.takeWhile (· ≠ '\x00')

def isSpace (c : Char) : Bool := c = ' ' || ('\t' ≤ c && c ≤ '\r')

/-- A word extracted from a stream. -/
structure Token where
  text : List Char
  nonempty : text ≠ []
  noSpace : ∀ c ∈ text, isSpace c = false

/-- `stream >> word`, with what is left of the stream. -/
def readToken (stream : List Char) : Option (Token × List Char) :=
  let rest := stream.dropWhile isSpace
  let word := rest.takeWhile fun c => !isSpace c
  if h : word = [] then none
  else
    some (⟨word, h, fun _ hc => by simpa using List.mem_takeWhile_imp hc⟩, rest.dropWhile fun c => !isSpace c)

/-- `stream >> number` for an `int`: an optional sign and digits, in range. -/
def readInt (stream : List Char) : Option (Int × List Char) :=
  let rest := stream.dropWhile isSpace
  let negative : Bool := rest.head? = some '-'
  let unsigned := if negative || rest.head? = some '+' then rest.drop 1 else rest
  let digits := unsigned.takeWhile Char.isDigit
  let magnitude : Int := Nat.ofDigitChars 10 digits 0
  let value := if negative then -magnitude else magnitude
  if digits = [] || value < -2 ^ 31 || 2 ^ 31 ≤ value then none
  else some (value, unsigned.dropWhile Char.isDigit)

def readOptional (stream : List Char) : Option Token := (readToken stream).map Prod.fst

structure QosRule where
  iface : Token
  rateMbps : Nat

def parseQos (line : List Char) : Option QosRule := do
  let (iface, s) ← readToken line
  let (rateMbps, _) ← readInt s
  if rateMbps ≤ 0 then none else some ⟨iface, rateMbps.toNat⟩

structure AclRule where
  action : Token
  proto : Token
  src : Token
  dport : Option Token

def parseAcl (line : List Char) : Option AclRule := do
  let (action, s) ← readToken line
  let (proto, s) ← readToken s
  let (src, s) ← readToken s
  some ⟨action, proto, src, readOptional s⟩

structure Tunnel where
  iface : Token
  vni : Nat
  remote : Token

def parseTunnel (line : List Char) : Option Tunnel := do
  let (iface, s) ← readToken line
  let (vni, s) ← readInt s
  let (remote, _) ← readToken s
  if vni < 1 || 16777215 < vni then none else some ⟨iface, vni.toNat, remote⟩

structure StaticAddress where
  iface : Token
  ip : Token
  gw : Option Token

def parseStatic (line : List Char) : Option StaticAddress := do
  let (iface, s) ← readToken line
  let (ip, s) ← readToken s
  some ⟨iface, ip, readOptional s⟩

structure VlanTag where
  iface : Token
  id : Token

def parseVlan (line : List Char) : Option VlanTag := do
  let (iface, s) ← readToken line
  let (id, _) ← readToken s
  some ⟨iface, id⟩

def rulesOf {α : Type} (size : Nat) (parse : List Char → Option α) (content : List Char) : List α :=
  (fgetsLines size [] content).filterMap fun line => parse (lineText line)

def isExtraInterface (name : List Char) : Bool :=
  name.head? ≠ some '.' && name ≠ "lo".toList && name.take 3 = "eth".toList && name ≠ "eth0".toList

def vlanOf (content iface : List Char) : Option VlanTag :=
  (rulesOf 128 parseVlan content).find? fun tag => tag.iface.text = iface

def decimal (n : Nat) : List Char := Nat.toDigits 10 n

def QosRule.commandLine (r : QosRule) : List Char :=
  "tc qdisc add dev '".toList ++ (r.iface.text ++ ("' root tbf rate ".toList ++ (decimal r.rateMbps ++
    ("mbit burst 1024kbit limit 2048kbit 2>/dev/null || ".toList ++
    ("tc qdisc replace dev '".toList ++ (r.iface.text ++ ("' root tbf rate ".toList ++
    (decimal r.rateMbps ++ "mbit burst 1024kbit limit 2048kbit".toList))))))))

def AclRule.accepts (r : AclRule) : Bool := r.action.text = "accept".toList

def AclRule.nftCommandLine (r : AclRule) : List Char :=
  "nft add rule inet filter input ".toList ++
    ((if r.accepts then "accept".toList else "drop".toList) ++ (" ".toList ++ (r.proto.text ++
    (" saddr ".toList ++ (r.src.text ++ (" ".toList ++
    match r.dport with
    | none => []
    | some d => "ct state new tcp dport ".toList ++ (d.text ++ " ".toList)))))))

def AclRule.iptablesCommandLine (r : AclRule) : List Char :=
  "iptables -A INPUT -p ".toList ++ (r.proto.text ++ (" -s ".toList ++ (r.src.text ++ (" ".toList ++
    ((match r.dport with
    | none => []
    | some d => "--dport ".toList ++ d.text) ++
    (" -j ".toList ++ if r.accepts then "ACCEPT".toList else "DROP".toList))))))

def AclRule.commandLine (useNft : Bool) (r : AclRule) : List Char :=
  if useNft then r.nftCommandLine else r.iptablesCommandLine

def Tunnel.vxIface (t : Tunnel) : List Char := t.iface.text ++ (".vx".toList ++ decimal t.vni)

def Tunnel.commandLine (t : Tunnel) : List Char :=
  "ip link add '".toList ++ (t.vxIface ++ ("' type vxlan id ".toList ++ (decimal t.vni ++
    (" dev '".toList ++ (t.iface.text ++ ("' remote ".toList ++ (t.remote.text ++
    (" dstport 4789 2>/dev/null || ".toList ++
    ("ip link replace '".toList ++ (t.vxIface ++ ("' type vxlan id ".toList ++ (decimal t.vni ++
    (" dev '".toList ++ (t.iface.text ++ ("' remote ".toList ++ (t.remote.text ++
    (" dstport 4789 && ip link set '".toList ++ (t.vxIface ++ "' up".toList))))))))))))))))))

def StaticAddress.commandLine (a : StaticAddress) : List Char :=
  "ip addr replace ".toList ++ (a.ip.text ++ (" dev '".toList ++ (a.iface.text ++
    ("' && ip link set '".toList ++ (a.iface.text ++ ("' up".toList ++
    match a.gw with
    | none => []
    | some gw =>
      " && ip route replace default via ".toList ++ (gw.text ++ (" dev '".toList ++
        (a.iface.text ++ "'".toList)))))))))

def VlanTag.vlanIface (v : VlanTag) : List Char := v.iface.text ++ (".".toList ++ v.id.text)

def VlanTag.commandLine (v : VlanTag) : List Char :=
  "ip link add link '".toList ++ (v.iface.text ++ ("' name '".toList ++ (v.vlanIface ++
    ("' type vlan id ".toList ++ (v.id.text ++ (" && ip link set '".toList ++ (v.vlanIface ++
    "' up".toList)))))))

end WslPlus.NetConfig
